import Mathlib.Data.Fintype.Basic
import Mathlib.Logic.Encodable.Basic
import Mathlib.Logic.Equiv.Finset
import Mathlib.Logic.Function.Basic
import ContextqlServer.Deepsee.Batch

namespace ContextqlServer.Deepsee.Machine

open ContextqlServer.Lib.Effect ContextqlServer.Lib.Mapping ContextqlServer.Lib.Python
open ContextqlServer.Lib.Rely
open ContextqlServer.Deepsee.Models ContextqlServer.Deepsee.MockService
open ContextqlServer.Deepsee.Store ContextqlServer.Deepsee.Synchronizer
open ContextqlServer.Deepsee.History

inductive Kind where
  | bootstrap
  | syncOnce
  deriving DecidableEq

/-- The call as its instance sees it: only the memory it ends with counts. -/
def Kind.prog (m : DeepSeeSynchronizer) (now : Timestamp) : Kind → SyncProg DeepSeeSynchronizer
  | .bootstrap => do
    let r ← m.bootstrap now
    pure r.2
  | .syncOnce => do
    let r ← m.syncOnce now
    pure r.2

/-- A synchronizer and the rest of the call it is in. -/
structure Instance where
  memory : DeepSeeSynchronizer
  running : Option (Kind × SyncProg DeepSeeSynchronizer)

/-- A call that raises leaves the memory as it was. -/
def settle (m : DeepSeeSynchronizer) (kind : Kind) : SyncProg DeepSeeSynchronizer → Instance
  | .pure m' => ⟨m', none⟩
  | .throw _ => ⟨m, none⟩
  | .call o k => ⟨m, some (kind, .call o k)⟩

/-- Synchronizers that share one source, one store and one state repository. -/
structure System (ι : Type) where
  world : World
  instances : ι → Instance

inductive Action (ι : Type) where
  | mutate (m : Mutation)
  /-- The clock shows another time. -/
  | tick (now : Timestamp)
  | call (i : ι) (kind : Kind) (now : Timestamp)
  /-- The next operation of a running call goes through, or fails. -/
  | perform (i : ι) (failure : Option Exn)
  /-- The process ends, wherever it is, and starts again. -/
  | restart (i : ι)

variable {ι : Type}

namespace System

variable [DecidableEq ι]

def step (c : System ι) : Action ι → Option (System ι)
  | .mutate m =>
    match mutate c.world.service m with
    | .ok s => some { c with world := { c.world with service := s } }
    | .error _ => none
  | .tick now => some { c with world := { c.world with clock := now } }
  | .call i kind now =>
    match (c.instances i).running with
    | some _ => none
    | none =>
      let m := (c.instances i).memory
      some { c with instances := Function.update c.instances i (settle m kind (kind.prog m now)) }
  | .perform i failure =>
    match (c.instances i).running with
    | some (kind, .call o k) =>
      (World.handler.answer o failure c.world).map (fun a =>
        ⟨a.2, Function.update c.instances i (settle (c.instances i).memory kind (k a.1))⟩)
    | _ => none
  | .restart i =>
    some { c with instances :=
      Function.update c.instances i ⟨(c.instances i).memory.init c.world.durable, none⟩ }

/-- The runs all of whose steps are allowed by `P`. -/
inductive Reaches (P : System ι → Action ι → Prop) (c₀ : System ι) : System ι → Prop
  | refl : Reaches P c₀ c₀
  | step {c c' : System ι} {a : Action ι} (h : Reaches P c₀ c) (hP : P c a)
      (hs : c.step a = some c') : Reaches P c₀ c'

/-- No source mutation while a bootstrap runs. -/
def Quiet (c : System ι) : Action ι → Prop
  | .mutate _ => ∀ i, (c.instances i).running.map Prod.fst ≠ some .bootstrap
  | _ => True

instance [Fintype ι] (c : System ι) : DecidablePred c.Quiet
  | .mutate _ => inferInstanceAs (Decidable (∀ _, _))
  | .tick _ => isTrue trivial
  | .call _ _ _ => isTrue trivial
  | .perform _ _ => isTrue trivial
  | .restart _ => isTrue trivial

/-- An operation that goes through respects `G`. -/
def Respects (G : SyncOp → World → Prop) (c : System ι) : Action ι → Prop
  | .perform i none => ∀ kind o k, (c.instances i).running = some (kind, .call o k) → G o c.world
  | _ => True

section Run

variable (P : System ι → Action ι → Prop) [∀ c, DecidablePred (P c)]

/-- The run along a list of actions, where `P` allows them. -/
def run (c : System ι) : List (Action ι) → Option (System ι)
  | [] => some c
  | a :: as => if P c a then (c.step a).bind (fun c' => c'.run as) else none

theorem run_reaches {c₀ c c' : System ι} {as : List (Action ι)} (h₀ : Reaches P c₀ c)
    (h : c.run P as = some c') : Reaches P c₀ c' := by
  induction as generalizing c with
  | nil => exact Option.some.inj h ▸ h₀
  | cons a as ih =>
    rw [run] at h
    split at h
    · obtain ⟨c₁, h₁, h⟩ := Option.bind_eq_some_iff.mp h
      exact ih (h₀.step (by assumption) h₁) h
    · cases h

end Run

theorem Reaches.mutates {P : System ι → Action ι → Prop} {c₀ c : System ι}
    (h : Reaches P c₀ c) : Mutates c₀.world.service c.world.service := by
  induction h with
  | refl => exact .refl
  | @step c c' a _ _ hs ih =>
    cases a with
    | mutate m =>
      rw [System.step] at hs
      cases hm : History.mutate c.world.service m with
      | error e =>
        rw [hm] at hs
        cases hs
      | ok s =>
        rw [hm] at hs
        cases hs
        exact ih.tail ⟨m, hm⟩
    | tick now =>
      cases hs
      exact ih
    | call i kind now =>
      rw [System.step] at hs
      split at hs
      · cases hs
      · cases hs
        exact ih
    | perform i failure =>
      rw [System.step] at hs
      split at hs
      · rename_i kind o k _
        obtain ⟨⟨r, w⟩, ha, rfl⟩ := Option.map_eq_some_iff.mp hs
        cases failure with
        | none =>
          obtain ⟨-, rfl⟩ := Prod.ext_iff.mp (Option.some.inj ha)
          have hservice := World.perform_service o c.world
          exact hservice.symm ▸ ih
        | some e =>
          obtain ⟨-, rfl⟩ := Prod.ext_iff.mp (Option.some.inj ha)
          exact ih
      · cases hs
    | restart i =>
      cases hs
      exact ih

omit [DecidableEq ι] in
theorem respects_true (c : System ι) (a : Action ι) : c.Respects (fun _ _ => True) a := by
  cases a with
  | perform i failure => cases failure <;> simp [Respects]
  | mutate m => trivial
  | tick now => trivial
  | call i kind now => trivial
  | restart i => trivial

end System

/-- What is kept about the instances of a system: a condition `I` on the world, a
condition `M` on a memory, and what each kind of call relies on. Where it is not
`moving`, bootstraps find the source at rest. -/
structure Discipline where
  moving : Prop
  G : SyncOp → World → Prop
  I : World → Prop
  M : DeepSeeSynchronizer → World → Prop
  R : Kind → World → World → Prop

namespace Discipline

variable (D : Discipline)

/-- How a call ends: with the world and its new memory in order. -/
def Ends (m : DeepSeeSynchronizer) (out : Except Exn DeepSeeSynchronizer) (w : World) : Prop :=
  D.I w ∧ match out with
    | .ok m' => D.M m' w
    | .error _ => D.M m w

def Runs (m : DeepSeeSynchronizer) (kind : Kind) (p : SyncProg DeepSeeSynchronizer) (w : World) :
    Prop :=
  Keeps (Guarded D.G) (D.R kind) (fun w => D.I w ∧ D.M m w) (D.Ends m) p w

structure Holds (c : System ι) : Prop where
  world : D.I c.world
  memory : ∀ i, D.M (c.instances i).memory c.world
  running : ∀ i kind p, (c.instances i).running = some (kind, p) →
    D.Runs (c.instances i).memory kind p c.world

/-- What has to be shown of a discipline for it to be kept by every step. -/
structure Sound (ι : Type) : Prop where
  trans : ∀ kind w w' w'', D.R kind w w' → D.R kind w' w'' → D.R kind w w''
  refl : ∀ kind w, D.R kind w w
  rely : ∀ kind w w', D.R kind w w' → D.I w → D.I w'
  relyM : ∀ kind m w w', D.R kind w w' → D.M m w → D.M m w'
  mutate : ∀ kind w m s, (kind = .bootstrap → D.moving) → D.I w → mutate w.service m = .ok s →
    D.R kind w { w with service := s }
  tick : ∀ kind w now, D.I w → D.R kind w { w with clock := now }
  call : ∀ kind m now w, D.I w → D.M m w → D.Runs m kind (kind.prog m now) w
  restart : ∀ m w, D.I w → D.M m w → D.M (m.init w.durable) w
  others : ∀ i j : ι, i ≠ j → ∀ kind o w r w', D.I w → D.I w' → Guarded D.G o w r w' → D.R kind w w'

variable {D}

theorem Runs.settle {m : DeepSeeSynchronizer} {kind : Kind} {p : SyncProg DeepSeeSynchronizer}
    {w : World} (h : D.Runs m kind p w) :
    D.I w ∧ D.M (settle m kind p).memory w ∧
      ∀ kind' p', (Machine.settle m kind p).running = some (kind', p') →
        D.Runs (Machine.settle m kind p).memory kind' p' w := by
  cases p with
  | pure m' => exact ⟨h.1, h.2, fun _ _ h => by cases h⟩
  | throw e => exact ⟨h.1, h.2, fun _ _ h => by cases h⟩
  | call o k => exact ⟨h.1.1, h.1.2, fun _ _ h' => by cases h'; exact h⟩

theorem Runs.rely (hD : D.Sound ι) {m : DeepSeeSynchronizer} {kind : Kind}
    {p : SyncProg DeepSeeSynchronizer} {w w' : World} (hw : D.R kind w w')
    (h : D.Runs m kind p w) : D.Runs m kind p w' := by
  apply Keeps.rely (hD.trans kind) _ _ hw h
  · exact fun w w' hw hI => ⟨hD.rely kind w w' hw hI.1, hD.relyM kind m w w' hw hI.2⟩
  · intro out w w' hw hE
    refine ⟨hD.rely kind w w' hw hE.1, ?_⟩
    cases out with
    | ok m' => exact hD.relyM kind m' w w' hw hE.2
    | error e => exact hD.relyM kind m w w' hw hE.2

variable [DecidableEq ι]

theorem Holds.update (hD : D.Sound ι) {c : System ι} (h : D.Holds c) {i : ι} {w : World}
    {x : Instance} (hI : D.I w) (hM : D.M x.memory w)
    (hx : ∀ kind p, x.running = some (kind, p) → D.Runs x.memory kind p w)
    (hw : ∀ j, j ≠ i → ∀ kind, D.R kind c.world w) :
    D.Holds ⟨w, Function.update c.instances i x⟩ where
  world := hI
  memory j := by
    by_cases hj : j = i
    · subst hj
      simpa using hM
    · simpa [hj] using hD.relyM .syncOnce _ _ _ (hw j hj .syncOnce) (h.memory j)
  running j kind p hp := by
    by_cases hj : j = i
    · subst hj
      simp only [Function.update_self] at hp ⊢
      exact hx kind p hp
    · simp only [Function.update_of_ne hj] at hp ⊢
      exact (h.running j kind p hp).rely hD (hw j hj kind)

theorem Holds.step (hD : D.Sound ι) {c c' : System ι} {a : Action ι} (h : D.Holds c)
    (hq : D.moving ∨ c.Quiet a) (hg : c.Respects D.G a) (hs : c.step a = some c') : D.Holds c' := by
  cases a with
  | mutate m =>
    rw [System.step] at hs
    cases hm : History.mutate c.world.service m with
    | error e =>
      rw [hm] at hs
      cases hs
    | ok s =>
      rw [hm] at hs
      cases hs
      have hR := hD.mutate .syncOnce c.world m s (fun hk => by cases hk) h.world hm
      refine ⟨hD.rely _ _ _ hR h.world, fun i => hD.relyM _ _ _ _ hR (h.memory i), ?_⟩
      intro i kind p hp
      refine (h.running i kind p hp).rely hD (hD.mutate kind c.world m s (fun hk => ?_) h.world hm)
      exact hq.resolve_right (fun hq => hq i (by rw [hp, hk]; rfl))
  | tick now =>
    cases hs
    have hR := fun kind => hD.tick kind c.world now h.world
    exact {
      world := hD.rely _ _ _ (hR .syncOnce) h.world
      memory := fun i => hD.relyM _ _ _ _ (hR .syncOnce) (h.memory i)
      running := fun i kind p hp => (h.running i kind p hp).rely hD (hR kind) }
  | call i kind now =>
    rw [System.step] at hs
    split at hs
    · cases hs
    · cases hs
      obtain ⟨hI, hM, hrun⟩ := (hD.call kind _ now c.world h.world (h.memory i)).settle
      exact h.update hD hI hM hrun (fun j _ kind => hD.refl kind _)
  | perform i failure =>
    rw [System.step] at hs
    split at hs
    · rename_i kind o k hp
      obtain ⟨⟨r, w⟩, ha, rfl⟩ := Option.map_eq_some_iff.mp hs
      have hA : Guarded D.G o c.world r w := by
        refine ⟨failure, ha, ?_⟩
        rintro rfl
        exact hg kind o k hp
      have hk := (h.running i kind _ hp).2 c.world (hD.refl kind _) ⟨h.world, h.memory i⟩ r w hA
      obtain ⟨hI, hM, hrun⟩ := Runs.settle hk
      exact h.update hD hI hM hrun
        (fun j hj kind => hD.others i j (Ne.symm hj) kind o _ r w h.world hI hA)
    · cases hs
  | restart i =>
    cases hs
    exact h.update hD h.world (hD.restart _ _ h.world (h.memory i)) (fun _ _ h => by cases h)
      (fun j _ kind => hD.refl kind _)

/-- And so does a run. -/
theorem Holds.reaches (hD : D.Sound ι) {P : System ι → Action ι → Prop}
    (hP : ∀ c a, P c a → (D.moving ∨ c.Quiet a) ∧ c.Respects D.G a) {c c' : System ι} (h : D.Holds c)
    (hr : System.Reaches P c c') : D.Holds c' := by
  induction hr with
  | refl => exact h
  | step _ ha hs ih => exact ih.step hD (hP _ _ ha).1 (hP _ _ ha).2 hs

end Discipline

section Sample

/-- A bitmap package that keeps its promises on every set. -/
def unaryBitMap64 : BitMap64 where
  encode ids :=
    if ∀ i ∈ ids, 0 ≤ i ∧ i < 2 ^ 64 then .ok ids.toFinset
    else .error "an integer does not fit into 64 bits"
  encode_ok ids s := by
    split
    · rename_i h
      exact ⟨fun heq => ⟨h, (Except.ok.inj heq).symm⟩, fun heq => congrArg _ heq.2.symm⟩
    · rename_i h
      exact iff_of_false (by simp) (fun heq => h heq.1)
  serialize s := List.replicate (Encodable.encode s) 0
  deserialize payload :=
    if payload.all (· == 0) then Encodable.decode payload.length else none

theorem unaryBitMap64_lawful : Lawful unaryBitMap64 where
  roundTrips s _ := by simp [unaryBitMap64]
  rejects := by
    have h : ¬ malformedPayload.all (· == 0) = true := by decide
    simp only [unaryBitMap64, if_neg h]

def sampleService (members : Dict Int Float64) (pageSize : Nat) : MockDeepSeeService where
  members
  pageSize
  requireAuth := false
  bitmapSnapshot := false
  malformedBitmap := false
  invalidKeyType := false
  staleDataAsOf := false
  duplicateDelivery := true
  outOfOrder := true
  redeliverFromStart := true
  events := []
  seq := 0

def sampleSynchronizer : DeepSeeSynchronizer where
  client := ⟨unaryBitMap64, none, 1000, none⟩
  contextId := "context"
  stagesSnapshots := true
  stagesDeltas := true
  stateRepository := true
  committedWatermark := none
  seenEventIds := ∅

def sampleSystem (ι : Type) (service : MockDeepSeeService) : System ι where
  world := ⟨service, none, ⟨[], []⟩, baseTime⟩
  instances _ := ⟨sampleSynchronizer, none⟩

def wholeCall {ι : Type} (i : ι) (kind : Kind) (operations : Nat) : List (Action ι) :=
  .call i kind 0 :: List.replicate operations (.perform i none)

end Sample

end ContextqlServer.Deepsee.Machine
