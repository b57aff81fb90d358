import ContextqlServer.Deepsee.Crash
import ContextqlServer.Lib.Unwinding

namespace ContextqlServer.Deepsee.Recovery

open ContextqlServer.Lib.Effect ContextqlServer.Lib.Unwinding
open ContextqlServer.Deepsee.Models ContextqlServer.Deepsee.Store ContextqlServer.Deepsee.Synchronizer
open ContextqlServer.Deepsee.Machine ContextqlServer.Deepsee.Crash

section Calls

variable {self : DeepSeeSynchronizer}

theorem collectIdPagesLoop_unwinds (remaining : Nat) (members : List Int)
    (scores : ContextqlServer.Lib.Mapping.Dict Int ContextqlServer.Lib.Python.Float64)
    (dataAsOf : WireTime) (watermark : String) (cursor : Option String) :
    Unwinds (self.collectIdPagesLoop remaining members scores dataAsOf watermark cursor) := by
  induction remaining generalizing members scores dataAsOf watermark cursor with
  | zero => cases cursor <;> trivial
  | succ remaining ih =>
    cases cursor with
    | none => trivial
    | some cursor => exact (Unwinds.perform _).bind fun page => ih _ _ _ _ _

theorem fetchAllChangesLoop_unwinds (committed : String) (remaining : Nat) (events : List ChangeEvent)
    (cursor : Option String) : Unwinds (self.fetchAllChangesLoop committed remaining events cursor) := by
  induction remaining generalizing events cursor with
  | zero => trivial
  | succ remaining ih =>
    apply (Unwinds.perform _).bind
    intro batch
    cases batch.nextCursor with
    | none => trivial
    | some cursor => exact ih _ _

theorem publishSnapshot_unwinds (s : MembershipSnapshot) : Unwinds (self.publishSnapshot s) := by
  rw [DeepSeeSynchronizer.publishSnapshot]
  split
  · exact (Unwinds.perform _).bind fun _ => .perform _
  · exact .perform _

theorem publishDelta_unwinds (d : Delta) : Unwinds (self.publishDelta d) := by
  rw [DeepSeeSynchronizer.publishDelta]
  split
  · exact (Unwinds.perform _).bind fun _ => .perform _
  · exact .perform _

theorem commits_unwinds {α : Type} {contextId watermark : String} {events : List (String × String)} (a : α) :
    Unwinds (do
      if self.stateRepository then
        commitState contextId watermark events
      pure a) := by
  cases self.stateRepository with
  | true => exact (Unwinds.perform _).bind fun _ => .pure a
  | false => trivial

theorem bootstrap_unwinds (now : Timestamp) : Unwinds (self.bootstrap now) := by
  rw [DeepSeeSynchronizer.bootstrap, DeepSeeSynchronizer.ingest]
  apply Unwinds.bind
  · apply (Unwinds.perform _).bind
    intro page
    cases page.membershipBitmap with
    | some payload => exact (Unwinds.ofExcept _).bind fun _ => .pure _
    | none => exact (collectIdPagesLoop_unwinds _ _ _ _ _ _).bind fun _ => .pure _
  · intro ingested
    apply (Unwinds.ofExcept _).bind
    intro dataAsOf
    exact (publishSnapshot_unwinds _).bind fun _ => commits_unwinds _

theorem syncOnce_unwinds (now : Timestamp) : Unwinds (self.syncOnce now) := by
  rw [DeepSeeSynchronizer.syncOnce]
  cases self.committedWatermark with
  | none => trivial
  | some committed =>
    apply (fetchAllChangesLoop_unwinds _ _ _ _).bind
    intro fetched
    apply (Unwinds.ofExcept _).bind
    intro filtered
    split
    · trivial
    · apply (Unwinds.ofExcept _).bind
      intro ordered
      apply (Unwinds.ofExcept _).bind
      intro folded
      apply (Unwinds.ofExcept _).bind
      intro newWatermark
      apply (Unwinds.ofExcept _).bind
      intro dataAsOf
      exact (publishDelta_unwinds _).bind fun _ => commits_unwinds _

theorem prog_unwinds (kind : Kind) (now : Timestamp) : Unwinds (kind.prog self now) := by
  cases kind with
  | bootstrap => exact (bootstrap_unwinds now).bind fun _ => .pure _
  | syncOnce => exact (syncOnce_unwinds now).bind fun _ => .pure _

end Calls

section Runs

variable {ι : Type} [DecidableEq ι] {c c' c₀ : System ι}

/-- The rest of a call, at an operation, whose failure ends it. -/
def Suspended (p : SyncProg DeepSeeSynchronizer) : Prop := (∃ o k, p = .call o k) ∧ Unwinds p

def AtOperations (c : System ι) : Prop :=
  ∀ i kind p, (c.instances i).running = some (kind, p) → Suspended p

theorem settle_suspended {m : DeepSeeSynchronizer} {kind kind' : Kind} {p p' : SyncProg DeepSeeSynchronizer}
    (hp : Unwinds p) (h : (settle m kind p).running = some (kind', p')) : Suspended p' := by
  cases p with
  | pure m' => cases h
  | throw e => cases h
  | call o k =>
    obtain ⟨-, rfl⟩ := Prod.mk.inj (Option.some.inj h)
    exact ⟨⟨o, k, rfl⟩, hp⟩

theorem AtOperations.update (h : AtOperations c) {i : ι} {w : World} {x : Instance}
    (hx : ∀ kind p, x.running = some (kind, p) → Suspended p) :
    AtOperations ⟨w, Function.update c.instances i x⟩ := by
  intro j kind p hp
  change (Function.update c.instances i x j).running = _ at hp
  by_cases hj : j = i
  · subst hj
    rw [Function.update_self] at hp
    exact hx kind p hp
  · rw [Function.update_of_ne hj] at hp
    exact h j kind p hp

theorem AtOperations.step {a : Action ι} (h : AtOperations c) (hs : c.step a = some c') : AtOperations c' := by
  cases a with
  | mutate m =>
    rw [System.step] at hs
    split at hs
    · cases hs
      exact h
    · cases hs
  | tick now =>
    cases hs
    exact h
  | call i kind now =>
    rw [System.step] at hs
    split at hs
    · cases hs
    · cases hs
      exact h.update fun kind' p hp => settle_suspended (prog_unwinds kind now) hp
  | perform i failure =>
    rw [System.step] at hs
    split at hs
    · rename_i kind o k hrunning
      obtain ⟨⟨r, w⟩, -, rfl⟩ := Option.map_eq_some_iff.mp hs
      exact h.update fun kind' p hp => settle_suspended ((h i kind _ hrunning).2.2 r) hp
    · cases hs
  | restart i =>
    cases hs
    exact h.update fun kind p hp => by cases hp

theorem AtOperations.reaches {P : System ι → Action ι → Prop} (h : AtOperations c₀)
    (hr : System.Reaches P c₀ c) : AtOperations c := by
  induction hr with
  | refl => exact h
  | step _ _ hs ih => exact ih.step hs

end Runs

section Restarts

variable {contextId : String} {c c' c₀ : System Unit}

/-- No process restarts. -/
def Steady (c : System Unit) : Action Unit → Prop
  | .restart _ => False
  | a => c.Quiet a

theorem Steady.quiet {a : Action Unit} (h : Steady c a) : c.Quiet a := by
  cases a with
  | restart i => exact h.elim
  | _ => exact h

/-- A restart finds the memory of the synchronizer again, and what it cuts off could as
well have failed. -/
theorem restart_simulated (hmemory : (c.instances ()).memory.init c.world.durable = (c.instances ()).memory)
    (hat : AtOperations c) (hs : c.step (.restart ()) = some c') :
    c' = c ∨ ∃ e, c.step (.perform () (some e)) = some c' := by
  obtain rfl := (Option.some.inj hs).symm
  rw [hmemory]
  cases hrunning : (c.instances ()).running with
  | none =>
    left
    obtain ⟨w, instances⟩ := c
    change System.mk w _ = System.mk w instances
    congr 1
    funext i
    change (⟨(instances ()).memory, none⟩ : Instance) = instances ()
    rw [← hrunning]
  | some call =>
    right
    obtain ⟨kind, p⟩ := call
    obtain ⟨⟨o, k, rfl⟩, hunwinds⟩ := hat () kind p hrunning
    refine ⟨.external "killed", ?_⟩
    obtain ⟨hanswer, hk⟩ := hunwinds.failed (H := World.handler) (w := c.world) rfl (.external "killed")
    simp only [System.step, hrunning, hanswer, Option.map_some, hk]
    rfl

/-- Restarts add no state: whatever a run reaches in which the process is restarted
anywhere, one reaches without restarts in which operations fail. -/
theorem restarts_add_nothing (h₀ : Started contextId c₀) :
    System.Reaches System.Quiet c₀ c ↔ System.Reaches Steady c₀ c := by
  constructor
  · intro hr
    have hat₀ : AtOperations c₀ := by
      intro i kind p hp
      cases h₀.idle.symm.trans hp
    induction hr with
    | refl => exact .refl
    | @step c c' a hr hq hs ih =>
      cases a with
      | restart i =>
        have hholds := h₀.holds.reaches alone_sound (fun c a hq => ⟨.inr hq, c.respects_true a⟩) hr
        obtain ⟨hconfigured, hload⟩ := hholds.memory ()
        have hmemory := DeepSeeSynchronizer.init_eq hconfigured.stateRepository (hconfigured.contextId ▸ hload)
        obtain rfl | ⟨e, hfailed⟩ := restart_simulated hmemory (hat₀.reaches hr) hs
        · exact ih
        · refine ih.step ?_ hfailed
          trivial
      | _ =>
        refine ih.step ?_ hs
        exact hq
  · intro hr
    induction hr with
    | refl => exact .refl
    | step _ hP hs ih => exact ih.step hP.quiet hs

/-- A publication whose commit fails before the process starts again. -/
theorem restarts_add_nothing_sample :
    sampleCrashed.world.store.isSome = true ∧ System.Reaches Steady sampleStart sampleCrashed := by
  exact ⟨by decide, (restarts_add_nothing sampleStart_started).mp sampleCrashed_reached⟩

end Restarts

end ContextqlServer.Deepsee.Recovery
