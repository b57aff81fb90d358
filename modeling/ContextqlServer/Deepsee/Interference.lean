import ContextqlServer.Deepsee.Contiguous
import ContextqlServer.Deepsee.Rest

namespace ContextqlServer.Deepsee.Interference

open ContextqlServer.Lib.Effect ContextqlServer.Lib.Log ContextqlServer.Lib.Mapping
open ContextqlServer.Lib.Python ContextqlServer.Lib.Rely
open ContextqlServer.Deepsee.Models ContextqlServer.Deepsee.MockService
open ContextqlServer.Deepsee.Client ContextqlServer.Deepsee.Store
open ContextqlServer.Deepsee.Synchronizer ContextqlServer.Deepsee.History
open ContextqlServer.Deepsee.Bootstrap ContextqlServer.Deepsee.Contiguous

/-- The mutations that come right before each operation of a call, and what the clock
shows at it. -/
structure Schedule where
  mutations : Nat → List Mutation
  clock : Nat → Timestamp

def attempt (s : MockDeepSeeService) (m : Mutation) : MockDeepSeeService :=
  match mutate s m with
  | .ok s' => s'
  | .error _ => s

/-- The source when `k` operations of a call have been answered. -/
def sourceAt (μ : Schedule) (s : MockDeepSeeService) : Nat → MockDeepSeeService
  | 0 => s
  | k + 1 => (μ.mutations k).foldl attempt (sourceAt μ s k)

/-- The world at operation number `k`. -/
def moved (μ : Schedule) (k : Nat) (w : World) : World :=
  { w with
    service := (μ.mutations k).foldl attempt w.service
    clock := μ.clock k }

/-- The world when `k` fetches of a call have been answered. -/
def worldAt (μ : Schedule) (w : World) : Nat → World
  | 0 => w
  | k + 1 => { w with service := sourceAt μ w.service (k + 1), clock := μ.clock k }

/-- The world and the number of operations answered, the source moving by a schedule. -/
def interfered (μ : Schedule) : Handler syncSig Exn (World × Nat) where
  perform o c :=
    let answer := World.perform o (moved μ c.2 c.1)
    (answer.1, answer.2, c.2 + 1)
  fault _ := none

variable {initial : Dict Int Float64} {μ : Schedule} {s t t' u : MockDeepSeeService} {w : World}

@[simp] theorem worldAt_service (k : Nat) : (worldAt μ w k).service = sourceAt μ w.service k := by
  cases k <;> rfl

theorem moved_worldAt (k : Nat) : moved μ k (worldAt μ w k) = worldAt μ w (k + 1) := by
  cases k <;> rfl

theorem mutates_attempts (s : MockDeepSeeService) (ms : List Mutation) :
    Mutates s (ms.foldl attempt s) := by
  induction ms generalizing s with
  | nil => exact .refl
  | cons m ms ih =>
    have h : Mutates s (attempt s m) := by
      rw [attempt]
      split
      · exact .single ⟨m, by assumption⟩
      · exact .refl
    exact Relation.ReflTransGen.trans h (ih (attempt s m))

theorem mutates_sourceAt (μ : Schedule) (s : MockDeepSeeService) {j k : Nat} (h : j ≤ k) :
    Mutates (sourceAt μ s j) (sourceAt μ s k) := by
  induction h with
  | refl => exact .refl
  | step _ ih => exact Relation.ReflTransGen.trans ih (mutates_attempts _ _)

theorem exec_source {α : Type} {p : SyncProg α} {c c' : World × Nat} {out : Except Exn α}
    (h : (interfered μ).exec p c = (out, c')) (hs : c.1.service = sourceAt μ s c.2) :
    c'.1.service = sourceAt μ s c'.2 ∧ c.2 ≤ c'.2 := by
  induction p generalizing c with
  | pure a =>
    cases h
    exact ⟨hs, le_rfl⟩
  | throw e =>
    cases h
    exact ⟨hs, le_rfl⟩
  | call o k ih =>
    obtain ⟨hs', hle⟩ := ih _ h ((World.perform_service o _).trans (congrArg ((μ.mutations c.2).foldl attempt) hs))
    exact ⟨hs', Nat.le_of_succ_le hle⟩

theorem runs_of_exec {α : Type} {p : SyncProg α} {c c' : World × Nat} {out : Except Exn α}
    (h : (interfered μ).exec p c = (out, c')) :
    Runs World.handler.Faulty SourceMoves p c.1 out c'.1 := by
  induction p generalizing c with
  | pure a =>
    cases h
    exact .pure a _
  | throw e =>
    cases h
    exact .throw e _
  | call o k ih =>
    exact .call ⟨_, _, mutates_attempts _ (μ.mutations c.2), rfl⟩ (Handler.Sound.faulty rfl) (ih _ h)

theorem exec_fetchSnapshot_interfered {client : DeepSeeClient} {cursor : Option String} {page : SnapshotPage}
    {c c' : World × Nat}
    (h : (interfered μ).exec (fetchSnapshot client cursor) c = (.ok page, c')) :
    c' = (moved μ c.2 c.1, c.2 + 1) ∧
      client.fetchSnapshot (μ.clock c.2) (moved μ c.2 c.1).service cursor = .ok page := by
  change (interfered μ).exec (Prog.ofExcept (client.fetchSnapshot (μ.clock c.2)
    (moved μ c.2 c.1).service cursor)) _ = _ at h
  cases hp : client.fetchSnapshot (μ.clock c.2) (moved μ c.2 c.1).service cursor with
  | ok page' =>
    rw [hp] at h
    cases h
    exact ⟨rfl, rfl⟩
  | error e =>
    rw [hp] at h
    cases h

/-- The ids on the first `n` pages, each listed when it is fetched. -/
def listed (μ : Schedule) (s : MockDeepSeeService) (n : Nat) : List Int :=
  (List.range n).flatMap (fun k => pageIds (sourceAt μ s (k + 1)) (k * s.pageSize))

/-- Page number `j`, counted from 0, is the last one. -/
structure LastPage (μ : Schedule) (s : MockDeepSeeService) (j : Nat) : Prop where
  more : ∀ k < j, (k + 1) * s.pageSize < (memberIds (sourceAt μ s (k + 1))).length
  ends : (memberIds (sourceAt μ s (j + 1))).length ≤ (j + 1) * s.pageSize

theorem mem_listed {n : Nat} {i : Int} :
    i ∈ listed μ s n ↔ ∃ k < n, i ∈ pageIds (sourceAt μ s (k + 1)) (k * s.pageSize) := by
  simp [listed]

theorem listed_succ (n : Nat) :
    listed μ s (n + 1) = listed μ s n ++ pageIds (sourceAt μ s (n + 1)) (n * s.pageSize) := by
  simp [listed, List.range_succ]

theorem pageSize_sourceAt (k : Nat) : (sourceAt μ s k).pageSize = s.pageSize :=
  (mutates_sourceAt μ s (Nat.zero_le k)).grows.pageSize

theorem nextCursor_idPage (k : Nat) :
    (idPage (sourceAt μ s (k + 1)) (k * s.pageSize)).nextCursor =
      if (k + 1) * s.pageSize < (memberIds (sourceAt μ s (k + 1))).length then
        some (toString (((k + 1) * s.pageSize : Nat) : Int))
      else none := by
  rw [idPage, pageSize_sourceAt, Nat.succ_mul]

/-- The pages of an id-list snapshot of a moving source, from page number `k` on. -/
theorem exec_collectIdPagesLoop {self : DeepSeeSynchronizer} (hs : w.service = s) (hm : s.bitmapSnapshot = false)
    {ids : List Int} {scores' : Dict Int Float64} {dataAsOf' : WireTime} {watermark' : String}
    {c' : World × Nat} (remaining k : Nat) (scores : Dict Int Float64) (dataAsOf : WireTime)
    (hmore : ∀ i < k, (i + 1) * s.pageSize < (memberIds (sourceAt μ s (i + 1))).length)
    (h : (interfered μ).exec (self.collectIdPagesLoop remaining (listed μ s (k + 1)) scores dataAsOf
      (sourceAt μ s (k + 1)).watermark (idPage (sourceAt μ s (k + 1)) (k * s.pageSize)).nextCursor)
      (worldAt μ w (k + 1), k + 1) = (.ok (ids, scores', dataAsOf', watermark'), c')) :
    ∃ j, LastPage μ s j ∧ ids = listed μ s (j + 1) ∧
      watermark' = (sourceAt μ s (j + 1)).watermark ∧ c' = (worldAt μ w (j + 1), j + 1) := by
  induction remaining generalizing k scores dataAsOf with
  | zero =>
    rw [nextCursor_idPage] at h
    by_cases hlast : (k + 1) * s.pageSize < (memberIds (sourceAt μ s (k + 1))).length
    · rw [if_pos hlast] at h
      cases h
    · rw [if_neg hlast] at h
      cases h
      exact ⟨k, ⟨hmore, Nat.not_lt.mp hlast⟩, rfl, rfl, rfl⟩
  | succ remaining ih =>
    rw [nextCursor_idPage] at h
    by_cases hlast : (k + 1) * s.pageSize < (memberIds (sourceAt μ s (k + 1))).length
    · rw [if_pos hlast] at h
      obtain ⟨page, c₁, hfetch, h⟩ := Handler.exec_bind_ok.mp h
      obtain ⟨rfl, hpage⟩ := exec_fetchSnapshot_interfered hfetch
      have hm' : (sourceAt μ s (k + 2)).bitmapSnapshot = false :=
        (mutates_sourceAt μ s (Nat.zero_le (k + 2))).grows.bitmapSnapshot.trans hm
      subst hs
      obtain ⟨-, -, rfl⟩ := (fetchSnapshot_ids_ok hm' (offsetOf_toString _)).mp hpage
      refine ih (k + 1) _ _ (fun i hi => ?_) (by rw [listed_succ]; exact h)
      rcases Nat.lt_succ_iff_lt_or_eq.mp hi with hi | rfl
      · exact hmore i hi
      · exact hlast
    · rw [if_neg hlast] at h
      cases h
      exact ⟨k, ⟨hmore, Nat.not_lt.mp hlast⟩, rfl, rfl, rfl⟩

end ContextqlServer.Deepsee.Interference
