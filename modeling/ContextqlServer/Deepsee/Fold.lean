import ContextqlServer.Deepsee.History
import ContextqlServer.Deepsee.Synchronizer

namespace ContextqlServer.Deepsee.Fold

open ContextqlServer.Lib.Effect ContextqlServer.Lib.Log ContextqlServer.Lib.Mapping
open ContextqlServer.Lib.Python
open ContextqlServer.Deepsee.Models ContextqlServer.Deepsee.MockService
open ContextqlServer.Deepsee.Store ContextqlServer.Deepsee.Synchronizer
open ContextqlServer.Deepsee.History

/-- What a fold holds for one entity: the score it is added with, and the score
change kept beside the additions. -/
structure Held where
  addition : Option Float64
  scoreChange : Option Float64

def Held.next (x : Int) (h : Held) (e : ChangeEvent) : Held :=
  if e.entityId = x then
    match e.changeType with
    | .added => { h with addition := some ((e.score.getD 0).orOne) }
    | .removed => ⟨none, none⟩
    | .scoreChanged =>
      if h.addition.isSome then { h with addition := e.score } else { h with scoreChange := e.score }
  else h

def held (x : Int) (es : List ChangeEvent) : Held := es.foldl (Held.next x) ⟨none, none⟩

/-- A fold of the events gone through, seen entity by entity. -/
structure Folds (done : List ChangeEvent) (f : FoldedChanges) : Prop where
  removals : ∀ x, x ∈ f.removals ↔ net writesMember done x = some false
  additions : ∀ x, (f.additions.lookup x).isSome ↔ net writesMember done x = some true
  held : ∀ x, ⟨f.additions.lookup x, f.scoreChanges.lookup x⟩ = held x done

theorem net_snoc (done : List ChangeEvent) (e : ChangeEvent) (x : Int) :
    net writesMember (done ++ [e]) x = (writesMember e x).or (net writesMember done x) := by
  rw [net_append]
  simp [net]

theorem held_snoc (done : List ChangeEvent) (e : ChangeEvent) (x : Int) :
    held x (done ++ [e]) = (held x done).next x e := by
  rw [held, List.foldl_append]
  rfl

theorem foldEvent_ok {done : List ChangeEvent} {f : FoldedChanges} {e : ChangeEvent}
    (hs : e.changeType = .removed ∨ e.score.isSome) (hf : Folds done f) :
    ∃ f', foldEvent f e = .ok f' ∧ Folds (done ++ [e]) f' := by
  rw [foldEvent]
  cases ht : e.changeType with
  | added =>
    refine ⟨_, rfl, fun x => ?_, fun x => ?_, fun x => ?_⟩
    · rw [net_snoc, writesMember, ht, Finset.mem_erase, hf.removals]
      by_cases hx : e.entityId = x
      · simp [hx]
      · simp [hx, Ne.symm hx]
    · rw [net_snoc, writesMember, ht, lookup_insert']
      by_cases hx : e.entityId = x
      · simp [hx]
      · simpa [hx, Ne.symm hx] using hf.additions x
    · rw [held_snoc, ← hf.held, Held.next, ht, lookup_insert']
      by_cases hx : e.entityId = x
      · simp [hx]
      · simp [hx, Ne.symm hx]
  | removed =>
    refine ⟨_, rfl, fun x => ?_, fun x => ?_, fun x => ?_⟩
    · rw [net_snoc, writesMember, ht, Finset.mem_insert, hf.removals]
      by_cases hx : e.entityId = x
      · simp [hx]
      · simp [hx, Ne.symm hx]
    · rw [net_snoc, writesMember, ht, lookup_erase']
      by_cases hx : e.entityId = x
      · simp [hx]
      · simpa [hx, Ne.symm hx] using hf.additions x
    · rw [held_snoc, ← hf.held, Held.next, ht, lookup_erase', lookup_erase']
      by_cases hx : e.entityId = x
      · simp [hx]
      · simp [hx, Ne.symm hx]
  | scoreChanged =>
    obtain ⟨score, hscore⟩ : ∃ score, e.score = some score := by
      simpa [ht, Option.isSome_iff_exists] using hs
    have hnet : ∀ x, net writesMember (done ++ [e]) x = net writesMember done x := by
      intro x
      rw [net_snoc, writesMember, ht]
      split <;> rfl
    by_cases hm : e.entityId ∈ f.additions
    · -- an addition of the same batch takes the new score
      refine ⟨{ f with additions := f.additions.insert e.entityId score }, by simp [hscore, hm],
        fun x => ?_, fun x => ?_, fun x => ?_⟩
      · rw [hnet, hf.removals]
      · rw [hnet, ← hf.additions, lookup_insert']
        by_cases hx : x = e.entityId
        · subst hx
          simpa using mem_iff_lookup.mp hm
        · simp [hx]
      · rw [held_snoc, ← hf.held, Held.next, ht, lookup_insert']
        by_cases hx : e.entityId = x
        · subst hx
          simp [mem_iff_lookup.mp hm, hscore]
        · simp [hx, Ne.symm hx]
    · refine ⟨{ f with scoreChanges := f.scoreChanges.insert e.entityId score },
        by simp [hscore, hm], fun x => ?_, fun x => ?_, fun x => ?_⟩
      · rw [hnet, hf.removals]
      · rw [hnet, hf.additions]
      · rw [held_snoc, ← hf.held, Held.next, ht, lookup_insert']
        by_cases hx : e.entityId = x
        · subst hx
          simp [Finmap.lookup_eq_none.mpr hm, hscore]
        · simp [hx, Ne.symm hx]

theorem foldEvents_ok {ordered : List ChangeEvent}
    (hs : ∀ e ∈ ordered, e.changeType = .removed ∨ e.score.isSome) :
    ∃ f, foldEvents ordered = .ok f ∧ Folds ordered f := by
  have hinit : Folds [] FoldedChanges.empty := by
    refine ⟨fun x => ?_, fun x => ?_, fun x => rfl⟩
    · simp [FoldedChanges.empty, net]
    · simp [FoldedChanges.empty, net]
  exact foldlM_ok (fun done e f he hf => foldEvent_ok (hs e he) hf) hinit

/-- The delta of `sync_once` for a fold. -/
def deltaOf (f : FoldedChanges) (watermark : String) (computedAt dataAsOf : Timestamp) : Delta :=
  { additions := sorted f.additions.keys
    removals := sorted f.removals
    scoreChanges := f.scoreChanges ∪ f.additions
    computedAt
    dataAsOf
    sourceWatermark := watermark }

theorem applyDelta_members {ordered : List ChangeEvent} {f : FoldedChanges} (hf : Folds ordered f)
    (s : MembershipSnapshot) (watermark : String) (computedAt dataAsOf : Timestamp) (x : Int) :
    decide (x ∈ (s.applyDelta (deltaOf f watermark computedAt dataAsOf)).members) =
      replay writesMember (fun y => decide (y ∈ s.members)) ordered x := by
  have ha : x ∈ f.additions.keys ↔ net writesMember ordered x = some true := by
    rw [Finmap.mem_keys, mem_iff_lookup, hf.additions]
  rw [replay_apply, MembershipSnapshot.applyDelta, deltaOf]
  simp only [Finset.mem_union, Finset.mem_sdiff, List.mem_toFinset, mem_sorted, ha, hf.removals]
  cases h : net writesMember ordered x with
  | none => simp
  | some c => cases c <;> simp

end ContextqlServer.Deepsee.Fold
