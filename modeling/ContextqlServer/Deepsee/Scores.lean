import ContextqlServer.Deepsee.Fold

namespace ContextqlServer.Deepsee.Scores

open ContextqlServer.Lib.Log ContextqlServer.Lib.Mapping ContextqlServer.Lib.Python
open ContextqlServer.Deepsee.Models ContextqlServer.Deepsee.MockService
open ContextqlServer.Deepsee.Store ContextqlServer.Deepsee.Synchronizer
open ContextqlServer.Deepsee.History ContextqlServer.Deepsee.Fold

/-- The events about an entity after its last removal. -/
def since (x : Int) (es : List ChangeEvent) : List ChangeEvent :=
  (es.filter (fun e => e.entityId = x)).rtakeWhile (fun e => e.changeType ≠ .removed)

def isScoreChange (e : ChangeEvent) : Bool := e.changeType = .scoreChanged

/-- Those before its first addition among them. -/
def beforeAddition (x : Int) (es : List ChangeEvent) : List ChangeEvent :=
  (since x es).takeWhile isScoreChange

def fromAddition (x : Int) (es : List ChangeEvent) : List ChangeEvent :=
  (since x es).dropWhile isScoreChange

/-- After a score change an addition leads back to the changed score, and without one
the last event is not an addition with score zero. -/
structure Faithful (x : Int) (es : List ChangeEvent) : Prop where
  unchanged : ∀ e ∈ (beforeAddition x es).getLast?, ∀ a ∈ (fromAddition x es).getLast?,
    a.score = e.score
  nonzero : beforeAddition x es = [] → ∀ a ∈ (fromAddition x es).getLast?,
    a.changeType = .added → a.score ≠ some 0

variable {x : Int} {es : List ChangeEvent} {e : ChangeEvent}

theorem since_snoc (x : Int) (es : List ChangeEvent) (e : ChangeEvent) :
    since x (es ++ [e]) =
      if e.entityId = x then (if e.changeType = .removed then [] else since x es ++ [e])
      else since x es := by
  rw [since, List.filter_append]
  by_cases hx : e.entityId = x
  · have hf : [e].filter (fun e => e.entityId = x) = [e] := by simp [hx]
    rw [hf, List.rtakeWhile_concat, if_pos hx]
    by_cases hr : e.changeType = .removed
    · simp [hr]
    · simp [hr, since]
  · simp [hx, since]

theorem of_mem_since (he : e ∈ since x es) : e ∈ es ∧ e.changeType ≠ .removed := by
  have hr := List.mem_rtakeWhile_imp he
  have hmem := (List.rtakeWhile_suffix _ _).subset he
  exact ⟨(List.mem_filter.mp hmem).1, of_decide_eq_true hr⟩

theorem mem_fromAddition (h : e ∈ fromAddition x es) : e ∈ since x es :=
  (List.dropWhile_suffix _).subset h

theorem mem_beforeAddition (h : e ∈ beforeAddition x es) : e ∈ since x es :=
  (List.takeWhile_prefix _).subset h

section Snoc

variable (hx : e.entityId = x) (hr : e.changeType ≠ .removed)

include hx hr

theorem since_about : since x (es ++ [e]) = since x es ++ [e] := by
  rw [since_snoc, if_pos hx, if_neg hr]

theorem fromAddition_about : fromAddition x (es ++ [e]) =
    if (fromAddition x es).isEmpty then [e].dropWhile isScoreChange else fromAddition x es ++ [e] := by
  rw [fromAddition, since_about hx hr, List.dropWhile_append]
  rfl

theorem beforeAddition_about : beforeAddition x (es ++ [e]) =
    if (fromAddition x es).isEmpty then beforeAddition x es ++ [e].takeWhile isScoreChange
    else beforeAddition x es := by
  have hparts : (beforeAddition x es) ++ fromAddition x es = since x es :=
    List.takeWhile_append_dropWhile
  have hlen : (beforeAddition x es).length = (since x es).length ↔
      (fromAddition x es).isEmpty := by
    rw [← hparts, List.length_append, List.isEmpty_iff_length_eq_zero]
    omega
  rw [beforeAddition, since_about hx hr, List.takeWhile_append]
  rw [beforeAddition] at hlen
  by_cases h : (fromAddition x es).isEmpty
  · have hS : since x es = beforeAddition x es := by
      rw [← hparts, List.isEmpty_iff.mp h, List.append_nil]
    rw [if_pos (hlen.mpr h), if_pos h, ← hS]
  · rw [if_neg (mt hlen.mp h), if_neg h]
    rfl

end Snoc

def additionScore (a : ChangeEvent) : Option Float64 :=
  if a.changeType = .added then some ((a.score.getD 0).orOne) else a.score

theorem additionScore_isSome {a : ChangeEvent} (h : a.score.isSome) : (additionScore a).isSome := by
  rw [additionScore]
  split
  · rfl
  · exact h

theorem held_eq (x : Int) (es : List ChangeEvent)
    (hs : ∀ e ∈ es, e.changeType = .removed ∨ e.score.isSome) :
    held x es = ⟨(fromAddition x es).getLast?.bind additionScore,
      (beforeAddition x es).getLast?.bind (fun e => e.score)⟩ := by
  induction es using List.reverseRecOn with
  | nil => rfl
  | append_singleton es e ih =>
    have ih := ih (fun a ha => hs a (by simp [ha]))
    rw [held_snoc, ih, Held.next]
    by_cases hx : e.entityId = x
    · rw [if_pos hx]
      cases ht : e.changeType with
      | removed =>
        have hnil : since x (es ++ [e]) = [] := by
          rw [since_snoc, if_pos hx, if_pos ht]
        simp [fromAddition, beforeAddition, hnil]
      | added =>
        have hr : e.changeType ≠ .removed := by simp [ht]
        rw [fromAddition_about hx hr, beforeAddition_about hx hr]
        by_cases hf : fromAddition x es = [] <;> simp [hf, isScoreChange, ht, additionScore]
      | scoreChanged =>
        have hr : e.changeType ≠ .removed := by simp [ht]
        have hscore : e.score.isSome := (hs e (by simp)).resolve_left hr
        rw [fromAddition_about hx hr, beforeAddition_about hx hr]
        by_cases hf : fromAddition x es = []
        · simp [hf, isScoreChange, ht]
        · -- the addition holds a score, since every event of the stretch carries one
          obtain ⟨a, ha⟩ := Option.ne_none_iff_exists'.mp (mt List.getLast?_eq_none_iff.mp hf)
          have hmem := of_mem_since (mem_fromAddition (List.mem_of_getLast? ha))
          have hsome := additionScore_isSome ((hs a (by simp [hmem.1])).resolve_left hmem.2)
          have hlast : additionScore e = e.score := by simp [additionScore, ht]
          simp [hf, ha, hsome, hlast]
    · have hsince : since x (es ++ [e]) = since x es := by
        rw [since_snoc, if_neg hx]
      simp [hx, fromAddition, beforeAddition, hsince]

theorem net_since (x : Int) (es : List ChangeEvent) :
    (∀ a, (since x es).getLast? = some a → net writesScore es x = some a.score) ∧
      (since x es = [] → (net writesScore es x).getD none = none) := by
  induction es using List.reverseRecOn with
  | nil => exact ⟨by simp [since], fun _ => rfl⟩
  | append_singleton es e ih =>
    have hnet : net writesScore (es ++ [e]) x = (writesScore e x).or (net writesScore es x) := by
      rw [net_append]
      simp [net]
    rw [since_snoc, hnet, writesScore]
    by_cases hx : e.entityId = x
    · cases e.changeType <;> simp [hx]
    · simpa [hx] using ih

theorem applyDelta_scores {f : FoldedChanges} (hf : Folds es f) (s : MembershipSnapshot)
    (watermark : String) (computedAt dataAsOf : Timestamp) (x : Int) :
    (s.applyDelta (deltaOf f watermark computedAt dataAsOf)).scores.lookup x =
      if x ∈ (s.applyDelta (deltaOf f watermark computedAt dataAsOf)).members then
        ((held x es).scoreChange.or (held x es).addition).or (s.scores.lookup x)
      else none := by
  rw [← hf.held, MembershipSnapshot.applyDelta, lookup_collect, deltaOf]
  simp only [mem_sorted, lookup_union]

theorem held_isSome (hs : ∀ e ∈ es, e.changeType = .removed ∨ e.score.isSome)
    (h : since x es ≠ []) : ((held x es).scoreChange.or (held x es).addition).isSome := by
  have hparts : beforeAddition x es ++ fromAddition x es = since x es :=
    List.takeWhile_append_dropWhile
  have hscore : ∀ e ∈ since x es, e.score.isSome := by
    intro e he
    obtain ⟨hmem, hr⟩ := of_mem_since he
    exact (hs e hmem).resolve_left hr
  rw [held_eq x es hs, Option.isSome_or]
  cases hb : (beforeAddition x es).getLast? with
  | some e => simp [hscore e (mem_beforeAddition (List.mem_of_getLast? hb))]
  | none =>
    rw [← hparts, List.getLast?_eq_none_iff.mp hb, List.nil_append] at h
    obtain ⟨a, ha⟩ := Option.ne_none_iff_exists'.mp (mt List.getLast?_eq_none_iff.mp h)
    simp [ha, additionScore_isSome (hscore a (mem_fromAddition (List.mem_of_getLast? ha)))]

/-- A fold gives an entity that the stretch leaves a member its last score exactly
when the stretch is faithful to it. -/
theorem held_score_iff (hs : ∀ e ∈ es, e.changeType = .removed ∨ e.score.isSome) {a : ChangeEvent}
    (ha : (since x es).getLast? = some a) :
    (held x es).scoreChange.or (held x es).addition = a.score ↔ Faithful x es := by
  have hparts : beforeAddition x es ++ fromAddition x es = since x es :=
    List.takeWhile_append_dropWhile
  rw [← hparts, List.getLast?_append] at ha
  rw [held_eq x es hs]
  cases hb : (beforeAddition x es).getLast? with
  | none =>
    have hnil : beforeAddition x es = [] := List.getLast?_eq_none_iff.mp hb
    rw [hb, Option.or_none] at ha
    have hsome : a.score.isSome := by
      have hmem := of_mem_since (mem_fromAddition (List.mem_of_getLast? ha))
      exact (hs a hmem.1).resolve_left hmem.2
    obtain ⟨score, hscore⟩ := Option.isSome_iff_exists.mp hsome
    have hiff : additionScore a = a.score ↔ (a.changeType = .added → a.score ≠ some 0) := by
      rw [additionScore, hscore]
      split
      · simp_all [Float64.orOne_eq_self_iff]
      · simp_all
    constructor
    · intro h
      refine ⟨by simp [hb], fun _ b hb' => ?_⟩
      obtain rfl := Option.some.inj (ha.symm.trans hb')
      exact hiff.mp (by simpa [ha] using h)
    · intro h
      simpa [ha] using hiff.mpr (h.nonzero hnil a ha)
  | some e =>
    have hne : beforeAddition x es ≠ [] := by
      intro hnil
      rw [hnil] at hb
      cases hb
    have hsome : e.score.isSome := by
      have hmem := of_mem_since (mem_beforeAddition (List.mem_of_getLast? hb))
      exact (hs e hmem.1).resolve_left hmem.2
    obtain ⟨score, hscore⟩ := Option.isSome_iff_exists.mp hsome
    cases hfa : (fromAddition x es).getLast? with
    | none =>
      rw [hb, hfa] at ha
      obtain rfl := Option.some.inj ha
      refine ⟨fun _ => ⟨by simp [hfa], fun h => absurd h hne⟩, fun _ => ?_⟩
      simp [hscore]
    | some b =>
      rw [hfa] at ha
      obtain rfl := Option.some.inj ha
      constructor
      · intro h
        refine ⟨fun e' he' b' hb' => ?_, fun h => absurd h hne⟩
        obtain rfl := Option.some.inj (hb.symm.trans he')
        obtain rfl := Option.some.inj (hfa.symm.trans hb')
        simpa [hscore] using h.symm
      · intro h
        simpa [hscore] using (h.unchanged e hb b hfa).symm

theorem Faithful.of_untouched (h : since x es = []) : Faithful x es := by
  constructor <;> simp [beforeAddition, fromAddition, h]

theorem scores_iff_faithful (hs : ∀ e ∈ es, e.changeType = .removed ∨ e.score.isSome)
    {f : FoldedChanges} (hf : Folds es f) (s : MembershipSnapshot) (watermark : String)
    (computedAt dataAsOf : Timestamp)
    (hmem : x ∈ (s.applyDelta (deltaOf f watermark computedAt dataAsOf)).members ↔
      (replay writesScore s.scores.lookup es x).isSome) :
    (s.applyDelta (deltaOf f watermark computedAt dataAsOf)).scores.lookup x =
      replay writesScore s.scores.lookup es x ↔ Faithful x es := by
  have hnet := net_since x es
  rw [applyDelta_scores hf]
  rw [replay_apply] at hmem ⊢
  cases hlast : (since x es).getLast? with
  | none =>
    have hnil : since x es = [] := List.getLast?_eq_none_iff.mp hlast
    refine ⟨fun _ => .of_untouched hnil, fun _ => ?_⟩
    have hheld : held x es = ⟨none, none⟩ := by
      rw [held_eq x es hs]
      simp [fromAddition, beforeAddition, hnil]
    have hnone := hnet.2 hnil
    rw [hheld]
    cases hn : net writesScore es x with
    | none =>
      rw [hn] at hmem
      by_cases hx : x ∈ (s.applyDelta (deltaOf f watermark computedAt dataAsOf)).members
      · simp [hx]
      · have hold : s.scores.lookup x = none := by simpa using mt hmem.mpr hx
        rw [if_neg hx]
        exact hold.symm
    | some score =>
      rw [hn] at hnone hmem
      obtain rfl : score = none := hnone
      rw [if_neg (mt hmem.mp (by simp))]
      rfl
  | some a =>
    have hmem' := of_mem_since (List.mem_of_getLast? hlast)
    have hsome := (hs a hmem'.1).resolve_left hmem'.2
    rw [hnet.1 a hlast] at hmem ⊢
    obtain ⟨score, hscore⟩ := Option.isSome_iff_exists.mp
      (held_isSome hs (fun hnil => by rw [hnil] at hlast; cases hlast))
    rw [if_pos (hmem.mpr hsome), ← held_score_iff hs hlast, Option.getD_some, hscore,
      Option.some_or]

end ContextqlServer.Deepsee.Scores
