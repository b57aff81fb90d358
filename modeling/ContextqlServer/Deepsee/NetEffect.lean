import ContextqlServer.Deepsee.Fold

namespace ContextqlServer.Deepsee.Fold

open ContextqlServer.Lib.Log ContextqlServer.Lib.Mapping ContextqlServer.Lib.Python
open ContextqlServer.Deepsee.Models ContextqlServer.Deepsee.MockService
open ContextqlServer.Deepsee.Synchronizer
open ContextqlServer.Deepsee.History

/-- The last event of `x` whose type is one of `kinds`. -/
def lastOf (kinds : List ChangeType) (x : Int) (es : List ChangeEvent) : Option ChangeEvent :=
  (es.filter (fun e => e.entityId = x ∧ e.changeType ∈ kinds)).getLast?

def membership : List ChangeType := [.added, .removed]

def scored : List ChangeType := [.added, .scoreChanged]

theorem lastOf_snoc (kinds : List ChangeType) (x : Int) (es : List ChangeEvent) (e : ChangeEvent) :
    lastOf kinds x (es ++ [e]) =
      if e.entityId = x ∧ e.changeType ∈ kinds then some e else lastOf kinds x es := by
  rw [lastOf, List.filter_append]
  by_cases h : e.entityId = x ∧ e.changeType ∈ kinds
  · rw [if_pos h]
    simp [h]
  · rw [if_neg h, List.filter_singleton, decide_eq_false h, cond_false, List.append_nil, lastOf]

theorem net_eq_lastOf (es : List ChangeEvent) (x : Int) :
    net writesMember es x = (lastOf membership x es).map (fun e => decide (e.changeType = .added)) := by
  induction es using List.reverseRecOn with
  | nil => simp [net, lastOf]
  | append_singleton es e ih =>
    rw [net_snoc, lastOf_snoc, ih, writesMember]
    by_cases hx : e.entityId = x
    · cases ht : e.changeType <;> simp [hx, ht, membership]
    · simp [hx]

theorem held_addition {x : Int} {e : ChangeEvent} {s : Float64} (front back : List ChangeEvent)
    (hx : e.entityId = x) (ht : e.changeType = .added) (hs : e.score = some s) (h0 : s ≠ 0)
    (hback : ∀ b ∈ back, b.entityId = x → b.changeType ∉ membership)
    (hscored : ∀ b ∈ back, b.changeType = .scoreChanged → b.score ≠ none) :
    (held x (front ++ e :: back)).addition = (lastOf scored x (e :: back)).bind (·.score) ∧
      (held x (front ++ e :: back)).addition.isSome := by
  induction back using List.reverseRecOn with
  | nil =>
    rw [held_snoc, Held.next, if_pos hx, ht, hs, lastOf]
    simp [scored, hx, ht, hs, Float64.orOne_of_ne_zero h0]
  | append_singleton back b ih =>
    obtain ⟨heq, hsome⟩ := ih (fun c hc => hback c (List.mem_append_left _ hc))
      (fun c hc => hscored c (List.mem_append_left _ hc))
    have hb : b ∈ back ++ [b] := List.mem_append_right _ (List.mem_singleton_self b)
    rw [← List.cons_append, ← List.append_assoc, held_snoc, lastOf_snoc, Held.next]
    by_cases hbx : b.entityId = x
    · -- only a score change of `x` is left
      have htb : b.changeType = .scoreChanged := by
        have h := hback b hb hbx
        cases hc : b.changeType <;> simp_all [membership]
      have hscore := hscored b hb htb
      have hk : b.entityId = x ∧ b.changeType ∈ scored := ⟨hbx, by simp [htb, scored]⟩
      rw [if_pos hbx, if_pos hk, htb]
      simp only [hsome, if_true]
      exact ⟨rfl, Option.isSome_iff_ne_none.mpr hscore⟩
    · rw [if_neg hbx, if_neg (fun h => hbx h.1)]
      exact ⟨heq, hsome⟩

/-- A score change kept for `x` came from an event of `x` that no removal follows. -/
theorem held_scoreChange {x : Int} {es : List ChangeEvent}
    (h : (held x es).scoreChange.isSome) :
    ∃ front e back, es = front ++ e :: back ∧ e.entityId = x ∧ e.changeType = .scoreChanged ∧
      ∀ b ∈ back, b.entityId = x → b.changeType ≠ .removed := by
  induction es using List.reverseRecOn with
  | nil => simp [held] at h
  | append_singleton es e ih =>
    -- an event that leaves the score change is no removal of `x`
    have hkeep (hold : (held x es).scoreChange.isSome)
        (he : e.entityId = x → e.changeType ≠ .removed) :
        ∃ front e' back, es ++ [e] = front ++ e' :: back ∧ e'.entityId = x ∧
          e'.changeType = .scoreChanged ∧ ∀ b ∈ back, b.entityId = x → b.changeType ≠ .removed := by
      obtain ⟨front, e', back, rfl, hx, ht, hback⟩ := ih hold
      refine ⟨front, e', back ++ [e], by simp, hx, ht, fun b hb => ?_⟩
      rcases List.mem_append.mp hb with hb | hb
      · exact hback b hb
      · rwa [List.mem_singleton.mp hb]
    rw [held_snoc, Held.next] at h
    by_cases hx : e.entityId = x
    · cases ht : e.changeType with
      | added => exact hkeep (by simpa [hx, ht] using h) (by simp [ht])
      | removed => simp [hx, ht] at h
      | scoreChanged => exact ⟨es, e, [], rfl, hx, ht, by simp⟩
    · exact hkeep (by simpa [hx] using h) (fun h => absurd h hx)

theorem foldEvent_error {f : FoldedChanges} {e : ChangeEvent} {ex : Exn}
    (h : foldEvent f e = .error ex) : ∃ message, ex = contractError message := by
  unfold foldEvent at h
  cases ht : e.changeType with
  | added | removed => simp [ht] at h
  | scoreChanged =>
    cases hs : e.score with
    | none =>
      simp only [ht, hs, Except.error.injEq] at h
      exact ⟨_, h.symm⟩
    | some s =>
      simp only [ht, hs] at h
      split at h <;> cases h

theorem foldEvents_error {es : List ChangeEvent}
    (h : ∃ e ∈ es, e.changeType = .scoreChanged ∧ e.score = none) (f : FoldedChanges) :
    ∃ message, es.foldlM foldEvent f = .error (contractError message) := by
  induction es generalizing f with
  | nil => simp at h
  | cons e es ih =>
    rw [List.foldlM_cons]
    cases hf : foldEvent f e with
    | error ex =>
      obtain ⟨message, rfl⟩ := foldEvent_error hf
      exact ⟨message, rfl⟩
    | ok f' =>
      apply ih _ f'
      obtain ⟨e', he', ht, hs⟩ := h
      rcases List.mem_cons.mp he' with rfl | he'
      · simp [foldEvent, ht, hs] at hf
      · exact ⟨e', he', ht, hs⟩

structure NetEffect (ordered : List ChangeEvent) (f : FoldedChanges) : Prop where
  additions : ∀ x, x ∈ f.additions ↔
    ∃ e, lastOf membership x ordered = some e ∧ e.changeType = .added
  /-- The score of an addition is that of the last event since that carries one. -/
  score : ∀ x front e back, ordered = front ++ e :: back → e.entityId = x →
    e.changeType = .added → lastOf membership x back = none →
    f.additions.lookup x = (lastOf scored x (e :: back)).bind (·.score)
  removals : ∀ x, x ∈ f.removals ↔
    ∃ e, lastOf membership x ordered = some e ∧ e.changeType = .removed
  disjoint : Disjoint f.additions.keys f.removals
  /-- A store may add first or remove first. -/
  either_order : ∀ members : Finset Int,
    (members \ f.removals) ∪ f.additions.keys = (members ∪ f.additions.keys) \ f.removals
  scoreChanges : ∀ x, x ∈ f.scoreChanges → ∃ front e back, ordered = front ++ e :: back ∧
    e.entityId = x ∧ e.changeType = .scoreChanged ∧
    ∀ b ∈ back, b.entityId = x → b.changeType ≠ .removed

theorem lastOf_eq_none {kinds : List ChangeType} {x : Int} {es : List ChangeEvent} :
    lastOf kinds x es = none ↔ ∀ e ∈ es, e.entityId = x → e.changeType ∉ kinds := by
  simp [lastOf]

theorem lastOf_kind {kinds : List ChangeType} {x : Int} {es : List ChangeEvent} {e : ChangeEvent}
    (h : lastOf kinds x es = some e) : e.changeType ∈ kinds := by
  have hmem := List.mem_of_getLast? h
  simp at hmem
  exact hmem.2.2

theorem netEffect_of_folds {ordered : List ChangeEvent} {f : FoldedChanges}
    (hadded : ∀ e ∈ ordered, e.changeType = .added → ∃ s, e.score = some s ∧ s ≠ 0)
    (hscored : ∀ e ∈ ordered, e.changeType = .scoreChanged → e.score ≠ none)
    (hf : Folds ordered f) : NetEffect ordered f := by
  have hadd (x : Int) : x ∈ f.additions ↔
      ∃ e, lastOf membership x ordered = some e ∧ e.changeType = .added := by
    rw [mem_iff_lookup, hf.additions, net_eq_lastOf]
    simp
  have hrem (x : Int) : x ∈ f.removals ↔
      ∃ e, lastOf membership x ordered = some e ∧ e.changeType = .removed := by
    rw [hf.removals, net_eq_lastOf]
    cases h : lastOf membership x ordered with
    | none => simp
    | some e =>
      have hk := lastOf_kind h
      cases ht : e.changeType <;> simp_all [membership]
  have hdisj : Disjoint f.additions.keys f.removals := by
    rw [Finset.disjoint_left]
    intro x ha hr
    obtain ⟨e, he, hta⟩ := (hadd x).mp (Finmap.mem_keys.mp ha)
    obtain ⟨e', he', htr⟩ := (hrem x).mp hr
    cases he.symm.trans he'
    cases hta.symm.trans htr
  refine ⟨hadd, ?_, hrem, hdisj, fun members => ?_, fun x hx => ?_⟩
  · rintro x front e back rfl hx ht hback
    obtain ⟨s, hs, h0⟩ := hadded e (by simp) ht
    have h := (held_addition front back hx ht hs h0 (lastOf_eq_none.mp hback)
      (fun b hb => hscored b (by simp [hb]))).1
    rwa [← hf.held] at h
  · rw [Finset.union_sdiff_distrib, Finset.sdiff_eq_self_of_disjoint hdisj]
  · apply held_scoreChange
    rw [← hf.held]
    exact mem_iff_lookup.mp hx

/-- A fold either refuses a score change without a score, or keeps for every
entity what the last of its events say. -/
theorem fold_net (ordered : List ChangeEvent)
    (hadded : ∀ e ∈ ordered, e.changeType = .added → ∃ s, e.score = some s ∧ s ≠ 0) :
    ((∃ e ∈ ordered, e.changeType = .scoreChanged ∧ e.score = none) →
      ∃ message, foldEvents ordered = .error (contractError message)) ∧
    ((∀ e ∈ ordered, e.changeType = .scoreChanged → e.score ≠ none) →
      ∃ f, foldEvents ordered = .ok f ∧ NetEffect ordered f) := by
  refine ⟨fun h => foldEvents_error h _, fun hscored => ?_⟩
  have hs : ∀ e ∈ ordered, e.changeType = .removed ∨ e.score.isSome := by
    intro e he
    cases ht : e.changeType with
    | added =>
      obtain ⟨s, hs, -⟩ := hadded e he ht
      simp [hs]
    | removed => exact .inl rfl
    | scoreChanged => exact .inr (Option.isSome_iff_ne_none.mpr (hscored e he ht))
  obtain ⟨f, hok, hf⟩ := foldEvents_ok hs
  exact ⟨f, hok, netEffect_of_folds hadded hscored hf⟩

/-- Entity 7 joins, is scored anew and leaves; entity 8 joins after it. -/
def feed : List ChangeEvent := [
  ⟨"e1", 7, .added, some (.finite 1), .iso 0, "1"⟩,
  ⟨"e2", 7, .scoreChanged, some (.finite 2), .iso 0, "2"⟩,
  ⟨"e3", 7, .removed, none, .iso 0, "3"⟩,
  ⟨"e4", 8, .added, some (.finite 3), .iso 0, "4"⟩]

theorem fold_net_feed : ∃ f, foldEvents feed = .ok f ∧ NetEffect feed f := by
  have hadded : ∀ e ∈ feed, e.changeType = .added → ∃ s, e.score = some s ∧ s ≠ 0 := by
    simp only [feed, List.forall_mem_cons]
    refine ⟨fun _ => ⟨.finite 1, rfl, by decide⟩, by decide, by decide,
      fun _ => ⟨.finite 3, rfl, by decide⟩, by simp⟩
  exact (fold_net feed hadded).2 (by decide)

end ContextqlServer.Deepsee.Fold
