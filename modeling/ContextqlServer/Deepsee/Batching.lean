import ContextqlServer.Deepsee.Machine
import ContextqlServer.Deepsee.Scores

namespace ContextqlServer.Deepsee.Batching

open ContextqlServer.Lib.Effect ContextqlServer.Lib.Log ContextqlServer.Lib.Mapping ContextqlServer.Lib.Python
open ContextqlServer.Deepsee.Models ContextqlServer.Deepsee.MockService ContextqlServer.Deepsee.Client
open ContextqlServer.Deepsee.Store ContextqlServer.Deepsee.Synchronizer
open ContextqlServer.Deepsee.History ContextqlServer.Deepsee.Fold ContextqlServer.Deepsee.Scores
open ContextqlServer.Deepsee.Machine

/-- What a delta carries besides its changes. -/
structure Stamp where
  watermark : String
  computedAt : Timestamp
  dataAsOf : Timestamp

def merge (s : MembershipSnapshot) (f : FoldedChanges) (t : Stamp) : MembershipSnapshot :=
  s.applyDelta (deltaOf f t.watermark t.computedAt t.dataAsOf)

def applyBatch (s : MembershipSnapshot) (ordered : List ChangeEvent) (t : Stamp) : Except Exn MembershipSnapshot :=
  (foldEvents ordered).map (fun f => merge s f t)

/-- `sync_once` leaves the batch in the store, whatever store it works with. -/
theorem exec_applyOrdered (self : DeepSeeSynchronizer) {ordered : List ChangeEvent} {last : ChangeEvent}
    (hlast : ordered.getLast? = some last) {w : World} {s s' : MembershipSnapshot} (hs : w.store = some s)
    {dataAsOf : WireTime} {now asOf : Timestamp} (hasOf : parseIso dataAsOf = .ok asOf)
    (h : applyBatch s ordered ⟨last.watermark, now, asOf⟩ = .ok s') (duplicates outOfOrder : Nat) :
    (World.handler.exec (self.applyOrdered ordered dataAsOf duplicates outOfOrder now) w).2.store = some s' := by
  rw [applyBatch] at h
  cases hf : foldEvents ordered with
  | error e =>
    rw [hf] at h
    cases h
  | ok f =>
    rw [hf] at h
    obtain rfl := Except.ok.inj h
    simp only [DeepSeeSynchronizer.applyOrdered, hf, hlast, hasOf, Prog.ofExcept, Prog.bind_pure]
    obtain ⟨client, contextId, stagesSnapshots, stagesDeltas, stateRepository, committedWatermark, seenEventIds⟩ := self
    obtain ⟨service, store, durable, clock⟩ := w
    subst hs
    cases stagesDeltas <;> cases stateRepository <;> rfl

/-- The event whose score a batch leaves to an entity: the last score change before the first
addition, and else the last event. -/
def kept (x : Int) (es : List ChangeEvent) : Option ChangeEvent :=
  (beforeAddition x es).getLast?.or (fromAddition x es).getLast?

/-- What adds or changes carries a score that is not zero. -/
def Scored (es : List ChangeEvent) : Prop :=
  ∀ e ∈ es, e.changeType = .removed ∨ ∃ score, e.score = some score ∧ score ≠ 0

variable {x : Int} {es fs : List ChangeEvent} {e : ChangeEvent}

theorem Scored.isSome (h : Scored es) : ∀ e ∈ es, e.changeType = .removed ∨ e.score.isSome :=
  fun e he => (h e he).imp id (fun ⟨_, hscore, _⟩ => hscore ▸ rfl)

theorem since_parts (x : Int) (es : List ChangeEvent) : beforeAddition x es ++ fromAddition x es = since x es :=
  List.takeWhile_append_dropWhile

theorem kept_isSome (h : since x es ≠ []) : (kept x es).isSome := by
  rw [kept, Option.isSome_or, Bool.or_eq_true, List.getLast?_isSome, List.getLast?_isSome]
  by_contra hnone
  obtain ⟨hbefore, hfrom⟩ := not_or.mp hnone
  rw [← since_parts, not_not.mp hbefore, not_not.mp hfrom] at h
  exact h rfl

theorem kept_eq_none (h : since x es = []) : kept x es = none := by
  simp [kept, beforeAddition, fromAddition, h]

theorem mem_of_kept (h : kept x es = some e) : e ∈ since x es := by
  rw [kept, Option.or_eq_some_iff] at h
  rcases h with h | ⟨-, h⟩
  · exact mem_beforeAddition (List.mem_of_getLast? h)
  · exact mem_fromAddition (List.mem_of_getLast? h)

theorem held_kept (hs : Scored es) :
    (held x es).scoreChange.or (held x es).addition = (kept x es).bind (fun e => e.score) := by
  have hsome : ∀ e ∈ since x es, ∃ score, e.score = some score ∧ score ≠ 0 := by
    intro e he
    obtain ⟨hmem, hr⟩ := of_mem_since he
    exact (hs e hmem).resolve_left hr
  rw [held_eq x es hs.isSome, kept]
  cases hbefore : (beforeAddition x es).getLast? with
  | some e =>
    obtain ⟨score, hscore, -⟩ := hsome e (mem_beforeAddition (List.mem_of_getLast? hbefore))
    simp [hscore]
  | none =>
    cases hfrom : (fromAddition x es).getLast? with
    | none => rfl
    | some a =>
      obtain ⟨score, hscore, hzero⟩ := hsome a (mem_fromAddition (List.mem_of_getLast? hfrom))
      have hadd : additionScore a = a.score := by
        rw [additionScore, hscore]
        split
        · exact congrArg some (Float64.orOne_eq_self_iff.mpr hzero)
        · rfl
      simpa using hadd

/-- What comes after a last removal in the second part comes after it in the whole. -/
theorem since_suffix (x : Int) (es fs : List ChangeEvent) : since x fs <:+ since x (es ++ fs) := by
  induction fs using List.reverseRecOn with
  | nil => exact List.nil_suffix
  | append_singleton fs f ih =>
    rw [← List.append_assoc, since_snoc, since_snoc]
    split
    · split
      · exact List.suffix_rfl
      · obtain ⟨front, hfront⟩ := ih
        exact ⟨front, by rw [← hfront, List.append_assoc]⟩
    · exact ih

theorem net_of_fromAddition (h : fromAddition x es ≠ []) : net writesMember es x = some true := by
  induction es using List.reverseRecOn with
  | nil => exact absurd rfl h
  | append_singleton es e ih =>
    rw [net_snoc, writesMember]
    by_cases hx : e.entityId = x
    · rw [if_pos hx]
      cases ht : e.changeType with
      | added => rfl
      | removed =>
        rw [fromAddition, since_snoc, if_pos hx, if_pos ht] at h
        exact absurd rfl h
      | scoreChanged =>
        have hr : e.changeType ≠ .removed := by simp [ht]
        rw [fromAddition_about hx hr] at h
        apply ih
        intro hnil
        rw [hnil] at h
        simp [isScoreChange, ht] at h
    · rw [fromAddition, since_snoc, if_neg hx] at h
      rw [if_neg hx]
      exact ih h

/-- An entity of which a batch says nothing, or that is gone with it. -/
theorem untouched (h : since x fs = []) (hgone : net writesMember fs x ≠ some false) :
    since x (es ++ fs) = since x es ∧ net writesMember fs x = none := by
  induction fs using List.reverseRecOn with
  | nil => exact ⟨congrArg (since x) (List.append_nil es), rfl⟩
  | append_singleton fs f ih =>
    rw [since_snoc] at h
    rw [net_snoc, writesMember] at hgone ⊢
    rw [← List.append_assoc, since_snoc]
    by_cases hx : f.entityId = x
    · rw [if_pos hx] at h hgone
      by_cases hr : f.changeType = .removed
      · rw [hr] at hgone
        exact absurd rfl hgone
      · rw [if_neg hr] at h
        exact absurd h (List.append_ne_nil_of_right_ne_nil _ (List.cons_ne_nil f []))
    · rw [if_neg hx] at h hgone ⊢
      rw [if_neg hx]
      exact ih h hgone

theorem kept_eq_last (h : fromAddition x es = []) : kept x es = (since x es).getLast? := by
  have hparts := since_parts x es
  rw [h, List.append_nil] at hparts
  rw [kept, h, hparts]
  exact Option.or_none

theorem kept_whole (h : fromAddition x (es ++ fs) = []) (hfs : since x fs ≠ []) : kept x (es ++ fs) = kept x fs := by
  obtain ⟨front, hfront⟩ := since_suffix x es fs
  have hall : ∀ e ∈ since x (es ++ fs), isScoreChange e = true := List.dropWhile_eq_nil_iff.mp h
  have hnone : fromAddition x fs = [] :=
    List.dropWhile_eq_nil_iff.mpr (fun e he => hall e (hfront ▸ List.mem_append_right front he))
  rw [kept_eq_last h, kept_eq_last hnone, ← hfront, List.getLast?_append_of_ne_nil _ hfs]

section Cut

variable {s : MembershipSnapshot} {f₀ f₁ f₂ : FoldedChanges} {t₀ t₁ t₂ : Stamp}

theorem merge_members (h₁ : Folds es f₁) (x : Int) :
    decide (x ∈ (merge s f₁ t₁).members) = replay writesMember (fun y => decide (y ∈ s.members)) es x :=
  applyDelta_members h₁ s _ _ _ x

theorem members_cut (h₀ : Folds (es ++ fs) f₀) (h₁ : Folds es f₁) (h₂ : Folds fs f₂) :
    (merge s f₀ t₀).members = (merge (merge s f₁ t₁) f₂ t₂).members := by
  apply Finset.ext
  intro x
  rw [← decide_eq_decide, merge_members h₀, merge_members h₂, replay_append]
  congr 1
  funext y
  exact (merge_members h₁ y).symm

theorem merge_scores (hes : Scored es) (h₁ : Folds es f₁) (x : Int) :
    (merge s f₁ t₁).scores.lookup x =
      if x ∈ (merge s f₁ t₁).members then ((kept x es).bind (fun e => e.score)).or (s.scores.lookup x) else none := by
  rw [merge, applyDelta_scores h₁, held_kept hes]

theorem kept_scored (hes : Scored es) (h : since x es ≠ []) :
    ∃ score, (kept x es).bind (fun e => e.score) = some score := by
  obtain ⟨e, he⟩ := Option.isSome_iff_exists.mp (kept_isSome h)
  obtain ⟨hmem, hr⟩ := of_mem_since (mem_of_kept he)
  obtain ⟨score, hscore, -⟩ := (hes e hmem).resolve_left hr
  exact ⟨score, by rw [he, Option.bind_some, hscore]⟩

/-- Cutting a batch leaves an entity its score exactly when what is kept of the second part has the
score of what is kept of the whole. -/
theorem scores_cut_at (hes : Scored es) (hfs : Scored fs) (h₀ : Folds (es ++ fs) f₀) (h₁ : Folds es f₁)
    (h₂ : Folds fs f₂) (x : Int) :
    (merge s f₀ t₀).scores.lookup x = (merge (merge s f₁ t₁) f₂ t₂).scores.lookup x ↔
      (since x fs ≠ [] →
        (kept x (es ++ fs)).bind (fun e => e.score) = (kept x fs).bind (fun e => e.score)) := by
  have hall : Scored (es ++ fs) := List.forall_mem_append.mpr ⟨hes, hfs⟩
  have hmembers : (merge s f₀ t₀).members = (merge (merge s f₁ t₁) f₂ t₂).members := members_cut h₀ h₁ h₂
  rw [merge_scores hall h₀, merge_scores hfs h₂, hmembers]
  by_cases hx : x ∈ (merge (merge s f₁ t₁) f₂ t₂).members
  · rw [if_pos hx, if_pos hx]
    by_cases hsince : since x fs = []
    · -- the first part alone is about the entity, which is a member after it
      have hreplay := decide_eq_true hx
      rw [merge_members h₂, replay_apply] at hreplay
      have hgone : net writesMember fs x ≠ some false := by
        intro hnet
        rw [hnet] at hreplay
        cases hreplay
      obtain ⟨hwhole, hnet⟩ : since x (es ++ fs) = since x es ∧ net writesMember fs x = none := untouched hsince hgone
      rw [hnet] at hreplay
      have hfirst : x ∈ (merge s f₁ t₁).members := of_decide_eq_true hreplay
      have hkept : kept x (es ++ fs) = kept x es := by
        rw [kept, kept, beforeAddition, beforeAddition, fromAddition, fromAddition, hwhole]
      rw [hkept, kept_eq_none hsince, merge_scores hes h₁, if_pos hfirst]
      exact iff_of_true rfl (fun hne => absurd hsince hne)
    · obtain ⟨score, hscore⟩ := kept_scored hfs hsince
      have hne : since x (es ++ fs) ≠ [] := by
        intro hnil
        have hsuffix := since_suffix x es fs
        rw [hnil, List.suffix_nil] at hsuffix
        exact hsince hsuffix
      obtain ⟨score', hscore'⟩ := kept_scored hall hne
      rw [hscore, hscore', Option.some_or, Option.some_or]
      exact ⟨fun h _ => h, fun h => h hsince⟩
  · rw [if_neg hx, if_neg hx]
    refine iff_of_true rfl fun hsince => ?_
    have hnone : fromAddition x (es ++ fs) = [] := by
      by_contra hadded
      apply hx
      rw [← hmembers]
      apply of_decide_eq_true
      rw [merge_members h₀, replay_apply, net_of_fromAddition hadded]
      rfl
    rw [kept_whole hnone hsince]

end Cut

/-- A batch has the same effect in one go as cut in two: always on the members, and on the scores
exactly when for each entity what is kept of the second part has the score of what is kept of
the whole. -/
theorem batch_cut_iff (s : MembershipSnapshot) (es fs : List ChangeEvent) (hes : Scored es) (hfs : Scored fs)
    (t₀ t₁ t₂ : Stamp) :
    ∃ whole first second, applyBatch s (es ++ fs) t₀ = .ok whole ∧ applyBatch s es t₁ = .ok first ∧
      applyBatch first fs t₂ = .ok second ∧ whole.members = second.members ∧
      (whole.scores = second.scores ↔
        ∀ x, since x fs ≠ [] →
          (kept x (es ++ fs)).bind (fun e => e.score) = (kept x fs).bind (fun e => e.score)) := by
  have hall : Scored (es ++ fs) := List.forall_mem_append.mpr ⟨hes, hfs⟩
  obtain ⟨f₀, hf₀, h₀⟩ := foldEvents_ok hall.isSome
  obtain ⟨f₁, hf₁, h₁⟩ := foldEvents_ok hes.isSome
  obtain ⟨f₂, hf₂, h₂⟩ := foldEvents_ok hfs.isSome
  refine ⟨merge s f₀ t₀, merge s f₁ t₁, merge (merge s f₁ t₁) f₂ t₂, ?_, ?_, ?_, members_cut h₀ h₁ h₂, ?_⟩
  · rw [applyBatch, hf₀]
    rfl
  · rw [applyBatch, hf₁]
    rfl
  · rw [applyBatch, hf₂]
    rfl
  · constructor
    · intro h x
      exact (scores_cut_at hes hfs h₀ h₁ h₂ x).mp (congrArg (Finmap.lookup x) h)
    · intro h
      apply Finmap.ext_lookup
      exact fun x => (scores_cut_at hes hfs h₀ h₁ h₂ x).mpr (h x)

section Sample

def sampleStored : MembershipSnapshot where
  members := {7}
  scores := Finmap.singleton 7 1
  computedAt := 0
  dataAsOf := 0
  sourceWatermark := watermarkOf 0

def sampleStamp : Stamp := ⟨watermarkOf 2, 0, 0⟩

/-- A new score for a member, and then its addition with another one. -/
def rescored : ChangeEvent :=
  ⟨eventIdOf 1, 7, .scoreChanged, some (.finite 2), .iso (baseTime + 1 * second), watermarkOf 1⟩

def readded : ChangeEvent := ⟨eventIdOf 2, 7, .added, some (.finite 3), .iso (baseTime + 2 * second), watermarkOf 2⟩

theorem rescored_scored : Scored [rescored] := by
  intro e he
  obtain rfl := List.mem_singleton.mp he
  exact .inr ⟨.finite 2, rfl, by decide⟩

theorem readded_scored : Scored [readded] := by
  intro e he
  obtain rfl := List.mem_singleton.mp he
  exact .inr ⟨.finite 3, rfl, by decide⟩

theorem batch_cut_iff_sample :
    ∃ whole first second, applyBatch sampleStored ([rescored] ++ [readded]) sampleStamp = .ok whole ∧
      applyBatch sampleStored [rescored] sampleStamp = .ok first ∧
      applyBatch first [readded] sampleStamp = .ok second ∧ whole.members = second.members ∧
      (whole.scores = second.scores ↔
        ∀ x, since x [readded] ≠ [] →
          (kept x ([rescored] ++ [readded])).bind (fun e => e.score) =
            (kept x [readded]).bind (fun e => e.score)) :=
  batch_cut_iff sampleStored [rescored] [readded] rescored_scored readded_scored sampleStamp sampleStamp sampleStamp

theorem batch_differs_from_parts :
    (applyBatch sampleStored ([rescored] ++ [readded]) sampleStamp).map (fun s => s.scores.lookup 7) =
        .ok (some (.finite 2)) ∧
      ((applyBatch sampleStored [rescored] sampleStamp).bind (fun first => applyBatch first [readded] sampleStamp)).map
          (fun s => s.scores.lookup 7) =
        .ok (some (.finite 3)) := ⟨rfl, rfl⟩

end Sample

end ContextqlServer.Deepsee.Batching
