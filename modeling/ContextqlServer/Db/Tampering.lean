import ContextqlServer.Db.Restart

namespace ContextqlServer.Db.Tampering

open ContextqlServer.Lib.Effect ContextqlServer.Lib.Isoformat ContextqlServer.Lib.Numbering
open ContextqlServer.Lib.Mapping ContextqlServer.Lib.Python ContextqlServer.Lib.Sql
open ContextqlServer.Db.Schema ContextqlServer.Db.Statements ContextqlServer.Db.ContextCatalog
open ContextqlServer.Db.ContextCatalog.SQLiteContextRuntimeRepository
open ContextqlServer.Db.Calls ContextqlServer.Db.Codec ContextqlServer.Db.Shelf
open ContextqlServer.Db.Snapshots ContextqlServer.Db.Runs ContextqlServer.Db.Promotions
open ContextqlServer.Db.Hydration ContextqlServer.Db.Restart

variable {P : Packages} {t : Tables} {calls : List (Call P)} {p : Promotion P}

/-- A change of the stored payloads: each is deleted, or has its blobs replaced. -/
structure PayloadChange where
  payload : PayloadRow → Option PayloadRow
  key : ∀ q q', payload q = some q' → q'.contextId = q.contextId ∧ q'.version = q.version

def PayloadChange.apply (f : PayloadChange) (t : Tables) : Tables :=
  { t with contextSnapshotPayloads := t.contextSnapshotPayloads.filterMap f.payload }

section Conditions

variable (P) (t) (x : SnapshotRow × PayloadRow)

def Readable : Prop :=
  (∃ b, bytesOf x.2.membershipBlob = .ok b) ∧ ∀ cell ∈ x.2.scoreBlob, ∃ b, bytesOf cell = .ok b

/-- Both blobs are those of the hashes of the row, or its scores are NULL. -/
structure Intact : Prop where
  membership : ∃ b, bytesOf x.2.membershipBlob = .ok b ∧ some (P.sha256 b) = x.1.membershipSha256
  scores : ∀ cell ∈ x.2.scoreBlob, ∃ b, bytesOf cell = .ok b ∧ some (P.sha256 b) = x.1.scoreSha256

def InSequence : Prop :=
  ∀ s ∈ snapshotsOf t x.1.contextId, s.version < x.1.version → payloadOf t s ≠ none

/-- A stored row that hydration goes past. -/
def Passes : Prop := Intact P x ∧ InSequence t x

/-- The first row that hydration does not go past can be read. -/
def Caught : Prop :=
  ∃ front x back, stored t = front ++ x :: back ∧ (∀ y ∈ front, Passes P t y) ∧ Readable x ∧
    ¬ Passes P t x

variable {P}

/-- No payload is missing, every row passes, and scores are NULL only where none were promoted. -/
structure Unharmed (calls : List (Call P)) (t : Tables) : Prop where
  present : ∀ r ∈ t.contextSnapshots, payloadOf t r ≠ none
  passes : ∀ x ∈ stored t, Passes P t x
  scores : ∀ p, .promote p ∈ calls → ∀ x ∈ stored t, rowValues x.1 = p.snapshotValues →
    x.2.scoreBlob = none → p.scores = ∅

def Involved (calls : List (Call P)) (t : Tables) (b : Bytes) : Prop :=
  (∃ p, .promote p ∈ calls ∧ (b = p.membershipPayload ∨ b = p.scorePayload)) ∨
    ∃ q ∈ t.contextSnapshotPayloads, bytesOf q.membershipBlob = .ok b ∨
      ∃ cell ∈ q.scoreBlob, bytesOf cell = .ok b

/-- `sha256` has no collision on them. -/
def NoCollision (calls : List (Call P)) (t : Tables) : Prop :=
  ∀ b b', Involved calls t b → Involved calls t b' → P.sha256 b = P.sha256 b' → b = b'

end Conditions

/-- Every promotion is numbered and its row is stored, with whatever payload. -/
structure PromotedRows (calls : List (Call P)) (t : Tables) : Prop where
  shelves : Shelves t
  rows : ∀ r ∈ t.contextSnapshots, ∃ p, .promote p ∈ calls ∧ rowValues r = p.snapshotValues
  versions : ∀ contextId, Consecutive 0 ((snapshotsOf t contextId).map (fun r => r.version))
  history : ∀ r ∈ t.contextMembershipHistory, Timed r

section Outcome

def E201 (e : DbError) : Prop := ∃ message, e = .valueError message ∧ "[E201]".toList <+: message.toList

structure RestoresAll (calls : List (Call P)) (t : Tables) (restored : List Restored) : Prop where
  promoted : ∀ s ∈ restored, ∃ p, .promote p ∈ calls ∧ s.contextId = p.entry.contextId ∧
    s.version = p.snapshot.version ∧ s.payload = p.membershipPayload ∧ s.scores = p.scores
  snapshots : ∀ contextId, (restoredFor restored contextId).map (fun s => s.version) =
    (snapshotsOf t contextId).map (fun r => r.version)

/-- `hydrate_runtime` of a fresh runtime raises an E201 or restores everything. -/
def FailsClosed (calls : List (Call P)) (c : Connection catalog) : Prop :=
  match ((Connection.handler catalog).exec (hydrateRuntime P [] []) c).1 with
  | .ok (restored, _) => RestoresAll calls c.pending restored
  | .error e => E201 e

end Outcome

section Sequence

theorem promotedRows (hk : Kept calls t) (hnum : Numbered calls)
    (hversions : ∀ contextId, (snapshotsOf t contextId).map (fun r => r.version) = versionsOf calls contextId)
    (f : PayloadChange) : PromotedRows calls (f.apply t) := by
  have hs := shelves hk
  refine ⟨⟨hs.ascending, hs.built, ?_⟩, ?_, ?_, hk.history⟩
  · refine List.Pairwise.filterMap f.payload ?_ hs.payloads
    intro q₁ q₂ hne q₁' h₁ q₂' h₂ hid
    obtain ⟨hid₁, hversion₁⟩ := f.key q₁ q₁' h₁
    obtain ⟨hid₂, hversion₂⟩ := f.key q₂ q₂' h₂
    rw [hversion₁, hversion₂]
    exact hne (hid₁.symm.trans (hid.trans hid₂))
  · intro r hr
    obtain ⟨p, hp, hholds⟩ := hk.rows r hr
    exact ⟨p, hp, hholds.values⟩
  · intro contextId
    have hsame := hversions contextId
    change (snapshotsOf (f.apply t) contextId).map (fun r => r.version) = _ at hsame
    rw [hsame]
    exact hnum contextId

theorem stored_split (h : Shelves t) {front back : List (SnapshotRow × PayloadRow)}
    {x : SnapshotRow × PayloadRow} (hsplit : stored t = front ++ x :: back) :
    ∃ older newer, snapshotsOf t x.1.contextId = older ++ x.1 :: newer ∧
      front.filter (fun y => y.1.contextId = x.1.contextId) =
        older.filterMap (fun s => (payloadOf t s).map (fun q => (s, q))) := by
  have hfilter := stored_filter h x.1.contextId
  rw [hsplit, List.filter_append, List.filter_cons_of_pos (by simp)] at hfilter
  obtain ⟨older, rest, hrows, holder, hrest⟩ := List.filterMap_eq_append_iff.mp hfilter.symm
  obtain ⟨skipped, r, newer, rfl, hskipped, hr, -⟩ := List.filterMap_eq_cons_iff.mp hrest
  obtain ⟨q, -, hx⟩ := Option.map_eq_some_iff.mp hr
  refine ⟨older ++ skipped, newer, ?_, ?_⟩
  · rw [hrows, ← congrArg Prod.fst hx]
    simp
  · rw [List.filterMap_append, holder, List.filterMap_eq_nil_iff.mpr hskipped, List.append_nil]

theorem inSequence_iff (h : PromotedRows calls t) {front back : List (SnapshotRow × PayloadRow)}
    {x : SnapshotRow × PayloadRow} (hsplit : stored t = front ++ x :: back) :
    ((front.filter (fun y => y.1.contextId = x.1.contextId)).length : Int) + 1 = x.1.version ↔
      InSequence t x := by
  obtain ⟨older, newer, hrows, hfront⟩ := stored_split h.shelves hsplit
  have hcons := h.versions x.1.contextId
  rw [hrows, List.map_append, List.map_cons, Consecutive.append_iff, Int.zero_add, List.length_map] at hcons
  obtain ⟨holder, hversion, hnewer⟩ := hcons
  have hlength : (older.filterMap (fun s => (payloadOf t s).map (fun q => (s, q)))).length = older.length ↔
      ∀ s ∈ older, payloadOf t s ≠ none := by
    rw [List.filterMap_length_eq_length]
    refine forall₂_congr fun s _ => ?_
    cases payloadOf t s <;> simp
  have holder_iff : ∀ s, s ∈ older ↔ s ∈ snapshotsOf t x.1.contextId ∧ s.version < x.1.version := by
    intro s
    rw [hrows]
    constructor
    · intro hs
      have hle := (holder.lt _ (List.mem_map_of_mem hs)).2
      rw [List.length_map] at hle
      exact ⟨List.mem_append_left _ hs, by omega⟩
    · rintro ⟨hs, hlt⟩
      obtain hs | hs := List.mem_append.mp hs
      · exact hs
      · obtain rfl | hs := List.mem_cons.mp hs
        · exact absurd hlt (lt_irrefl _)
        · have hge := (hnewer.lt _ (List.mem_map_of_mem hs)).1
          omega
  rw [hfront, InSequence]
  constructor
  · intro hnext s hs hlt
    exact hlength.mp (by omega) s ((holder_iff s).mpr ⟨hs, hlt⟩)
  · intro hall
    have := hlength.mpr (fun s hs => hall s ((holder_iff s).mp hs).1 ((holder_iff s).mp hs).2)
    omega

end Sequence

section Open

variable {x : SnapshotRow × PayloadRow}

theorem stored_row (h : PromotedRows calls t) (hx : x ∈ stored t) :
    x.2 ∈ t.contextSnapshotPayloads ∧ ∃ p, .promote p ∈ calls ∧ rowValues x.1 = p.snapshotValues := by
  obtain ⟨hr, hq⟩ := (mem_stored h.shelves).mp hx
  exact ⟨((payloadOf_eq h.shelves).mp hq).1, h.rows x.1 hr⟩

theorem scoreBlob_mapM {q : PayloadRow} (h : ∀ cell ∈ q.scoreBlob, ∃ b, bytesOf cell = .ok b) :
    ∃ scorePayload, q.scoreBlob.mapM bytesOf = .ok scorePayload ∧
      (scorePayload = none ↔ q.scoreBlob = none) ∧
      ∀ b ∈ scorePayload, ∃ cell ∈ q.scoreBlob, bytesOf cell = .ok b := by
  cases hblob : q.scoreBlob with
  | none => exact ⟨none, rfl, by simp, by simp⟩
  | some cell =>
    obtain ⟨b, hb⟩ := h cell hblob
    refine ⟨some b, ?_, by simp, ?_⟩
    · rw [Option.mapM_some, hb]
      rfl
    · rintro _ ⟨⟩
      exact ⟨cell, rfl, hb⟩

theorem opened_intact (h : PromotedRows calls t) (hsha : NoCollision calls t)
    (hscores : ∀ p, .promote p ∈ calls → ScoresReadBack p) (hnull : P.decodeScores none = .ok ∅)
    (hx : x ∈ stored t) (hintact : Intact P x) :
    ∃ p, .promote p ∈ calls ∧ rowValues x.1 = p.snapshotValues ∧
      opened P x = .ok { readBack p with scores := if x.2.scoreBlob = none then ∅ else p.scores } := by
  obtain ⟨hq, p, hp, hvalues⟩ := stored_row h hx
  refine ⟨p, hp, hvalues, ?_⟩
  obtain ⟨payload, hpayload, hhash⟩ := hintact.membership
  obtain ⟨scorePayload, hscore, hnone, hbytes⟩ := scoreBlob_mapM (fun cell hcell =>
    (hintact.scores cell hcell).imp (fun _ hb => hb.1))
  have hhash' : P.sha256 payload = P.sha256 p.membershipPayload := by
    have hrow : x.1.membershipSha256 = some (P.sha256 p.membershipPayload) :=
      congrArg SnapshotValues.membershipSha256 hvalues
    exact Option.some.inj (hhash.trans hrow)
  obtain rfl : payload = p.membershipPayload :=
    hsha _ _ (.inr ⟨x.2, hq, .inl hpayload⟩) (.inl ⟨p, hp, .inl rfl⟩) hhash'
  have hscore' : ∀ b ∈ scorePayload, b = p.scorePayload := by
    intro b hb
    obtain ⟨cell, hcell, hread⟩ := hbytes b hb
    obtain ⟨b', hread', hhash⟩ := hintact.scores cell hcell
    obtain rfl := Except.ok.inj (hread.symm.trans hread')
    have hrow : x.1.scoreSha256 = some (P.sha256 p.scorePayload) :=
      congrArg SnapshotValues.scoreSha256 hvalues
    exact hsha _ _ (.inr ⟨x.2, hq, .inr ⟨cell, hcell, hread⟩⟩) (.inl ⟨p, hp, .inr rfl⟩)
      (Option.some.inj (hhash.trans hrow))
  rw [opened_readable hvalues hpayload hscore, if_neg (by simp)]
  cases scorePayload with
  | none =>
    rw [if_neg (by simp), if_pos (hnone.mp rfl), hnull]
    rfl
  | some b =>
    obtain rfl := hscore' b rfl
    have hread : P.decodeScores (some p.scorePayload) = .ok p.scores := hscores p hp
    have hblob : ¬ x.2.scoreBlob = none := fun hblob => by cases hnone.mpr hblob
    rw [if_neg (by simp), if_neg hblob, hread]
    rfl

theorem e201_of_prefix {a b : String} (h : "[E201]".toList <+: a.toList) : E201 (.valueError (a ++ b)) := by
  refine ⟨a ++ b, rfl, ?_⟩
  rw [String.toList_append]
  exact h.trans (List.prefix_append _ _)

theorem e201_nonContiguous (contextId : String) : E201 (nonContiguous contextId) := by
  rw [nonContiguous, String.append_assoc]
  exact e201_of_prefix (by decide)

theorem opened_corrupt (h : PromotedRows calls t) (hx : x ∈ stored t) (hread : Readable x)
    (hintact : ¬ Intact P x) : ∃ e, opened P x = .error e ∧ E201 e := by
  obtain ⟨hq, p, hp, hvalues⟩ := stored_row h hx
  obtain ⟨payload, hpayload⟩ := hread.1
  obtain ⟨scorePayload, hscore, hnone, hbytes⟩ := scoreBlob_mapM hread.2
  have hrow : x.1.membershipSha256 = some (P.sha256 p.membershipPayload) :=
    congrArg SnapshotValues.membershipSha256 hvalues
  have hrow' : x.1.scoreSha256 = some (P.sha256 p.scorePayload) :=
    congrArg SnapshotValues.scoreSha256 hvalues
  rw [opened_readable hvalues hpayload hscore]
  by_cases hmembership : P.sha256 payload = P.sha256 p.membershipPayload
  · by_cases hscores : scorePayload.any (fun b => P.sha256 b ≠ P.sha256 p.scorePayload)
    · refine ⟨_, (if_neg (by simp [hmembership])).trans (if_pos hscores), ?_⟩
      simp only [String.append_assoc]
      exact e201_of_prefix (by decide)
    · refine absurd ⟨⟨payload, hpayload, ?_⟩, ?_⟩ hintact
      · rw [hmembership, hrow]
      · intro cell hcell
        obtain ⟨b, hb⟩ := hread.2 cell hcell
        refine ⟨b, hb, ?_⟩
        have hsome : scorePayload = some b := by
          rw [Option.mem_def.mp hcell, Option.mapM_some, hb] at hscore
          exact (Except.ok.inj hscore).symm
        rw [hsome] at hscores
        rw [hrow']
        simpa using hscores
  · refine ⟨_, if_pos hmembership, ?_⟩
    simp only [String.append_assoc]
    exact e201_of_prefix (by decide)

theorem restore_caught (h : PromotedRows calls t) (hsha : NoCollision calls t)
    (hscores : ∀ p, .promote p ∈ calls → ScoresReadBack p) (hnull : P.decodeScores none = .ok ∅)
    {membership : List Restored} (hx : x ∈ stored t) (hread : Readable x) (hpass : ¬ Passes P t x)
    (hnext : nextVersion membership x.1.contextId = x.1.version ↔ InSequence t x) :
    ∃ e, restore P membership x = .error e ∧ E201 e := by
  rw [restore_eq]
  by_cases hintact : Intact P x
  · obtain ⟨p, -, -, hopened⟩ := opened_intact h hsha hscores hnull hx hintact
    have hgap : ¬ nextVersion membership x.1.contextId = x.1.version := fun heq =>
      hpass ⟨hintact, hnext.mp heq⟩
    refine ⟨nonContiguous x.1.contextId, ?_, e201_nonContiguous _⟩
    rw [hopened]
    exact if_neg hgap
  · obtain ⟨e, he, hcode⟩ := opened_corrupt h hx hread hintact
    refine ⟨e, ?_, hcode⟩
    rw [he]
    rfl

theorem bytesOf_error {cell : Cell} {e : DbError} (h : bytesOf cell = .error e) : ¬ E201 e := by
  rintro ⟨message, rfl, hcode⟩
  cases cell with
  | integer n =>
    rw [bytesOf] at h
    split at h
    · obtain rfl := DbError.valueError.inj (Except.error.inj h)
      exact absurd hcode (by decide)
    · cases h
  | real x => cases h
  | text s => cases h
  | blob b => cases h

/-- What cannot be read raises something else. -/
theorem restore_unreadable {membership : List Restored} (hread : ¬ Readable x) :
    ∃ e, restore P membership x = .error e ∧ ¬ E201 e := by
  rw [restore_eq, opened]
  cases hpayload : bytesOf x.2.membershipBlob with
  | error e => exact ⟨e, rfl, bytesOf_error hpayload⟩
  | ok payload =>
    cases hscore : x.2.scoreBlob with
    | none => exact absurd ⟨⟨payload, hpayload⟩, by simp [hscore]⟩ hread
    | some cell =>
      cases hcell : bytesOf cell with
      | error e =>
        refine ⟨e, ?_, bytesOf_error hcell⟩
        rw [Option.mapM_some, hcell]
        rfl
      | ok b =>
        refine absurd ⟨⟨payload, hpayload⟩, ?_⟩ hread
        intro cell' hcell'
        rw [hscore] at hcell'
        obtain rfl := Option.some.inj hcell'
        exact ⟨b, hcell⟩

end Open

section Fold

theorem nextVersion_eq {ss : List Restored} {rows : List (SnapshotRow × PayloadRow)}
    (h : rows.mapM (opened P) = .ok ss) (contextId : String) : nextVersion ss contextId =
      ((rows.filter (fun y => y.1.contextId = contextId)).length : Int) + 1 := by
  have hlen := congrArg List.length (restored_versions h contextId)
  rw [List.length_map, List.length_map] at hlen
  rw [nextVersion, ← hlen]
  rfl

theorem nextVersion_iff (h : PromotedRows calls t) {ss : List Restored}
    {front back : List (SnapshotRow × PayloadRow)} {x : SnapshotRow × PayloadRow}
    (hsplit : stored t = front ++ x :: back) (hss : front.mapM (opened P) = .ok ss) :
    nextVersion ss x.1.contextId = x.1.version ↔ InSequence t x := by
  rw [nextVersion_eq hss]
  exact inSequence_iff h hsplit

theorem restore_front (h : PromotedRows calls t) (hsha : NoCollision calls t)
    (hscores : ∀ p, .promote p ∈ calls → ScoresReadBack p) (hnull : P.decodeScores none = .ok ∅)
    {front back : List (SnapshotRow × PayloadRow)} (hsplit : stored t = front ++ back)
    (hpass : ∀ y ∈ front, Passes P t y) :
    ∃ ss, front.mapM (opened P) = .ok ss ∧ front.foldlM (restore P) [] = .ok ss := by
  induction front using List.reverseRecOn generalizing back with
  | nil => exact ⟨[], rfl, rfl⟩
  | append_singleton front y ih =>
    rw [List.append_assoc] at hsplit
    obtain ⟨ss, hss, hfold⟩ := ih hsplit (fun z hz => hpass z (List.mem_append_left _ hz))
    obtain ⟨hintact, hseq⟩ := hpass y (by simp)
    have hy : y ∈ stored t := by
      rw [hsplit]
      simp
    obtain ⟨s, hs⟩ : ∃ s, opened P y = .ok s :=
      (opened_intact h hsha hscores hnull hy hintact).elim (fun _ hopened => ⟨_, hopened.2.2⟩)
    have hrestore : restore P ss y = .ok (ss ++ [s]) := by
      rw [restore_eq, hs]
      exact if_pos ((nextVersion_iff h hsplit hss).mpr hseq)
    refine ⟨ss ++ [s], ?_, ?_⟩
    · rw [List.mapM_append, hss, List.mapM_cons, hs]
      rfl
    · rw [List.foldlM_append, hfold]
      change (do let m ← restore P ss y; [].foldlM (restore P) m) = _
      rw [hrestore]
      rfl

/-- Rows in order, up to the first one that fails a condition. -/
theorem all_or_first {α : Type} (Q : α → Prop) (xs : List α) :
    (∀ x ∈ xs, Q x) ∨ ∃ front x back, xs = front ++ x :: back ∧ (∀ y ∈ front, Q y) ∧ ¬ Q x := by
  induction xs with
  | nil => exact .inl (List.forall_mem_nil _)
  | cons x xs ih =>
    by_cases hx : Q x
    · obtain hall | ⟨front, y, back, rfl, hfront, hy⟩ := ih
      · exact .inl (List.forall_mem_cons.mpr ⟨hx, hall⟩)
      · exact .inr ⟨x :: front, y, back, rfl, List.forall_mem_cons.mpr ⟨hx, hfront⟩, hy⟩
    · exact .inr ⟨[], x, xs, rfl, List.forall_mem_nil _, hx⟩

/-- A restart that goes through restores everything exactly if nothing was harmed. -/
theorem restoresAll_iff (h : PromotedRows calls t) (hsha : NoCollision calls t)
    (hscores : ∀ p, .promote p ∈ calls → ScoresReadBack p) (hnull : P.decodeScores none = .ok ∅)
    (hnum : Numbered calls) (hpass : ∀ y ∈ stored t, Passes P t y) {ss : List Restored}
    (hss : (stored t).mapM (opened P) = .ok ss) : RestoresAll calls t ss ↔ Unharmed calls t := by
  have hopened : ∀ x ∈ stored t, ∀ p, .promote p ∈ calls → rowValues x.1 = p.snapshotValues →
      opened P x = .ok { readBack p with scores := if x.2.scoreBlob = none then ∅ else p.scores } := by
    intro x hx p hp hvalues
    obtain ⟨p', hp', hvalues', hopened⟩ := opened_intact h hsha hscores hnull hx (hpass x hx).1
    obtain rfl := promotion_unique hnum hp hp'
      ((congrArg SnapshotValues.contextId hvalues).symm.trans (congrArg SnapshotValues.contextId hvalues'))
      ((congrArg SnapshotValues.version hvalues).symm.trans (congrArg SnapshotValues.version hvalues'))
    exact hopened
  constructor
  · intro hr
    refine ⟨?_, hpass, ?_⟩
    · intro r hmem hnone
      have hlen := congrArg List.length (hr.snapshots r.contextId)
      rw [restored_versions hss, stored_filter h.shelves, List.length_map, List.length_map,
        List.filterMap_length_eq_length] at hlen
      have hsome := hlen r (List.mem_filter.mpr ⟨hmem, by simp⟩)
      rw [hnone] at hsome
      cases hsome
    · intro p hp x hx hvalues hblob
      have hs := (mem_of_mapM hss).mpr ⟨x, hx, hopened x hx p hp hvalues⟩
      obtain ⟨p', hp', hid, hversion, -, hequal⟩ := hr.promoted _ hs
      obtain rfl := promotion_unique hnum hp hp' hid hversion
      rw [← hequal]
      exact if_pos hblob
  · intro hu
    refine ⟨?_, ?_⟩
    · intro s hs
      obtain ⟨x, hx, hopen⟩ := (mem_of_mapM hss).mp hs
      obtain ⟨-, p, hp, hvalues⟩ := stored_row h hx
      obtain rfl := Except.ok.inj (hopen.symm.trans (hopened x hx p hp hvalues))
      refine ⟨p, hp, rfl, rfl, rfl, ?_⟩
      dsimp only
      split
      · rename_i hblob
        exact (hu.scores p hp x hx hvalues hblob).symm
      · rfl
    · intro contextId
      rw [restored_versions hss, stored_filter h.shelves, List.map_filterMap, ← List.filterMap_eq_map]
      apply List.filterMap_congr
      intro r hr
      obtain ⟨q, hq⟩ := Option.ne_none_iff_exists'.mp (hu.present r (List.mem_filter.mp hr).1)
      rw [hq]
      rfl

end Fold

section Hydrate

variable {c : Connection catalog}

theorem failsClosed_of_promoted (h : PromotedRows calls c.pending) (hsha : NoCollision calls c.pending)
    (hscores : ∀ p, .promote p ∈ calls → ScoresReadBack p) (hnull : P.decodeScores none = .ok ∅)
    (hnum : Numbered calls) : FailsClosed calls c ↔ Caught P c.pending ∨ Unharmed calls c.pending := by
  rw [FailsClosed, exec_hydrateRuntime]
  have hraises : ∀ {front x back}, stored c.pending = front ++ x :: back → (∀ y ∈ front, Passes P c.pending y) →
      ∀ {ss e}, front.foldlM (restore P) [] = .ok ss → restore P ss x = .error e →
        (stored c.pending).foldlM (restore P) [] = .error e := fun hsplit _ _ _ hfold hx =>
    foldlM_error.mpr ⟨_, _, _, _, hsplit, hfold, hx⟩
  have hcaught : Caught P c.pending → ∃ e, (stored c.pending).foldlM (restore P) [] = .error e ∧ E201 e := by
    rintro ⟨front, x, back, hsplit, hfront, hread, hx⟩
    obtain ⟨ss, hss, hfold⟩ := restore_front h hsha hscores hnull hsplit hfront
    have hmem : x ∈ stored c.pending := by
      rw [hsplit]
      simp
    obtain ⟨e, he, hcode⟩ := restore_caught h hsha hscores hnull hmem hread hx (nextVersion_iff h hsplit hss)
    exact ⟨e, hraises hsplit hfront hfold he, hcode⟩
  obtain hpass | ⟨front, x, back, hsplit, hfront, hx⟩ := all_or_first (Passes P c.pending) (stored c.pending)
  · obtain ⟨ss, hss, hfold⟩ := restore_front h hsha hscores hnull (List.append_nil _).symm hpass
    obtain ⟨events, hevents⟩ := history_timed h.history
    rw [hfold, hevents]
    refine (restoresAll_iff h hsha hscores hnull hnum hpass hss).trans ⟨.inr, ?_⟩
    rintro (⟨front, x, back, hsplit, -, -, hx⟩ | hu)
    · refine absurd (hpass x ?_) hx
      rw [hsplit]
      simp
    · exact hu
  · by_cases hread : Readable x
    · have hc : Caught P c.pending := ⟨front, x, back, hsplit, hfront, hread, hx⟩
      obtain ⟨e, he, hcode⟩ := hcaught hc
      rw [he]
      exact ⟨fun _ => .inl hc, fun _ => hcode⟩
    · obtain ⟨ss, hss, hfold⟩ := restore_front h hsha hscores hnull hsplit hfront
      obtain ⟨e, he, hcode⟩ := restore_unreadable (P := P) hread
      rw [hraises hsplit hfront hfold he]
      constructor
      · exact fun hcode' => absurd hcode' hcode
      · rintro (hc | hu)
        · obtain ⟨e', he', hcode'⟩ := hcaught hc
          rw [hraises hsplit hfront hfold he] at he'
          obtain rfl := Except.error.inj he'
          exact hcode'
        · refine absurd (hu.passes x ?_) hx
          rw [hsplit]
          simp

end Hydrate

section Sample

def deletion (contextId : String) (version : Int) : PayloadChange where
  payload q := if q.contextId = contextId ∧ q.version = version then none else some q
  key := by
    intro q q' h
    split at h
    · cases h
    · obtain rfl := Option.some.inj h
      exact ⟨rfl, rfl⟩

/-- The database after the calls, with one payload deleted. -/
def afterDeletion (version : Int) : Connection catalog :=
  (runCalls (sampleConnection .empty) restartCalls).settled
    ((deletion "a" version).apply (runCalls (sampleConnection .empty) restartCalls).committed)

theorem afterDeletion_payloads {version : Int} (hversion : version = 1 ∨ version = 2) :
    ∀ q ∈ (afterDeletion version).committed.contextSnapshotPayloads,
      (q.membershipBlob = .blob [1] ∨ q.membershipBlob = .blob [2]) ∧ q.scoreBlob = some (.blob []) := by
  obtain rfl | rfl := hversion <;> decide

theorem involved_sample {version : Int} (hversion : version = 1 ∨ version = 2) {b : Bytes}
    (h : Involved restartCalls (afterDeletion version).committed b) : b = [] ∨ b = [1] ∨ b = [2] := by
  obtain ⟨p, hp, hb⟩ | ⟨q, hq, hb⟩ := h
  · obtain rfl | rfl | rfl := mem_restartCalls hp <;> obtain rfl | rfl := hb <;> decide
  · obtain ⟨hmembership, hscore⟩ := afterDeletion_payloads hversion q hq
    obtain hb | ⟨cell, hcell, hb⟩ := hb
    · obtain hblob | hblob := hmembership <;> rw [hblob] at hb <;> obtain rfl := Except.ok.inj hb <;> decide
    · rw [hscore] at hcell
      obtain rfl := Option.some.inj hcell
      obtain rfl := Except.ok.inj hb
      decide

theorem noCollision_sample {version : Int} (hversion : version = 1 ∨ version = 2) :
    NoCollision restartCalls (afterDeletion version).committed := by
  intro b b' hb hb'
  obtain rfl | rfl | rfl := involved_sample hversion hb <;>
    obtain rfl | rfl | rfl := involved_sample hversion hb' <;> decide

theorem restartCalls_scores : ∀ p, .promote p ∈ restartCalls → ScoresReadBack p := by
  intro p hp
  obtain rfl | rfl | rfl := mem_restartCalls hp <;> rfl

theorem restartCalls_prune (entry : ContextCatalogEntry samplePackages) (cutoff : Option Datetime) :
    .prune entry cutoff ∉ restartCalls := by
  simp [restartCalls]

end Sample

end ContextqlServer.Db.Tampering
