import ContextqlServer.Db.Codec
import ContextqlServer.Db.Promotions
import ContextqlServer.Lib.Ordering

namespace ContextqlServer.Db.Hydration

open ContextqlServer.Lib.Effect ContextqlServer.Lib.Isoformat ContextqlServer.Lib.Numbering
open ContextqlServer.Lib.Mapping ContextqlServer.Lib.Python ContextqlServer.Lib.Sql
open ContextqlServer.Db.Schema ContextqlServer.Db.Statements ContextqlServer.Db.Services
open ContextqlServer.Db.ContextCatalog ContextqlServer.Db.ContextCatalog.SQLiteContextRuntimeRepository
open ContextqlServer.Db.Calls ContextqlServer.Db.Codec ContextqlServer.Db.Shelf
open ContextqlServer.Db.Snapshots ContextqlServer.Db.Runs ContextqlServer.Db.Promotions

variable {P : Packages} {t : Tables} {contextId : String}

section Stored

/-- The payload that `hydrate_runtime` joins to a snapshot. -/
def payloadOf (t : Tables) (s : SnapshotRow) : Option PayloadRow :=
  t.contextSnapshotPayloads.find? (fun q => q.contextId = s.contextId && q.version = s.version)

/-- The snapshots of every context ascend, none is being built, and no two payloads
have one key. -/
structure Shelves (t : Tables) : Prop where
  ascending : ∀ contextId, (snapshotsOf t contextId).Pairwise (fun r s => r.version < s.version)
  built : ∀ r ∈ t.contextSnapshots, r.state ≠ .building
  payloads : t.contextSnapshotPayloads.Pairwise
    (fun p q => p.contextId = q.contextId → p.version ≠ q.version)

theorem filter_key {α : Type} {p : α → Bool} {xs : List α}
    (h : xs.Pairwise (fun x y => p x → ¬ p y)) : xs.filter p = (xs.find? p).toList := by
  induction xs with
  | nil => rfl
  | cons x xs ih =>
    obtain ⟨hx, hxs⟩ := List.pairwise_cons.mp h
    cases hp : p x with
    | false => rw [List.filter_cons_of_neg (by simp [hp]), List.find?_cons_of_neg (by simp [hp]), ih hxs]
    | true =>
      have hnone : xs.filter p = [] := List.filter_eq_nil_iff.mpr (fun y hy => hx y hy hp)
      rw [List.filter_cons_of_pos hp, List.find?_cons_of_pos hp, hnone]
      rfl

theorem joined_eq (h : Shelves t) : ((t.contextSnapshots.filter (fun s => s.state ≠ .building)).flatMap
    (fun s => (t.contextSnapshotPayloads.filter (fun p =>
      p.contextId = s.contextId && p.version = s.version)).map (fun p => (s, p)))) =
    t.contextSnapshots.filterMap (fun s => (payloadOf t s).map (fun q => (s, q))) := by
  have hall : t.contextSnapshots.filter (fun s => s.state ≠ .building) = t.contextSnapshots := by
    apply List.filter_eq_self.mpr
    intro r hr
    simpa using h.built r hr
  have hpayload : ∀ s : SnapshotRow, t.contextSnapshotPayloads.filter (fun p =>
      p.contextId = s.contextId && p.version = s.version) = (payloadOf t s).toList := by
    intro s
    apply filter_key
    refine h.payloads.imp ?_
    intro p q hpq hp hq
    simp only [Bool.and_eq_true, decide_eq_true_eq] at hp hq
    exact hpq (hp.1.trans hq.1.symm) (hp.2.trans hq.2.symm)
  rw [hall]
  simp only [hpayload]
  induction t.contextSnapshots with
  | nil => rfl
  | cons s ss ih =>
    rw [List.flatMap_cons, ih, List.filterMap_cons]
    cases payloadOf t s <;> rfl

/-- The rows that `hydrate_runtime` reads of one context, in its order. -/
theorem stored_filter (h : Shelves t) (contextId : String) :
    (ContextCatalog.stored t).filter (fun x => x.1.contextId = contextId) =
      (snapshotsOf t contextId).filterMap (fun s => (payloadOf t s).map (fun q => (s, q))) := by
  rw [ContextCatalog.stored, joined_eq h, orderBy, Lib.Ordering.filter_insertionSort]
  have hfilter : (t.contextSnapshots.filterMap (fun s => (payloadOf t s).map (fun q => (s, q)))).filter
      (fun x => x.1.contextId = contextId) =
      (snapshotsOf t contextId).filterMap (fun s => (payloadOf t s).map (fun q => (s, q))) := by
    rw [snapshotsOf, List.filterMap_filter, List.filter_filterMap]
    apply List.filterMap_congr
    intro s _
    by_cases hid : s.contextId = contextId
    · cases payloadOf t s <;> simp [hid]
    · cases payloadOf t s <;> simp [hid]
  rw [hfilter]
  apply List.Pairwise.insertionSort_eq
  rw [List.pairwise_filterMap]
  refine (h.ascending contextId).imp_of_mem ?_
  rintro r s hr hs hlt x hx y hy
  obtain ⟨q, -, rfl⟩ := Option.map_eq_some_iff.mp hx
  obtain ⟨q', -, rfl⟩ := Option.map_eq_some_iff.mp hy
  have hid : r.contextId = contextId := by simpa using (List.mem_filter.mp hr).2
  have hid' : s.contextId = contextId := by simpa using (List.mem_filter.mp hs).2
  exact (Prod.Lex.toLex_lt_toLex.mpr (.inr ⟨hid.trans hid'.symm, hlt⟩)).le

theorem mem_stored (h : Shelves t) {x : SnapshotRow × PayloadRow} :
    x ∈ ContextCatalog.stored t ↔ x.1 ∈ t.contextSnapshots ∧ payloadOf t x.1 = some x.2 := by
  rw [ContextCatalog.stored, joined_eq h, orderBy, List.mem_insertionSort, List.mem_filterMap]
  constructor
  · rintro ⟨s, hs, hx⟩
    obtain ⟨q, hq, rfl⟩ := Option.map_eq_some_iff.mp hx
    exact ⟨hs, hq⟩
  · rintro ⟨hs, hq⟩
    exact ⟨x.1, hs, by rw [hq]; rfl⟩

end Stored

section Restore

def opened (P : Packages) (row : SnapshotRow × PayloadRow) : Except DbError Restored := do
  let membershipPayload ← bytesOf row.2.membershipBlob
  let scorePayload ← row.2.scoreBlob.mapM bytesOf
  if some (P.sha256 membershipPayload) ≠ row.1.membershipSha256 then
    throw (.valueError
      s!"[E201] corrupt membership payload for {row.1.contextId}@{row.1.version}.")
  if scorePayload.any (fun b => some (P.sha256 b) ≠ row.1.scoreSha256) then
    throw (.valueError s!"[E201] corrupt score payload for {row.1.contextId}@{row.1.version}.")
  let computedAt ← datetime (some row.1.computedAt)
  let dataAsOf ← datetime (some row.1.dataAsOf)
  let scores ← P.decodeScores scorePayload
  pure {
    contextId := row.1.contextId
    version := row.1.version
    payload := membershipPayload
    computedAt
    dataAsOf
    definitionHash := row.1.definitionHash
    sourceWatermark := row.1.sourceWatermark
    scores
    storageKind := row.1.storageKind }

def nonContiguous (contextId : String) : DbError :=
  .valueError s!"[E201] non-contiguous snapshot versions for {contextId}."

theorem restore_eq (P : Packages) (membership : List Restored) (row : SnapshotRow × PayloadRow) :
    restore P membership row = (do
      let s ← opened P row
      if nextVersion membership row.1.contextId = row.1.version then pure (membership ++ [s])
      else throw (nonContiguous row.1.contextId)) := by
  rw [restore, opened]
  cases bytesOf row.2.membershipBlob with
  | error e => rfl
  | ok payload =>
    cases row.2.scoreBlob.mapM bytesOf with
    | error e => rfl
    | ok scorePayload =>
      simp only [bind, Except.bind]
      split
      · rfl
      · split
        · rfl
        · cases datetime (some row.1.computedAt) with
          | error e => rfl
          | ok computedAt =>
            cases datetime (some row.1.dataAsOf) with
            | error e => rfl
            | ok dataAsOf =>
              cases P.decodeScores scorePayload with
              | error e => rfl
              | ok scores =>
                by_cases h : nextVersion membership row.1.contextId = row.1.version
                · simp [pure, Except.pure, h]
                · simp [h, nonContiguous]
                  rfl

def Continues (membership : List Restored) (rows : List (SnapshotRow × PayloadRow)) : Prop :=
  ∀ contextId, Consecutive (membership.filter (fun s => s.contextId = contextId)).length
    ((rows.filter (fun x => x.1.contextId = contextId)).map (fun x => x.1.version))

theorem opened_contextId {row : SnapshotRow × PayloadRow} {s : Restored} (h : opened P row = .ok s) :
    s.contextId = row.1.contextId ∧ s.version = row.1.version := by
  obtain ⟨payload, -, h⟩ := bind_eq_ok.mp h
  obtain ⟨scorePayload, -, h⟩ := bind_eq_ok.mp h
  simp only [bind, Except.bind] at h
  split at h
  · cases h
  · split at h
    · cases h
    · cases hcomputed : datetime (some row.1.computedAt) with
      | error e => rw [hcomputed] at h; cases h
      | ok computedAt =>
        cases hdata : datetime (some row.1.dataAsOf) with
        | error e => rw [hcomputed, hdata] at h; cases h
        | ok dataAsOf =>
          cases hscores : P.decodeScores scorePayload with
          | error e => rw [hcomputed, hdata, hscores] at h; cases h
          | ok scores =>
            rw [hcomputed, hdata, hscores] at h
            obtain rfl := Except.ok.inj h
            exact ⟨rfl, rfl⟩

theorem continues_cons {membership : List Restored} {row : SnapshotRow × PayloadRow} {s : Restored}
    {rows : List (SnapshotRow × PayloadRow)} (h : opened P row = .ok s) :
    Continues membership (row :: rows) ↔ nextVersion membership row.1.contextId = row.1.version ∧
      Continues (membership ++ [s]) rows := by
  obtain ⟨hid, hversion⟩ := opened_contextId h
  have hsame : ∀ contextId, row.1.contextId ≠ contextId →
      (Consecutive (membership.filter (fun s => s.contextId = contextId)).length
        (((row :: rows).filter (fun x => x.1.contextId = contextId)).map (fun x => x.1.version)) ↔
      Consecutive ((membership ++ [s]).filter (fun s => s.contextId = contextId)).length
        ((rows.filter (fun x => x.1.contextId = contextId)).map (fun x => x.1.version))) := by
    intro contextId hne
    have hne' : s.contextId ≠ contextId := by rwa [hid]
    simp [List.filter_append, hne, hne']
  have hown : Consecutive (membership.filter (fun s => s.contextId = row.1.contextId)).length
        (((row :: rows).filter (fun x => x.1.contextId = row.1.contextId)).map (fun x => x.1.version)) ↔
      nextVersion membership row.1.contextId = row.1.version ∧
      Consecutive ((membership ++ [s]).filter (fun s => s.contextId = row.1.contextId)).length
        ((rows.filter (fun x => x.1.contextId = row.1.contextId)).map (fun x => x.1.version)) := by
    rw [List.filter_cons_of_pos (by simp), List.map_cons, Consecutive, nextVersion, eq_comm]
    refine and_congr_right fun hnext => ?_
    rw [List.filter_append, List.filter_cons_of_pos (by simpa using hid), List.filter_nil,
      List.length_append, List.length_singleton, ← hnext]
    rfl
  constructor
  · intro hc
    refine ⟨(hown.mp (hc _)).1, ?_⟩
    intro contextId
    by_cases hne : row.1.contextId = contextId
    · subst hne
      exact (hown.mp (hc _)).2
    · exact (hsame contextId hne).mp (hc contextId)
  · rintro ⟨hnext, hc⟩ contextId
    by_cases hne : row.1.contextId = contextId
    · subst hne
      exact hown.mpr ⟨hnext, hc _⟩
    · exact (hsame contextId hne).mpr (hc contextId)

theorem restore_rows {rows : List (SnapshotRow × PayloadRow)} {membership restored : List Restored} :
    rows.foldlM (restore P) membership = .ok restored ↔
      ∃ ss, rows.mapM (opened P) = .ok ss ∧ restored = membership ++ ss ∧ Continues membership rows := by
  induction rows generalizing membership with
  | nil =>
    constructor
    · intro h
      obtain rfl := Except.ok.inj h
      exact ⟨[], rfl, (List.append_nil _).symm, fun _ => trivial⟩
    · rintro ⟨ss, hss, rfl, -⟩
      obtain rfl : ss = [] := (Except.ok.inj hss).symm
      exact congrArg Except.ok (List.append_nil _).symm
  | cons row rows ih =>
    rw [List.foldlM_cons, bind_eq_ok]
    constructor
    · rintro ⟨next, hnext, h⟩
      rw [restore_eq] at hnext
      obtain ⟨s, hs, hnext⟩ := bind_eq_ok.mp hnext
      split at hnext
      · rename_i hversion
        obtain rfl := Except.ok.inj hnext
        obtain ⟨ss, hss, rfl, hc⟩ := ih.mp h
        refine ⟨s :: ss, ?_, by simp, (continues_cons hs).mpr ⟨hversion, hc⟩⟩
        rw [List.mapM_cons, hs, hss]
        rfl
      · cases hnext
    · rintro ⟨ss, hss, rfl, hc⟩
      rw [List.mapM_cons] at hss
      obtain ⟨s, hs, hss⟩ := bind_eq_ok.mp hss
      obtain ⟨ss', hss', hss⟩ := bind_eq_ok.mp hss
      obtain rfl := Except.ok.inj hss
      obtain ⟨hversion, hc⟩ := (continues_cons hs).mp hc
      refine ⟨membership ++ [s], ?_, ih.mpr ⟨ss', hss', by simp, hc⟩⟩
      rw [restore_eq, hs]
      exact if_pos hversion

end Restore

section Kept

variable {calls : List (Call P)} {p : Promotion P}

theorem pairwise_of_filters {α κ : Type} [DecidableEq κ] {key : α → κ} {R : α → α → Prop} {xs : List α}
    (h : ∀ k, (xs.filter (fun x => key x = k)).Pairwise R) :
    xs.Pairwise (fun x y => key x = key y → R x y) := by
  induction xs with
  | nil => exact .nil
  | cons x xs ih =>
    refine List.pairwise_cons.mpr ⟨?_, ?_⟩
    · intro y hy hkey
      have hx := h (key x)
      rw [List.filter_cons_of_pos (by simp)] at hx
      exact (List.pairwise_cons.mp hx).1 y (List.mem_filter.mpr ⟨hy, by simp [hkey]⟩)
    · apply ih
      intro k
      exact (h k).sublist ((List.sublist_cons_self x xs).filter _)

theorem shelves (h : Kept calls t) : Shelves t := by
  have hasc : ∀ contextId, (snapshotsOf t contextId).Pairwise (fun r s => r.version < s.version) :=
    fun contextId => (h.shelved contextId).chain.ascending
  refine ⟨hasc, ?_, ?_⟩
  · intro r hr
    have hmem : r ∈ snapshotsOf t r.contextId := List.mem_filter.mpr ⟨hr, by simp⟩
    obtain ⟨front, last, heq, hlast, -, hfront⟩ := (h.shelved r.contextId).chain.states (List.ne_nil_of_mem hmem)
    rw [heq] at hmem
    obtain hmem | hmem := List.mem_append.mp hmem
    · rw [hfront r hmem]
      decide
    · rw [List.mem_singleton.mp hmem, hlast]
      decide
  · apply pairwise_of_filters
    intro contextId
    have hversions := List.pairwise_map.mpr (hasc contextId)
    rw [← (h.shelved contextId).payloads] at hversions
    exact (List.pairwise_map.mp hversions).imp (fun hlt => hlt.ne)

theorem payloadOf_eq (h : Shelves t) {r : SnapshotRow} {q : PayloadRow} :
    payloadOf t r = some q ↔
      q ∈ t.contextSnapshotPayloads ∧ q.contextId = r.contextId ∧ q.version = r.version := by
  constructor
  · intro hq
    have hkey := List.find?_some hq
    simp only [Bool.and_eq_true, decide_eq_true_eq] at hkey
    exact ⟨List.mem_of_find?_eq_some hq, hkey⟩
  · rintro ⟨hq, hid, hversion⟩
    have hfilter := filter_key (p := fun q => q.contextId = r.contextId && q.version = r.version)
      (h.payloads.imp (fun {p q} hpq hp hq => by
        simp only [Bool.and_eq_true, decide_eq_true_eq] at hp hq
        exact hpq (hp.1.trans hq.1.symm) (hp.2.trans hq.2.symm)))
    have hmem : q ∈ t.contextSnapshotPayloads.filter
        (fun q => q.contextId = r.contextId && q.version = r.version) :=
      List.mem_filter.mpr ⟨hq, by simp [hid, hversion]⟩
    rw [hfilter, Option.mem_toList] at hmem
    exact hmem

def ScoresReadBack (p : Promotion P) : Prop := P.decodeScores (some p.scorePayload) = .ok p.scores

def restoredOf (p : Promotion P) : Restored where
  contextId := p.entry.contextId
  version := p.snapshot.version
  payload := p.membershipPayload
  computedAt := p.snapshot.computedAt
  dataAsOf := p.snapshot.dataAsOf
  definitionHash := p.snapshot.definitionHash
  sourceWatermark := p.snapshot.sourceWatermark
  scores := p.scores
  storageKind := p.snapshot.storageKind.getD ""

def readBack (p : Promotion P) : Restored :=
  { restoredOf p with
    computedAt := p.snapshot.computedAt.map assumeUtc
    dataAsOf := p.snapshot.dataAsOf.map assumeUtc }

/-- The times of a promotion have a UTC offset. -/
def Dated (p : Promotion P) : Prop :=
  (∀ d, p.snapshot.computedAt = some d → Aware d) ∧ ∀ d, p.snapshot.dataAsOf = some d → Aware d

theorem assumeUtc_eq {d : Datetime} : assumeUtc d = d ↔ Aware d := by
  constructor
  · intro h hnone
    have hoffset := congrArg (fun d => d.fields.utcoffset) h
    rw [assumeUtc, if_pos hnone] at hoffset
    rw [hnone] at hoffset
    cases hoffset
  · exact assumeUtc_aware

theorem map_assumeUtc {d : Option Datetime} : d.map assumeUtc = d ↔ ∀ x, d = some x → Aware x := by
  cases d with
  | none => simp
  | some d => simp [assumeUtc_eq]

theorem readBack_eq : readBack p = restoredOf p ↔ Dated p := by
  rw [readBack, Dated, ← map_assumeUtc, ← map_assumeUtc]
  constructor
  · intro h
    exact ⟨congrArg Restored.computedAt h, congrArg Restored.dataAsOf h⟩
  · rintro ⟨hcomputed, hdata⟩
    rw [hcomputed, hdata]
    rfl

theorem opened_readable {r : SnapshotRow} {q : PayloadRow} {payload : Bytes} {scorePayload : Option Bytes}
    (hvalues : rowValues r = p.snapshotValues) (hpayload : bytesOf q.membershipBlob = .ok payload)
    (hscore : q.scoreBlob.mapM bytesOf = .ok scorePayload) :
    opened P (r, q) =
      if P.sha256 payload ≠ P.sha256 p.membershipPayload then
        .error (.valueError s!"[E201] corrupt membership payload for {r.contextId}@{r.version}.")
      else if scorePayload.any (fun b => P.sha256 b ≠ P.sha256 p.scorePayload) then
        .error (.valueError s!"[E201] corrupt score payload for {r.contextId}@{r.version}.")
      else
        (P.decodeScores scorePayload).map (fun scores => { readBack p with payload, scores }) := by
  have hcomputed : datetime (some r.computedAt) = .ok (p.snapshot.computedAt.map assumeUtc) :=
    (congrArg datetime (congrArg SnapshotValues.computedAt hvalues)).trans (datetime_iso _)
  have hdata : datetime (some r.dataAsOf) = .ok (p.snapshot.dataAsOf.map assumeUtc) :=
    (congrArg datetime (congrArg SnapshotValues.dataAsOf hvalues)).trans (datetime_iso _)
  have hsha : r.membershipSha256 = some (P.sha256 p.membershipPayload) :=
    congrArg SnapshotValues.membershipSha256 hvalues
  have hsha' : r.scoreSha256 = some (P.sha256 p.scorePayload) :=
    congrArg SnapshotValues.scoreSha256 hvalues
  have hkind : some r.storageKind = p.snapshot.storageKind := congrArg SnapshotValues.storageKind hvalues
  have hid : r.contextId = p.entry.contextId := congrArg SnapshotValues.contextId hvalues
  have hversion : r.version = p.snapshot.version := congrArg SnapshotValues.version hvalues
  have hhash : r.definitionHash = p.snapshot.definitionHash := congrArg SnapshotValues.definitionHash hvalues
  have hmark : r.sourceWatermark = p.snapshot.sourceWatermark := congrArg SnapshotValues.sourceWatermark hvalues
  rw [opened, hpayload, hscore]
  simp only [hsha, hsha', hcomputed, hdata, hid, hversion, hhash, hmark, bind, Except.bind, Option.some_inj,
    ne_eq]
  split
  · rfl
  · split
    · rfl
    · cases P.decodeScores scorePayload with
      | error e => rfl
      | ok scores => simp [Except.map, pure, Except.pure, readBack, restoredOf, ← hkind]

theorem opened_holds (hscores : ScoresReadBack p)
    {r : SnapshotRow} {q : PayloadRow} (hvalues : rowValues r = p.snapshotValues)
    (hmembership : q.membershipBlob = .blob p.membershipPayload)
    (hscore : q.scoreBlob = some (.blob p.scorePayload)) : opened P (r, q) = .ok (readBack p) := by
  have hpayload : bytesOf q.membershipBlob = .ok p.membershipPayload := by
    rw [hmembership]
    rfl
  have hscorePayload : q.scoreBlob.mapM bytesOf = .ok (some p.scorePayload) := by
    rw [hscore]
    rfl
  rw [ScoresReadBack] at hscores
  rw [opened_readable hvalues hpayload hscorePayload, hscores, if_neg (by simp), if_neg (by simp)]
  rfl

end Kept

end ContextqlServer.Db.Hydration
