import ContextqlServer.Db.Calls

namespace ContextqlServer.Db.Shelf

open ContextqlServer.Lib.Effect ContextqlServer.Lib.Isoformat ContextqlServer.Lib.Sql
open ContextqlServer.Db.Schema ContextqlServer.Db.Statements ContextqlServer.Db.ContextCatalog
open ContextqlServer.Db.ContextCatalog.SQLiteContextRuntimeRepository ContextqlServer.Db.Calls

variable {P : Packages} {t t' : Tables}

/-- The columns of a row as `promote_snapshot` gives them. -/
def rowValues (r : SnapshotRow) : SnapshotValues :=
  { r with
    storageKind := some r.storageKind, memberCount := some r.memberCount
    computedAt := some r.computedAt, dataAsOf := some r.dataAsOf, validFrom := some r.validFrom }

structure RowOf (p : Promotion P) (row : SnapshotRow) : Prop where
  values : rowValues row = p.snapshotValues
  state : row.state = .current
  validTo : row.validTo = none

namespace RowOf

variable {p : Promotion P} {row : SnapshotRow}

theorem contextId (h : RowOf p row) : row.contextId = p.entry.contextId :=
  congrArg SnapshotValues.contextId h.values

theorem version (h : RowOf p row) : row.version = p.snapshot.version :=
  congrArg SnapshotValues.version h.values

theorem computedAt (h : RowOf p row) : iso p.snapshot.computedAt = some row.computedAt :=
  (congrArg SnapshotValues.computedAt h.values).symm

end RowOf

/-- What a promotion makes of the other rows. -/
def supersededBy (row r : SnapshotRow) : SnapshotRow :=
  if r.contextId = row.contextId ∧ r.state = .current then
    { r with state := .superseded, validTo := some row.computedAt }
  else r

def insertEvents (p : Promotion P) (t : Tables) : Tables :=
  p.historyEvents.foldl (fun t e => insertEvent t (p.eventValues e)) t

structure Promoted (p : Promotion P) (row : SnapshotRow) (t t' : Tables) : Prop where
  inserted : RowOf p row
  fresh : ∀ r ∈ t.contextSnapshots, r.contextId = p.entry.contextId → r.version ≠ p.snapshot.version
  snapshots : t'.contextSnapshots = t.contextSnapshots.map (supersededBy row) ++ [row]
  payloads : ∃ now, t'.contextSnapshotPayloads = t.contextSnapshotPayloads ++
    [⟨p.entry.contextId, p.snapshot.version, .blob p.membershipPayload, some (.blob p.scorePayload), now⟩]
  contexts : ∃ now, t'.contexts = (Statements.pointContext t now p.snapshot.version
    (iso p.entry.lastRefreshedAt) (iso p.entry.dataAsOf) p.entry.contextId p.entry.version).contexts
  history : t'.contextMembershipHistory = (insertEvents p t).contextMembershipHistory

section Statements

variable {a : Ambient}

theorem insertPayload_ok {contextId : String} {version : Int} {m s : Bytes}
    (h : (Statement.insertPayload contextId version m s).run a t = .ok t') :
    t' = { t with contextSnapshotPayloads := t.contextSnapshotPayloads ++
      [⟨contextId, version, .blob m, some (.blob s), a.now.strftime⟩] } :=
  (bind_unique_ok (Statement.run_ok.mp h).2).2

theorem insertSnapshot_ok {v : SnapshotValues} (h : (Statement.insertSnapshot v).run a t = .ok t') :
    ∃ r : SnapshotRow, rowValues r = v ∧ r.validTo = none ∧ r.state = .building ∧
      (∀ r' ∈ t.contextSnapshots, r'.contextId = v.contextId → r'.version ≠ v.version) ∧
      t' = { t with contextSnapshots := t.contextSnapshots ++ [r] } := by
  obtain ⟨-, h⟩ := Statement.run_ok.mp h
  obtain ⟨storageKind, h₁, h⟩ := bind_eq_ok.mp h
  obtain ⟨memberCount, h₂, h⟩ := bind_eq_ok.mp h
  obtain ⟨computedAt, h₃, h⟩ := bind_eq_ok.mp h
  obtain ⟨dataAsOf, h₄, h⟩ := bind_eq_ok.mp h
  obtain ⟨validFrom, h₅, h⟩ := bind_eq_ok.mp h
  obtain ⟨hu, rfl⟩ := bind_unique_ok h
  refine ⟨_, ?_, rfl, rfl, ?_, rfl⟩
  · simp only [rowValues, ← notNull_ok.mp h₁, ← notNull_ok.mp h₂, ← notNull_ok.mp h₃,
      ← notNull_ok.mp h₄, ← notNull_ok.mp h₅]
  · simpa using hu

theorem makeCurrent_ok {contextId : String} {version : Int}
    (h : (Statement.makeCurrent contextId version).run a t = .ok t') :
    t' = { t with contextSnapshots := t.contextSnapshots.map (fun r =>
      if r.contextId = contextId ∧ r.version = version then { r with state := .current } else r) } :=
  (bind_unique_ok (Statement.run_ok.mp h).2).2

end Statements

theorem applies_events {p : Promotion P} {events : List MembershipChange}
    (h : Applies (M := catalog) (events.map (fun e => .insertEvent (p.eventValues e))) t t') :
    t' = events.foldl (fun t e => insertEvent t (p.eventValues e)) t := by
  induction events generalizing t with
  | nil => exact Applies.nil_iff.mp h
  | cons e events ih =>
    obtain ⟨a, t₁, h₁, h⟩ := Applies.cons_iff.mp h
    cases (Statement.run_ok.mp h₁).2
    exact ih h

theorem insertEvent_frame (v : EventValues) (t : Tables) :
    insertEvent t v =
      { t with contextMembershipHistory := (insertEvent t v).contextMembershipHistory } := by
  rw [insertEvent]
  split
  · split <;> rfl
  · rfl

theorem insertEvent_congr (v : EventValues)
    (h : t.contextMembershipHistory = t'.contextMembershipHistory) :
    (insertEvent t v).contextMembershipHistory = (insertEvent t' v).contextMembershipHistory := by
  rw [insertEvent, insertEvent, h]
  split
  · split <;> simp [h]
  · exact h

theorem insertEvents_frame (p : Promotion P) (events : List MembershipChange) (t : Tables) :
    events.foldl (fun t e => insertEvent t (p.eventValues e)) t =
      { t with contextMembershipHistory :=
        (events.foldl (fun t e => insertEvent t (p.eventValues e)) t).contextMembershipHistory } := by
  induction events generalizing t with
  | nil => rfl
  | cons e events ih =>
    rw [List.foldl_cons, ih, insertEvent_frame]

theorem insertEvents_congr (p : Promotion P) (events : List MembershipChange)
    (h : t.contextMembershipHistory = t'.contextMembershipHistory) :
    (events.foldl (fun t e => insertEvent t (p.eventValues e)) t).contextMembershipHistory =
      (events.foldl (fun t e => insertEvent t (p.eventValues e)) t').contextMembershipHistory := by
  induction events generalizing t t' with
  | nil => exact h
  | cons e events ih => exact ih (insertEvent_congr _ h)

/-- What becomes of the rows of `context_snapshots` in a promotion, from its
insertion as `building` to the moment it is current. -/
theorem rows_promoted {rows : List SnapshotRow} {r : SnapshotRow} {contextId : String} {version : Int}
    {validTo : Option String} (hid : r.contextId = contextId) (hversion : r.version = version)
    (hcomputed : some r.computedAt = validTo) (hr : r.state = .building)
    (hfresh : ∀ r' ∈ rows, r'.contextId = contextId → r'.version ≠ version) :
    ((rows ++ [r]).map (fun r' =>
        if r'.contextId = contextId ∧ r'.state = .current then
          { r' with state := .superseded, validTo } else r')).map (fun r' =>
        if r'.contextId = contextId ∧ r'.version = version then { r' with state := .current }
        else r') =
      rows.map (supersededBy { r with state := .current }) ++ [{ r with state := .current }] := by
  subst hid hversion hcomputed
  rw [List.map_append, List.map_append, List.map_map]
  congr 1
  · apply List.map_congr_left
    intro r' hr'
    have hne := hfresh r' hr'
    simp only [Function.comp_apply, supersededBy]
    split
    · rename_i hc
      rw [if_neg (fun h => hne hc.1 h.2)]
    · rw [if_neg (fun h => hne h.1 h.2)]
  · simp [hr]

theorem Promoted.of_applies {p : Promotion P} (h : Applies (M := catalog) p.statements t t') :
    ∃ row, Promoted p row t t' := by
  obtain ⟨a₁, t₁, h₁, h⟩ := Applies.cons_iff.mp h
  obtain ⟨a₂, t₂, h₂, h⟩ := Applies.cons_iff.mp h
  obtain ⟨a₃, t₃, h₃, h⟩ := Applies.cons_iff.mp h
  obtain ⟨a₄, t₄, h₄, h⟩ := Applies.cons_iff.mp h
  obtain ⟨a₅, t₅, h₅, h⟩ := Applies.cons_iff.mp h
  obtain rfl := insertPayload_ok (a := a₁) h₁
  obtain ⟨r, hvalues, hvalidTo, hstate, hfresh, rfl⟩ := insertSnapshot_ok (a := a₂) h₂
  cases (Statement.run_ok.mp h₃).2
  obtain rfl := makeCurrent_ok (a := a₄) h₄
  cases (Statement.run_ok.mp h₅).2
  obtain rfl := applies_events h
  have hid : r.contextId = p.entry.contextId := congrArg SnapshotValues.contextId hvalues
  have hversion : r.version = p.snapshot.version := congrArg SnapshotValues.version hvalues
  have hcomputed : some r.computedAt = iso p.snapshot.computedAt :=
    congrArg SnapshotValues.computedAt hvalues
  refine ⟨{ r with state := .current }, ⟨hvalues, rfl, hvalidTo⟩, hfresh, ?_, ?_, ?_, ?_⟩
  · rw [insertEvents_frame]
    exact rows_promoted hid hversion hcomputed hstate hfresh
  · rw [insertEvents_frame]
    exact ⟨_, rfl⟩
  · rw [insertEvents_frame]
    exact ⟨_, rfl⟩
  · exact insertEvents_congr p _ rfl

/-- What a pruning with the anchor at `version` makes of the tables. -/
def pruned (t : Tables) (contextId : String) (version : Int) (cutoff : Option Datetime) : Tables :=
  deleteEvents (deleteSnapshots (deletePayloads t contextId version) contextId version) contextId
    (iso cutoff)

theorem applies_prune {contextId : String} {version : Int} {cutoff : Option Datetime} :
    Applies (M := catalog) (pruneStatements contextId version cutoff) t t' →
      t' = pruned t contextId version cutoff := by
  intro h
  obtain ⟨a₁, t₁, h₁, h⟩ := Applies.cons_iff.mp h
  obtain ⟨a₂, t₂, h₂, h⟩ := Applies.cons_iff.mp h
  obtain ⟨a₃, t₃, h₃, h⟩ := Applies.cons_iff.mp h
  cases (Statement.run_ok.mp h₁).2
  cases (Statement.run_ok.mp h₂).2
  cases (Statement.run_ok.mp h₃).2
  exact Applies.nil_iff.mp h

theorem prune_cases {entry : ContextCatalogEntry P} {cutoff : Option Datetime}
    (h : (Call.prune entry cutoff).Effect t t') :
    (anchor t entry.contextId (iso cutoff) = none ∧ t' = t) ∨
      ∃ version, anchor t entry.contextId (iso cutoff) = some version ∧
        t' = pruned t entry.contextId version cutoff := by
  simp only [Call.Effect] at h
  split at h
  · rename_i ha
    exact .inl ⟨ha, h⟩
  · rename_i version ha
    exact .inr ⟨version, ha, applies_prune h⟩

end ContextqlServer.Db.Shelf
