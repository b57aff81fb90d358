import Mathlib.Data.Finset.Insert
import Mathlib.Data.Finset.Image
import Mathlib.Data.Finset.Lattice.Basic

namespace ContextqlServer.Db.Synchronization

structure SyncStateRow where
  contextId : String
  committedWatermark : Option String
  orderingBoundary : Option String
  deriving DecidableEq

structure SyncEventRow where
  contextId : String
  eventId : String
  watermark : String
  deriving DecidableEq

/-- The tables `context_sync_state` and `context_sync_events`. -/
structure SyncTables where
  contextSyncState : List SyncStateRow
  contextSyncEvents : List SyncEventRow
  deriving DecidableEq

namespace SyncTables

variable (t : SyncTables)

def load (contextId : String) : Option String × Finset String :=
  ((t.contextSyncState.find? (fun r => r.contextId = contextId)).bind (fun r => r.committedWatermark),
    ((t.contextSyncEvents.filter (fun r => r.contextId = contextId)).map (fun r => r.eventId)).toFinset)

/-- `INSERT OR IGNORE INTO context_sync_events`: the key is (context_id, event_id). -/
def insertEvent (contextId eventId watermark : String) : SyncTables :=
  if t.contextSyncEvents.any (fun r => r.contextId = contextId && r.eventId = eventId) then t
  else { t with contextSyncEvents := t.contextSyncEvents ++ [⟨contextId, eventId, watermark⟩] }

/-- `INSERT INTO context_sync_state ... ON CONFLICT(context_id) DO UPDATE`. -/
def upsertState (contextId watermark : String) : SyncTables :=
  if t.contextSyncState.any (fun r => r.contextId = contextId) then
    { t with contextSyncState := t.contextSyncState.map (fun r =>
        if r.contextId = contextId then
          { r with committedWatermark := some watermark, orderingBoundary := some watermark }
        else r) }
  else
    { t with contextSyncState :=
        t.contextSyncState ++ [⟨contextId, some watermark, some watermark⟩] }

/-- What a `commit` that goes through leaves in the two tables. -/
def commit (contextId watermark : String) (eventWatermarks : List (String × String)) : SyncTables :=
  (eventWatermarks.foldl (fun t e => t.insertEvent contextId e.1 e.2) t).upsertState contextId
    watermark

@[simp] theorem insertEvent_state (contextId eventId watermark : String) :
    (t.insertEvent contextId eventId watermark).contextSyncState = t.contextSyncState := by
  rw [insertEvent]
  split <;> rfl

@[simp] theorem upsertState_events (contextId watermark : String) :
    (t.upsertState contextId watermark).contextSyncEvents = t.contextSyncEvents := by
  rw [upsertState]
  split <;> rfl

theorem insertEvent_load (contextId eventId watermark : String) :
    (t.insertEvent contextId eventId watermark).load contextId =
      ((t.load contextId).1, insert eventId (t.load contextId).2) := by
  rw [load, insertEvent_state]
  refine Prod.ext rfl ?_
  rw [insertEvent]
  split
  · rename_i h
    obtain ⟨r, hr, h⟩ := List.any_eq_true.mp h
    have h' : r.contextId = contextId ∧ r.eventId = eventId := by simpa using h
    refine (Finset.insert_eq_self.mpr ?_).symm
    refine List.mem_toFinset.mpr (List.mem_map.mpr ?_)
    exact ⟨r, List.mem_filter.mpr ⟨hr, by simpa using h'.1⟩, h'.2⟩
  · ext x
    simp [load]

theorem upsertState_load (contextId watermark : String) :
    (t.upsertState contextId watermark).load contextId =
      (some watermark, (t.load contextId).2) := by
  rw [load, upsertState_events]
  refine Prod.ext ?_ rfl
  rw [upsertState]
  split
  · rename_i h
    dsimp only
    generalize t.contextSyncState = rows at h ⊢
    induction rows with
    | nil => simp at h
    | cons r rows ih =>
      by_cases hr : r.contextId = contextId
      · simp [hr]
      · simpa [hr] using ih (by simpa [hr] using h)
  · rename_i h
    have hnone : t.contextSyncState.find? (fun r => r.contextId = contextId) = none := by
      simpa [List.find?_eq_none] using h
    simp [List.find?_append, hnone]

theorem commit_load (contextId watermark : String) (eventWatermarks : List (String × String)) :
    (t.commit contextId watermark eventWatermarks).load contextId =
      (some watermark, (t.load contextId).2 ∪ (eventWatermarks.map Prod.fst).toFinset) := by
  rw [commit, upsertState_load]
  congr 1
  induction eventWatermarks generalizing t with
  | nil => simp
  | cons e es ih =>
    rw [List.foldl_cons, ih, insertEvent_load]
    ext x
    simp

theorem commit_load_ne {contextId other : String} (h : contextId ≠ other) (watermark : String)
    (eventWatermarks : List (String × String)) :
    (t.commit contextId watermark eventWatermarks).load other = t.load other := by
  have hevent : ∀ (t : SyncTables) (e : String × String),
      (t.insertEvent contextId e.1 e.2).load other = t.load other := by
    intro t e
    rw [insertEvent]
    split
    · rfl
    · simp [load, h]
  have hupsert : ∀ t : SyncTables, (t.upsertState contextId watermark).load other = t.load other := by
    intro t
    rw [upsertState]
    split
    · have hfind : ∀ rows : List SyncStateRow, ((rows.map (fun r =>
          if r.contextId = contextId then
            { r with committedWatermark := some watermark, orderingBoundary := some watermark }
          else r)).find? (fun r => r.contextId = other)) = rows.find? (fun r => r.contextId = other) := by
        intro rows
        induction rows with
        | nil => rfl
        | cons r rows ih =>
          by_cases hr : r.contextId = contextId
          · have hne : r.contextId ≠ other := hr ▸ h
            simp [hr, h, ih]
          · by_cases ho : r.contextId = other <;> simp [hr, ho, ih, Ne.symm h]
      simp [load, hfind]
    · simp [load, List.find?_append, h]
  rw [commit, hupsert]
  induction eventWatermarks generalizing t with
  | nil => rfl
  | cons e es ih => rw [List.foldl_cons, ih, hevent]

end SyncTables

end ContextqlServer.Db.Synchronization
