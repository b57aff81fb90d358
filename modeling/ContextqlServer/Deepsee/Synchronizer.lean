import ContextqlServer.Deepsee.Store

namespace ContextqlServer.Deepsee.Synchronizer

open ContextqlServer.Lib.Effect ContextqlServer.Lib.Mapping ContextqlServer.Lib.Python
open ContextqlServer.Db.Synchronization
open ContextqlServer.Deepsee.Models ContextqlServer.Deepsee.MockService
open ContextqlServer.Deepsee.Client ContextqlServer.Deepsee.Store

def maxPages : Nat := 10000

def parseWatermark (value : Option String) : Except Exn Int :=
  match value.bind int with
  | some n => .ok n
  | none => .error (contractError ("Malformed watermark " ++ (value.map quoted).getD "None" ++
      "; expected an integer string."))

structure SyncReport where
  appliedAdditions : Nat
  appliedRemovals : Nat
  appliedScoreChanges : Nat
  duplicatesSkipped : Nat
  outOfOrderRejected : Nat
  committedWatermark : String

/-- Net effect of an ordered event sequence. -/
structure FoldedChanges where
  additions : Dict Int Float64
  removals : Finset Int
  scoreChanges : Dict Int Float64

def FoldedChanges.empty : FoldedChanges := ⟨∅, ∅, ∅⟩

/-- One event of `_fold_events`. -/
def foldEvent (f : FoldedChanges) (event : ChangeEvent) : Except Exn FoldedChanges :=
  match event.changeType with
  | .added =>
    .ok { f with
      additions := f.additions.insert event.entityId ((event.score.getD 0).orOne)
      removals := f.removals.erase event.entityId }
  | .removed =>
    .ok {
      removals := insert event.entityId f.removals
      additions := f.additions.erase event.entityId
      scoreChanges := f.scoreChanges.erase event.entityId }
  | .scoreChanged =>
    match event.score with
    | none => .error (contractError ("score_changed event " ++ event.eventId ++ " carries no score."))
    | some score =>
      if event.entityId ∈ f.additions then
        .ok { f with additions := f.additions.insert event.entityId score }
      else
        .ok { f with scoreChanges := f.scoreChanges.insert event.entityId score }

/-- Fold an ordered event sequence into its net delta. -/
def foldEvents (ordered : List ChangeEvent) : Except Exn FoldedChanges :=
  ordered.foldlM foldEvent .empty

/-- `sorted(events, key=lambda e: parse_watermark(e.watermark))`. -/
def sortedByWatermark (events : List ChangeEvent) : Except Exn (List ChangeEvent) := do
  let keyed ← events.mapM (fun e => do return (← parseWatermark (some e.watermark), e))
  return (keyed.insertionSort (fun a b => a.1 ≤ b.1)).map Prod.snd

structure DeepSeeSynchronizer where
  client : DeepSeeClient
  contextId : String
  /-- `hasattr(store, "stage_snapshot")`. -/
  stagesSnapshots : Bool
  /-- `hasattr(store, "stage_delta")`. -/
  stagesDeltas : Bool
  /-- `state_repository is not None`. -/
  stateRepository : Bool
  committedWatermark : Option String
  seenEventIds : Finset String

namespace DeepSeeSynchronizer

variable (self : DeepSeeSynchronizer)

/-- `__init__`: the same wiring over what the state repository holds now. -/
def init (durable : SyncTables) : DeepSeeSynchronizer :=
  if self.stateRepository then
    { self with
      committedWatermark := (durable.load self.contextId).1
      seenEventIds := (durable.load self.contextId).2 }
  else
    { self with committedWatermark := none, seenEventIds := ∅ }

theorem init_eq {self : DeepSeeSynchronizer} {durable : SyncTables}
    (hrepo : self.stateRepository = true)
    (h : durable.load self.contextId = (self.committedWatermark, self.seenEventIds)) :
    self.init durable = self := by
  rw [init, if_pos hrepo, h]

/-- The body of the `while` loop of `_collect_id_pages`, with the pages still allowed. -/
def collectIdPagesLoop (remaining : Nat) (members : List Int) (scores : Dict Int Float64)
    (dataAsOf : WireTime) (watermark : String) (cursor : Option String) :
    SyncProg (List Int × Dict Int Float64 × WireTime × String) :=
  match cursor with
  | none => pure (members, scores, dataAsOf, watermark)
  | some cursor =>
    match remaining with
    | 0 => throw (contractError ("Snapshot pagination exceeded " ++ toString maxPages ++
        " pages; refusing unbounded cursor chain."))
    | remaining + 1 => do
      let page ← fetchSnapshot self.client (some cursor)
      collectIdPagesLoop remaining (members ++ page.entityIds.getD []) (page.scores ∪ scores)
        page.dataAsOf page.watermark page.nextCursor

def collectIdPages (firstPage : SnapshotPage) :
    SyncProg (List Int × Dict Int Float64 × WireTime × String) :=
  self.collectIdPagesLoop (maxPages - 1) (firstPage.entityIds.getD []) firstPage.scores
    firstPage.dataAsOf firstPage.watermark firstPage.nextCursor

def ingest : SyncProg (Finset Int × Dict Int Float64 × WireTime × String) := do
  let firstPage ← fetchSnapshot self.client none
  match firstPage.membershipBitmap with
  | some _ =>
    let members ← Prog.ofExcept (self.client.decodeMembershipBitmap firstPage)
    pure (members, firstPage.scores, firstPage.dataAsOf, firstPage.watermark)
  | none =>
    let (members, scores, dataAsOf, watermark) ← self.collectIdPages firstPage
    pure (members.toFinset, scores, dataAsOf, watermark)

def publishSnapshot (staged : MembershipSnapshot) : SyncProg MembershipSnapshot :=
  if self.stagesSnapshots then do
    let staged ← stageSnapshot staged
    commitSnapshot staged
  else putSnapshot staged

def publishDelta (delta : Delta) : SyncProg MembershipSnapshot :=
  if self.stagesDeltas then do
    let staged ← stageDelta delta
    commitSnapshot staged
  else applyDelta delta

def bootstrap (now : Timestamp) : SyncProg (MembershipSnapshot × DeepSeeSynchronizer) := do
  let (members, scores, dataAsOf, watermark) ← self.ingest
  let dataAsOf ← Prog.ofExcept (parseIso dataAsOf)
  let staged : MembershipSnapshot :=
    { members, scores, computedAt := now, dataAsOf, sourceWatermark := watermark }
  let snapshot ← self.publishSnapshot staged
  if self.stateRepository then
    commitState self.contextId watermark []
  pure (snapshot, { self with committedWatermark := some watermark })

/-- The loop of `_fetch_all_changes`, with the pages still allowed. -/
def fetchAllChangesLoop (committed : String) (remaining : Nat) (events : List ChangeEvent)
    (cursor : Option String) : SyncProg (List ChangeEvent × WireTime) :=
  match remaining with
  | 0 => throw (contractError ("Change-feed pagination exceeded " ++ toString maxPages ++
      " pages; refusing unbounded cursor chain."))
  | remaining + 1 => do
    let batch ← fetchChanges self.client committed cursor
    match batch.nextCursor with
    | none => pure (events ++ batch.events, batch.dataAsOf)
    | some cursor => fetchAllChangesLoop committed remaining (events ++ batch.events) (some cursor)

def fetchAllChanges (committed : String) : SyncProg (List ChangeEvent × WireTime) :=
  self.fetchAllChangesLoop committed maxPages [] none

/-- What `_filter_events` has counted and kept so far. -/
structure Filtered where
  applicable : List ChangeEvent
  batchEventIds : Finset String
  duplicates : Nat
  outOfOrder : Nat

/-- One event of `_filter_events`. -/
def filterEvent (boundary : Int) (f : Filtered) (event : ChangeEvent) : Except Exn Filtered :=
  if event.eventId ∈ self.seenEventIds ∨ event.eventId ∈ f.batchEventIds then
    .ok { f with duplicates := f.duplicates + 1 }
  else do
    let watermark ← parseWatermark (some event.watermark)
    if watermark ≤ boundary then
      return { f with outOfOrder := f.outOfOrder + 1 }
    else
      return { f with
        batchEventIds := insert event.eventId f.batchEventIds
        applicable := f.applicable ++ [event] }

/-- `self._committed_watermark or "0"`. -/
def boundaryText : String :=
  match self.committedWatermark with
  | none | some "" => "0"
  | some watermark => watermark

def filterEvents (events : List ChangeEvent) : Except Exn Filtered := do
  let boundary ← parseWatermark (some self.boundaryText)
  events.foldlM (self.filterEvent boundary) ⟨[], ∅, 0, 0⟩

/-- `sync_once` from the ordered events on: fold, publish, commit. -/
def applyOrdered (ordered : List ChangeEvent) (dataAsOf : WireTime) (duplicates outOfOrder : Nat)
    (now : Timestamp) : SyncProg (SyncReport × DeepSeeSynchronizer) := do
  let folded ← Prog.ofExcept (foldEvents ordered)
  let newWatermark ← Prog.ofExcept (match ordered.getLast? with
    | some e => Except.ok e.watermark
    | none => .error (.indexError "list index out of range"))
  let dataAsOf ← Prog.ofExcept (parseIso dataAsOf)
  let delta : Delta :=
    { additions := sorted folded.additions.keys
      removals := sorted folded.removals
      scoreChanges := folded.scoreChanges ∪ folded.additions
      computedAt := now
      dataAsOf
      sourceWatermark := newWatermark }
  let _ ← self.publishDelta delta
  if self.stateRepository then
    commitState self.contextId newWatermark (items (ordered.map (fun e => (e.eventId, e.watermark))))
  pure (
    { appliedAdditions := folded.additions.keys.card
      appliedRemovals := folded.removals.card
      appliedScoreChanges := folded.scoreChanges.keys.card
      duplicatesSkipped := duplicates
      outOfOrderRejected := outOfOrder
      committedWatermark := newWatermark },
    { self with
      committedWatermark := some newWatermark
      seenEventIds := self.seenEventIds ∪ (ordered.map (fun e => e.eventId)).toFinset })

/-- Pull, deduplicate, order-check, and apply pending changes. -/
def syncOnce (now : Timestamp) : SyncProg (SyncReport × DeepSeeSynchronizer) :=
  match self.committedWatermark with
  | none => throw (contractError "Synchronizer requires bootstrap() before sync_once().")
  | some committed => do
    let (events, dataAsOf) ← self.fetchAllChanges committed
    let filtered ← Prog.ofExcept (self.filterEvents events)
    if filtered.applicable.isEmpty then
      pure ({ appliedAdditions := 0
              appliedRemovals := 0
              appliedScoreChanges := 0
              duplicatesSkipped := filtered.duplicates
              outOfOrderRejected := filtered.outOfOrder
              committedWatermark := committed }, self)
    else do
      let ordered ← Prog.ofExcept (sortedByWatermark filtered.applicable)
      self.applyOrdered ordered dataAsOf filtered.duplicates filtered.outOfOrder now

end DeepSeeSynchronizer

end ContextqlServer.Deepsee.Synchronizer
