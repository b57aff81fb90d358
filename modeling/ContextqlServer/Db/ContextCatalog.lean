import ContextqlServer.Db.Services
import ContextqlServer.Lib.Mapping
import Mathlib.Data.Prod.Lex

namespace ContextqlServer.Db.ContextCatalog

open ContextqlServer.Lib.Effect ContextqlServer.Lib.Isoformat ContextqlServer.Lib.JsonText
open ContextqlServer.Lib.Mapping ContextqlServer.Lib.Python ContextqlServer.Lib.Sql
open ContextqlServer.Db.Schema ContextqlServer.Db.Statements ContextqlServer.Db.Services

/-- What the repository uses of `hashlib` and `uuid` and of the `contextql` package:
the codec of scores, the type of entity keys and the materialization settings. -/
structure Packages where
  floatText : FloatText
  sha256 : Bytes → String
  uuid5 : String → Uuid
  encodeScores : Dict Int Float64 → Bytes
  decodeScores : Option Bytes → Except DbError (Dict Int Float64)
  EntityKeyType : Type
  keyTypeValue : EntityKeyType → String
  keyTypeOf : String → Option EntityKeyType
  keyTypeUnknown : EntityKeyType
  MaterializationSettings : Type
  asdict : MaterializationSettings → List (String × Json)
  settingsOf : List (String × Json) → Except DbError MaterializationSettings

structure ContextCompositionItem where
  name : Json
  weight : Json

structure ContextComposition where
  strategy : Json
  items : List ContextCompositionItem

structure ContextCatalogEntry (P : Packages) where
  name : String
  namespaceName : String
  contextId : String
  version : Int
  definitionHash : Option String
  entityKeyName : Option String
  entityKeyType : P.EntityKeyType
  hasScore : Bool
  isTemporal : Bool
  lifecycleState : String
  materialization : P.MaterializationSettings
  currentSnapshotVersion : Option Int
  lastRefreshedAt : Option Datetime
  dataAsOf : Option Datetime
  description : Option String
  tags : Json
  dependencies : Json
  definitionSql : Option String
  composition : Option ContextComposition
  scoreExpression : Option String
  temporalColumn : Option String
  temporalGranularity : Option String
  sourceKind : String
  historyAvailableFrom : Option Datetime
  lastRefreshError : Option String

/-- What `promote_snapshot` reads of the snapshot it is given. -/
structure Snapshot where
  version : Int
  storageKind : Option String
  memberCount : Option Int
  computedAt : Option Datetime
  dataAsOf : Option Datetime
  validFrom : Option Datetime
  definitionHash : Option String
  sourceWatermark : Option String

structure MembershipChange where
  contextId : String
  entityId : Int
  changeType : String
  recordedAt : Option Datetime
  effectiveAt : Option Datetime
  contextVersion : Int
  source : String
  evidenceRef : Option String
  previousScore : Option Float64
  newScore : Option Float64
  deriving DecidableEq

section Conversions

def iso (d : Option Datetime) : Option String := d.map Datetime.isoformat

def utc : Int := 0

def assumeUtc (d : Datetime) : Datetime :=
  if d.fields.utcoffset = none then
    ⟨{ d.fields with utcoffset := some utc }, { d.valid with utcoffset := by rintro _ ⟨⟩; decide }⟩
  else d

def replaceZ (s : String) : String :=
  .ofList (s.toList.flatMap (fun c => if c = 'Z' then "+00:00".toList else [c]))

def datetime (value : Option String) : Except DbError (Option Datetime) :=
  match value with
  | none | some "" => pure none
  | some s =>
    match fromisoformat (replaceZ s) with
    | some d => pure (some (assumeUtc d))
    | none => throw (.valueError s!"Invalid isoformat string: {quoted s}")

/-- `value or default` of a column. -/
def orElse (value : Option String) (default : String) : String :=
  match value with
  | none | some "" => default
  | some s => s

def jsonOf (P : Packages) (text : String) : Except DbError Json :=
  match loads P.floatText text with
  | some j => pure j
  | none => throw (.valueError "Expecting value")

/-- `bytes(value)` of a blob column. -/
def bytesOf : Cell → Except DbError Bytes
  | .blob b => pure b
  | .integer n =>
    if n < 0 then throw (.valueError "negative count") else pure (List.replicate n.toNat 0)
  | .real _ => throw (.typeError "cannot convert 'float' object to bytes")
  | .text _ => throw (.typeError "string argument without an encoding")

/-- `raw[key]` -/
def item (key : String) : Json → Except DbError Json
  | .obj members =>
    match members.lookup key with
    | some j => pure j
    | none => throw (.keyError key)
  | _ => throw (.typeError "indices must be integers")

/-- `raw.get(key)` -/
def member (key : String) : Json → Except DbError Json
  | .obj members => pure ((members.lookup key).getD .null)
  | _ => throw (.typeError "object has no attribute 'get'")

def iterate : Json → Except DbError (List Json)
  | .arr items => pure items
  | .obj members => pure (members.map (fun m => .str m.1))
  | .str s => pure (s.toList.map (fun c => .str (String.singleton c)))
  | _ => throw (.typeError "object is not iterable")

end Conversions

variable (P : Packages)

namespace ContextComposition

def encode (c : ContextComposition) : Json :=
  .obj [("strategy", c.strategy),
    ("items", .arr (c.items.map (fun i => .obj [("name", i.name), ("weight", i.weight)])))]

def decode (raw : Json) : Except DbError ContextComposition := do
  let strategy ← item "strategy" raw
  let items ← item "items" raw >>= iterate
  let items ← items.mapM (fun i => do
    pure (⟨← item "name" i, ← member "weight" i⟩ : ContextCompositionItem))
  pure ⟨strategy, items⟩

end ContextComposition

/-- The columns of an entry, with `definition_text` as the executable definition. -/
def ContextCatalogEntry.values {P : Packages} (e : ContextCatalogEntry P) (rawDdl : Option String) :
    ContextValues where
  name := e.name
  namespaceName := e.namespaceName
  version := e.version
  definitionText := e.definitionSql.getD ""
  entityKey := e.entityKeyName
  entityKeyType := some (P.keyTypeValue e.entityKeyType)
  hasScore := if e.hasScore then 1 else 0
  scoreColumn := e.scoreExpression
  description := e.description
  tags := some (dumps P.floatText e.tags)
  lifecycleState := e.lifecycleState
  dependencyRefs := some (dumps P.floatText e.dependencies)
  contextId := some e.contextId
  definitionHash := e.definitionHash
  rawDdl := rawDdl
  materializationJson := some (dumps P.floatText (.obj (P.asdict e.materialization)))
  currentSnapshotVersion := e.currentSnapshotVersion
  lastRefreshedAt := iso e.lastRefreshedAt
  dataAsOf := iso e.dataAsOf
  lastRefreshError := e.lastRefreshError
  historyAvailableFrom := iso e.historyAvailableFrom
  definitionSql := e.definitionSql
  scoreExpression := e.scoreExpression
  compositionJson := e.composition.map (fun c => dumps P.floatText c.encode)
  temporalColumn := e.temporalColumn
  temporalGranularity := e.temporalGranularity
  sourceKind := e.sourceKind

/-- `MaterializationSettings(**data)` -/
def settings (data : Json) : Except DbError P.MaterializationSettings :=
  match data with
  | .obj members => P.settingsOf members
  | _ => throw (.typeError "argument after ** must be a mapping")

/-- `_entry_from_row` of a row that has a context id. -/
def entryFromRow (contextId : String) (r : ContextRow) :
    Except DbError (ContextCatalogEntry P) := do
  let materializationData ← jsonOf P (orElse r.materializationJson "\x7b\x7d")
  let composition ← match r.compositionJson with
    | none | some "" => pure none
    | some text => do
      let raw ← jsonOf P text
      pure (some (← ContextComposition.decode raw))
  let keyType := (P.keyTypeOf (orElse r.entityKeyType "UNKNOWN")).getD P.keyTypeUnknown
  let materialization ← settings P materializationData
  let lastRefreshedAt ← datetime r.lastRefreshedAt
  let dataAsOf ← datetime r.dataAsOf
  let tags ← jsonOf P (orElse r.tags "[]")
  let dependencies ← jsonOf P (orElse r.dependencyRefs "[]")
  let historyAvailableFrom ← datetime r.historyAvailableFrom
  pure {
    name := r.name
    namespaceName := orElse (some r.namespaceName) "default"
    contextId
    version := r.version
    definitionHash := r.definitionHash
    entityKeyName := r.entityKey
    entityKeyType := keyType
    hasScore := r.hasScore ≠ 0
    isTemporal := orElse r.temporalColumn "" ≠ ""
    lifecycleState := r.lifecycleState
    materialization
    currentSnapshotVersion := r.currentSnapshotVersion
    lastRefreshedAt
    dataAsOf
    description := r.description
    tags
    dependencies
    definitionSql := r.definitionSql
    composition
    scoreExpression := r.scoreExpression
    temporalColumn := r.temporalColumn
    temporalGranularity := r.temporalGranularity
    sourceKind := orElse (some r.sourceKind) "native"
    historyAvailableFrom
    lastRefreshError := r.lastRefreshError }

/-- A restored snapshot of the external membership store. -/
structure Restored where
  contextId : String
  version : Int
  payload : Bytes
  computedAt : Option Datetime
  dataAsOf : Option Datetime
  definitionHash : Option String
  sourceWatermark : Option String
  scores : Dict Int Float64
  storageKind : String

/-- `deserialize` numbers the snapshots of a context from 1 in the order of its calls. -/
def nextVersion (membership : List Restored) (contextId : String) : Int :=
  (membership.filter (fun r => r.contextId = contextId)).length + 1

section Queries

variable (t : Tables)

def live (contextId : String) : List ContextRow :=
  t.contexts.rows.filter (fun r => r.contextId = some contextId && r.droppedAt.isNone)

def latestRows : List (String × ContextRow) :=
  orderBy (fun r => toLex (r.2.namespaceName, r.2.name)) (t.contexts.rows.filterMap (fun r =>
    r.contextId.bind (fun contextId =>
      if r.droppedAt.isNone ∧ ((live t contextId).map (fun r => r.version)).max? = some r.version then
        some (contextId, r)
      else none)))

/-- The snapshot below which `prune_history` deletes. -/
def anchor (contextId : String) (cutoff : Option String) : Option Int :=
  ((orderBy (fun r => OrderDual.toDual (toLex (r.dataAsOf, r.version)))
    (t.contextSnapshots.filter (fun r =>
      r.contextId = contextId && cutoff.any (fun c => r.dataAsOf ≤ c)))).head?).map (fun r => r.version)

/-- The current and superseded snapshots that have a payload. -/
def stored : List (SnapshotRow × PayloadRow) :=
  orderBy (fun r => toLex (r.1.contextId, r.1.version))
    ((t.contextSnapshots.filter (fun s => s.state ≠ .building)).flatMap (fun s =>
      (t.contextSnapshotPayloads.filter (fun p =>
        p.contextId = s.contextId && p.version = s.version)).map (fun p => (s, p))))

end Queries

/-- One row of `hydrate_runtime`. -/
def restore (membership : List Restored) (row : SnapshotRow × PayloadRow) :
    Except DbError (List Restored) := do
  let membershipPayload ← bytesOf row.2.membershipBlob
  let scorePayload ← row.2.scoreBlob.mapM bytesOf
  if some (P.sha256 membershipPayload) ≠ row.1.membershipSha256 then
    throw (.valueError
      s!"[E201] corrupt membership payload for {row.1.contextId}@{row.1.version}.")
  if scorePayload.any (fun b => some (P.sha256 b) ≠ row.1.scoreSha256) then
    throw (.valueError s!"[E201] corrupt score payload for {row.1.contextId}@{row.1.version}.")
  let computedAt ← datetime (some row.1.computedAt)
  let dataAsOf ← datetime (some row.1.dataAsOf)
  let scores ← P.decodeScores scorePayload
  let restored : Restored := {
    contextId := row.1.contextId
    version := nextVersion membership row.1.contextId
    payload := membershipPayload
    computedAt
    dataAsOf
    definitionHash := row.1.definitionHash
    sourceWatermark := row.1.sourceWatermark
    scores
    storageKind := row.1.storageKind }
  if restored.version ≠ row.1.version then
    throw (.valueError
      s!"[E201] non-contiguous snapshot versions for {row.1.contextId}.")
  pure (membership ++ [restored])

def changeFromRow (r : HistoryRow) : Except DbError MembershipChange := do
  let recordedAt ← datetime (some r.recordedAt)
  let effectiveAt ← datetime (some r.effectiveAt)
  pure {
    contextId := r.contextId
    entityId := r.transactionId
    changeType := r.changeType
    recordedAt
    effectiveAt
    contextVersion := r.contextVersion
    source := r.source
    evidenceRef := r.evidenceRef
    previousScore := r.previousScore
    newScore := r.newScore }

namespace SQLiteContextRuntimeRepository

/-- `_backfill_v2_rows`. Which row of a group the bare column `definition_text` is
read from is not specified: `choice` picks it. -/
def backfillV2Rows (choice : List ContextRow → Nat) : DbProg Unit := do
  let t ← select (M := catalog)
  let rows := t.contexts.rows.filter (fun r => r.contextId = none)
  let groups := (rows.map (fun r => (r.name, r.namespaceName))).dedup
  for g in groups do
    let group := rows.filter (named g.1 g.2)
    let definition := (group[choice group % group.length]?).elim "" (fun r => r.definitionText)
    let ambient ← sense (M := catalog)
    let _ ← execute (M := catalog) (.backfillContext ambient.uuid4.str
      (P.sha256 definition.toUTF8.toList) g.1 g.2)
  commit

def loadContexts : DbProg (List (ContextCatalogEntry P)) := do
  let t ← select (M := catalog)
  Prog.ofExcept ((latestRows t).mapM (fun r => entryFromRow P r.1 r.2))

variable {P}

def saveContext (entry : ContextCatalogEntry P) (rawDdl : Option String) : DbProg Unit := do
  Prog.ofExcept (bindIntegers [entry.version])
  let t ← select (M := catalog)
  let existing := t.contexts.rows.any (atVersion entry.contextId entry.version)
  let _ ← execute (M := catalog)
    (if existing then .updateContext (entry.values rawDdl) else .insertContext (entry.values rawDdl))
  commit

def dropContext (entry : ContextCatalogEntry P) : DbProg Unit := do
  let ambient ← sense (M := catalog)
  let _ ← execute (M := catalog) (.dropContext (iso (some ambient.now)) entry.contextId)
  commit

def recordExecution (contextId : String) (version : Int) (executedAt : Datetime) : DbProg Unit := do
  let _ ← execute (M := catalog) (.recordExecution (iso (some executedAt)) contextId version)
  commit

/-- The arguments of `promote_snapshot`. -/
structure Promotion (P : Packages) where
  entry : ContextCatalogEntry P
  snapshot : Snapshot
  membershipPayload : Bytes
  scores : Dict Int Float64
  historyEvents : List MembershipChange

namespace Promotion

variable (p : Promotion P)

def scorePayload : Bytes := P.encodeScores p.scores

def snapshotValues : SnapshotValues where
  contextId := p.entry.contextId
  version := p.snapshot.version
  storageKind := p.snapshot.storageKind
  memberCount := p.snapshot.memberCount
  serializedBytes := some p.membershipPayload.length
  computedAt := iso p.snapshot.computedAt
  dataAsOf := iso p.snapshot.dataAsOf
  validFrom := iso p.snapshot.validFrom
  definitionHash := p.snapshot.definitionHash
  definitionVersion := some p.entry.version
  sourceWatermark := p.snapshot.sourceWatermark
  membershipSha256 := some (P.sha256 p.membershipPayload)
  scoreSha256 := some (P.sha256 p.scorePayload)

def eventId (event : MembershipChange) : String :=
  (P.uuid5 s!"{p.entry.contextId}:{p.snapshot.version}:{event.entityId}:{event.changeType}").str

def eventValues (event : MembershipChange) : EventValues where
  contextId := p.entry.contextId
  transactionId := event.entityId
  changeType := event.changeType
  recordedAt := iso event.recordedAt
  effectiveAt := iso event.effectiveAt
  contextVersion := event.contextVersion
  definitionVersion := some p.entry.version
  definitionHash := p.entry.definitionHash
  eventId := p.eventId event
  source := event.source
  evidenceRef := event.evidenceRef
  previousScore := event.previousScore
  newScore := event.newScore

/-- The statements of a promotion between its `BEGIN IMMEDIATE` and its commit. -/
def statements : List Statement :=
  [.insertPayload p.entry.contextId p.snapshot.version p.membershipPayload p.scorePayload,
    .insertSnapshot p.snapshotValues,
    .supersede (iso p.snapshot.computedAt) p.entry.contextId,
    .makeCurrent p.entry.contextId p.snapshot.version,
    .pointContext p.snapshot.version (iso p.entry.lastRefreshedAt) (iso p.entry.dataAsOf)
      p.entry.contextId p.entry.version] ++
    p.historyEvents.map (fun e => .insertEvent (p.eventValues e))

end Promotion

def promoteSnapshot (p : Promotion P) : DbProg Unit := immediate (M := catalog) p.statements

/-- The deletions of `prune_history` below its anchor. -/
def pruneStatements (contextId : String) (anchor : Int) (cutoff : Option Datetime) : List Statement :=
  [.deletePayloads contextId anchor, .deleteSnapshots contextId anchor,
    .deleteEvents contextId (iso cutoff)]

def pruneHistory (entry : ContextCatalogEntry P) (cutoff : Option Datetime) : DbProg Unit := do
  let t ← select (M := catalog)
  match anchor t entry.contextId (iso cutoff) with
  | none => pure ()
  | some version => immediate (M := catalog) (pruneStatements entry.contextId version cutoff)

variable (P)

/-- `hydrate_runtime` on a membership store and a history, with what it leaves of them. -/
def hydrateRuntime (membership : List Restored) (history : List MembershipChange) :
    DbProg (List Restored × List MembershipChange) := do
  let t ← select (M := catalog)
  let membership ← Prog.ofExcept ((stored t).foldlM (restore P) membership)
  let t ← select (M := catalog)
  let events ← Prog.ofExcept (t.contextMembershipHistory.mapM changeFromRow)
  pure (membership, history ++ events)

end SQLiteContextRuntimeRepository

end ContextqlServer.Db.ContextCatalog
