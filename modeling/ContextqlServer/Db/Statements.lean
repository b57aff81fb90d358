import ContextqlServer.Db.Schema
import ContextqlServer.Lib.Sql

namespace ContextqlServer.Db.Statements

open ContextqlServer.Lib.Effect ContextqlServer.Lib.Isoformat ContextqlServer.Lib.Python ContextqlServer.Lib.Sql
open ContextqlServer.Db.Schema ContextqlServer.Db.Synchronization

/-- The columns of a snapshot that `promote_snapshot` inserts. -/
structure SnapshotValues where
  contextId : String
  version : Int
  storageKind : Option String
  memberCount : Option Int
  serializedBytes : Option Int
  computedAt : Option String
  dataAsOf : Option String
  validFrom : Option String
  definitionHash : Option String
  definitionVersion : Option Int
  sourceWatermark : Option String
  membershipSha256 : Option String
  scoreSha256 : Option String
  deriving DecidableEq

/-- The columns of a membership event that `promote_snapshot` inserts. -/
structure EventValues where
  contextId : String
  transactionId : Int
  changeType : String
  recordedAt : Option String
  effectiveAt : Option String
  contextVersion : Int
  definitionVersion : Option Int
  definitionHash : Option String
  eventId : String
  source : String
  evidenceRef : Option String
  previousScore : Option Float64
  newScore : Option Float64
  deriving DecidableEq

structure AuditValues where
  timestamp : String
  eventType : String
  actor : String
  namespaceName : String
  resourceType : Option String
  resourceName : Option String
  detail : Option String
  traceId : String
  deriving DecidableEq

structure ProviderValues where
  name : String
  namespaceName : String
  providerType : String
  endpoint : Option String
  timeoutMs : Int
  entityKeyType : Option String
  trustTier : String
  deriving DecidableEq

structure IdentityMapValues where
  name : String
  namespaceName : String
  sourceSystem : String
  sourceEntityPath : String
  targetSystem : String
  targetEntityPath : String
  matchingMode : String
  confidence : Float64
  description : Option String
  deriving DecidableEq

/-- The columns that `ProviderService.update` sets, those present among its arguments. -/
structure ProviderUpdate where
  endpoint : Option (Option String)
  timeoutMs : Option (Option Int)
  entityKeyType : Option (Option String)
  trustTier : Option (Option String)
  credentialsRef : Option (Option String)
  resourceShape : Option (Option String)
  deriving DecidableEq

/-- What the services do to one row of `providers`. -/
inductive ProviderChange where
  | update (u : ProviderUpdate)
  | healthy
  | unhealthy
  | setEnabled (enabled : Bool)
  deriving DecidableEq

inductive Statement where
  | backfillContext (contextId definitionHash name namespaceName : String)
  | insertContext (v : ContextValues)
  | updateContext (v : ContextValues)
  | dropContext (droppedAt : Option String) (contextId : String)
  | recordExecution (executedAt : Option String) (contextId : String) (version : Int)
  | insertPayload (contextId : String) (version : Int) (membershipBlob scoreBlob : Bytes)
  | insertSnapshot (v : SnapshotValues)
  | supersede (validTo : Option String) (contextId : String)
  | makeCurrent (contextId : String) (version : Int)
  | pointContext (snapshotVersion : Int) (lastRefreshedAt dataAsOf : Option String)
      (contextId : String) (version : Int)
  | insertEvent (v : EventValues)
  | deletePayloads (contextId : String) (version : Int)
  | deleteSnapshots (contextId : String) (version : Int)
  | deleteEvents (contextId : String) (cutoff : Option String)
  | insertAudit (v : AuditValues)
  | insertProvider (v : ProviderValues)
  | changeProvider (change : ProviderChange) (now name namespaceName : String)
  | insertIdentityMap (v : IdentityMapValues)
  | insertSyncEvent (contextId eventId watermark : String)
  | upsertSyncState (contextId watermark : String)
  deriving DecidableEq

section Contexts

variable (t : Tables)

def atVersion (contextId : String) (version : Int) (r : ContextRow) : Bool :=
  r.contextId = some contextId && r.version = version

def named (name namespaceName : String) (r : ContextRow) : Bool :=
  r.name = name && r.namespaceName = namespaceName

def backfillContext (contextId definitionHash name namespaceName : String) : Except DbError Tables := do
  unique "contexts.context_id, contexts.version"
    (t.contexts.rows.any (fun r => named name namespaceName r &&
      t.contexts.rows.any (fun o => !named name namespaceName o && atVersion contextId r.version o)))
  pure { t with contexts := t.contexts.update (named name namespaceName) (fun r =>
    { r with contextId := some contextId, definitionHash := r.definitionHash.or (some definitionHash) }) }

/-- The row that `save_context` updates. -/
def sameVersion (v : ContextValues) (r : ContextRow) : Bool :=
  v.contextId.isSome && r.contextId = v.contextId && r.version = v.version

def insertContext (now : String) (v : ContextValues) : Except DbError Tables := do
  let _ ← notNull "contexts.entity_key" v.entityKey
  unique "contexts.name, contexts.namespace, contexts.version"
    (t.contexts.rows.any (fun r => named v.name v.namespaceName r && r.version = v.version))
  unique "contexts.context_id, contexts.version"
    (t.contexts.rows.any (sameVersion v))
  pure { t with contexts := t.contexts.insert (fun id =>
    { v with
      id, classification := some "internal", providerRefs := none, createdAt := now,
      updatedAt := now, lastValidatedAt := none, lastExecutedAt := none,
      freshnessMetadata := none, droppedAt := none }) }

def checkUpdate (v : ContextValues) : Except DbError Unit :=
  if t.contexts.rows.any (sameVersion v) then do
    let _ ← notNull "contexts.entity_key" v.entityKey
    unique "contexts.name, contexts.namespace, contexts.version"
      (t.contexts.rows.any (fun r => !sameVersion v r && named v.name v.namespaceName r &&
        r.version = v.version))
  else pure ()

/-- `raw_ddl` keeps its value where none is given. -/
def updateContext (now : String) (v : ContextValues) : Except DbError Tables := do
  checkUpdate t v
  pure { t with contexts := t.contexts.update (sameVersion v) (fun r =>
    { r with toContextValues := { v with rawDdl := v.rawDdl.or r.rawDdl }, updatedAt := now }) }

def dropContext (now : String) (droppedAt : Option String) (contextId : String) : Tables :=
  { t with
    contexts := t.contexts.update (fun r => r.contextId = some contextId)
      (fun r => { r with droppedAt, updatedAt := now }) }

def recordExecution (now : String) (executedAt : Option String) (contextId : String)
    (version : Int) : Tables :=
  { t with
    contexts := t.contexts.update (atVersion contextId version)
      (fun r => { r with lastExecutedAt := executedAt, updatedAt := now }) }

def pointContext (now : String) (snapshotVersion : Int) (lastRefreshedAt dataAsOf : Option String)
    (contextId : String) (version : Int) : Tables :=
  { t with contexts := t.contexts.update (atVersion contextId version) (fun r =>
      { r with
        currentSnapshotVersion := some snapshotVersion, lastRefreshedAt, dataAsOf,
        lastRefreshError := none, updatedAt := now }) }

end Contexts

section Snapshots

variable (t : Tables)

def insertPayload (now contextId : String) (version : Int) (membershipBlob scoreBlob : Bytes) :
    Except DbError Tables := do
  unique "context_snapshot_payloads.context_id, context_snapshot_payloads.version"
    (t.contextSnapshotPayloads.any (fun r => r.contextId = contextId && r.version = version))
  pure { t with contextSnapshotPayloads := t.contextSnapshotPayloads ++
    [⟨contextId, version, .blob membershipBlob, some (.blob scoreBlob), now⟩] }

def insertSnapshot (v : SnapshotValues) : Except DbError Tables := do
  let storageKind ← notNull "context_snapshots.storage_kind" v.storageKind
  let memberCount ← notNull "context_snapshots.member_count" v.memberCount
  let computedAt ← notNull "context_snapshots.computed_at" v.computedAt
  let dataAsOf ← notNull "context_snapshots.data_as_of" v.dataAsOf
  let validFrom ← notNull "context_snapshots.valid_from" v.validFrom
  unique "context_snapshots.context_id, context_snapshots.version"
    (t.contextSnapshots.any (fun r => r.contextId = v.contextId && r.version = v.version))
  pure { t with contextSnapshots := t.contextSnapshots ++
    [{ v with
        storageKind, memberCount, computedAt, dataAsOf, validFrom, validTo := none,
        state := .building }] }

def supersede (validTo : Option String) (contextId : String) : Tables :=
  { t with contextSnapshots := t.contextSnapshots.map (fun r =>
      if r.contextId = contextId ∧ r.state = .current then { r with state := .superseded, validTo }
      else r) }

def makeCurrent (contextId : String) (version : Int) : Except DbError Tables := do
  let rows := t.contextSnapshots.map (fun r =>
    if r.contextId = contextId ∧ r.version = version then { r with state := .current } else r)
  unique "context_snapshots.context_id"
    (2 ≤ (rows.filter (fun r => r.contextId = contextId && r.state = .current)).length)
  pure { t with contextSnapshots := rows }

/-- `INSERT OR IGNORE`: a row that breaks a constraint is not inserted. -/
def insertEvent (v : EventValues) : Tables :=
  match v.recordedAt, v.effectiveAt with
  | some recordedAt, some effectiveAt =>
    if v.changeType ∈ ["added", "removed", "score_changed"] ∧
        ¬ t.contextMembershipHistory.any (fun r => r.contextId = v.contextId && r.eventId = some v.eventId)
    then
      { t with contextMembershipHistory := t.contextMembershipHistory ++
          [{ v with
              recordedAt, effectiveAt, previousScore := stored v.previousScore,
              newScore := stored v.newScore, eventId := some v.eventId }] }
    else t
  | _, _ => t

def deletePayloads (contextId : String) (version : Int) : Tables :=
  { t with contextSnapshotPayloads := t.contextSnapshotPayloads.filter (fun r =>
      !(r.contextId = contextId && r.version < version)) }

def deleteSnapshots (contextId : String) (version : Int) : Tables :=
  { t with contextSnapshots := t.contextSnapshots.filter (fun r =>
      !(r.contextId = contextId && r.version < version)) }

/-- A comparison with NULL holds of no row. -/
def deleteEvents (contextId : String) (cutoff : Option String) : Tables :=
  { t with contextMembershipHistory := t.contextMembershipHistory.filter (fun r =>
      !(r.contextId = contextId && cutoff.any (fun c => r.effectiveAt < c))) }

end Snapshots

section Services

variable (t : Tables)

def insertAudit (v : AuditValues) : Tables :=
  { t with auditLog := t.auditLog.insert (fun id =>
      { v with id, actor := some v.actor, namespaceName := some v.namespaceName, traceId := some v.traceId }) }

def insertProvider (now : String) (v : ProviderValues) : Except DbError Tables := do
  unique "providers.name, providers.namespace"
    (t.providers.rows.any (fun r => r.name = v.name && r.namespaceName = v.namespaceName))
  pure { t with providers := t.providers.insert (fun id =>
    { v with
      id, timeoutMs := some v.timeoutMs, trustTier := some v.trustTier, credentialsRef := none,
      healthState := some "unknown", resourceShape := none, enabled := 1, registeredAt := now,
      updatedAt := now, lastSuccessAt := none, lastFailureAt := none }) }

def ProviderUpdate.apply (u : ProviderUpdate) (r : ProviderRow) : ProviderRow :=
  { r with
    endpoint := u.endpoint.getD r.endpoint
    timeoutMs := u.timeoutMs.getD r.timeoutMs
    entityKeyType := u.entityKeyType.getD r.entityKeyType
    trustTier := u.trustTier.getD r.trustTier
    credentialsRef := u.credentialsRef.getD r.credentialsRef
    resourceShape := u.resourceShape.getD r.resourceShape }

def ProviderChange.apply (now : String) (r : ProviderRow) : ProviderChange → ProviderRow
  | .update u => { u.apply r with updatedAt := now }
  | .healthy => { r with healthState := some "healthy", lastSuccessAt := some now, updatedAt := now }
  | .unhealthy =>
    { r with healthState := some "unhealthy", lastFailureAt := some now, updatedAt := now }
  | .setEnabled enabled => { r with enabled := if enabled then 1 else 0, updatedAt := now }

def changeProvider (change : ProviderChange) (now name namespaceName : String) : Tables :=
  { t with
    providers := t.providers.update (fun r => r.name = name && r.namespaceName = namespaceName)
      (fun r => change.apply now r) }

def insertIdentityMap (now : String) (v : IdentityMapValues) : Except DbError Tables := do
  unique "identity_maps.name, identity_maps.namespace"
    (t.identityMaps.rows.any (fun r => r.name = v.name && r.namespaceName = v.namespaceName))
  pure { t with identityMaps := t.identityMaps.insert (fun id =>
    { v with
      id, matchingMode := some v.matchingMode, confidence := stored (some v.confidence),
      version := 1, createdAt := now, updatedAt := now }) }

end Services

def integers (v : ContextValues) : List Int := v.version :: v.hasScore :: v.currentSnapshotVersion.toList

def ProviderUpdate.integers (u : ProviderUpdate) : List Int := (u.timeoutMs.getD none).toList

/-- The integers among the parameters of a statement, but for the versions that a
pruning has read from the tables. -/
def Statement.integers : Statement → List Int
  | .insertContext v | .updateContext v => Statements.integers v
  | .recordExecution _ _ version | .insertPayload _ version _ _ | .makeCurrent _ version => [version]
  | .insertSnapshot v => v.version :: v.memberCount.toList ++ v.serializedBytes.toList ++ v.definitionVersion.toList
  | .pointContext snapshotVersion _ _ _ version => [snapshotVersion, version]
  | .insertEvent v => v.transactionId :: v.contextVersion :: v.definitionVersion.toList
  | .insertProvider v => [v.timeoutMs]
  | .changeProvider (.update u) .. => u.integers
  | _ => []

/-- What a statement leaves of the tables, or the constraint it violates. `now` is
what `datetime('now')` and the defaults of the schema read. -/
def Statement.effect (s : Statement) (ambient : Ambient) (t : Tables) : Except DbError Tables :=
  let now := ambient.now.strftime
  match s with
  | .backfillContext contextId definitionHash name namespaceName =>
    Statements.backfillContext t contextId definitionHash name namespaceName
  | .insertContext v => Statements.insertContext t now v
  | .updateContext v => Statements.updateContext t now v
  | .dropContext droppedAt contextId => pure (Statements.dropContext t now droppedAt contextId)
  | .recordExecution executedAt contextId version =>
    pure (Statements.recordExecution t now executedAt contextId version)
  | .insertPayload contextId version membershipBlob scoreBlob =>
    Statements.insertPayload t now contextId version membershipBlob scoreBlob
  | .insertSnapshot v => Statements.insertSnapshot t v
  | .supersede validTo contextId => pure (Statements.supersede t validTo contextId)
  | .makeCurrent contextId version => Statements.makeCurrent t contextId version
  | .pointContext snapshotVersion lastRefreshedAt dataAsOf contextId version =>
    pure (Statements.pointContext t now snapshotVersion lastRefreshedAt dataAsOf contextId version)
  | .insertEvent v => pure (Statements.insertEvent t v)
  | .deletePayloads contextId version => pure (Statements.deletePayloads t contextId version)
  | .deleteSnapshots contextId version => pure (Statements.deleteSnapshots t contextId version)
  | .deleteEvents contextId cutoff => pure (Statements.deleteEvents t contextId cutoff)
  | .insertAudit v => pure (Statements.insertAudit t v)
  | .insertProvider v => Statements.insertProvider t now v
  | .changeProvider change at' name namespaceName => pure (Statements.changeProvider t change at' name namespaceName)
  | .insertIdentityMap v => Statements.insertIdentityMap t now v
  | .insertSyncEvent contextId eventId watermark =>
    pure { t with sync := t.sync.insertEvent contextId eventId watermark }
  | .upsertSyncState contextId watermark =>
    pure { t with sync := t.sync.upsertState contextId watermark }

/-- A statement is run once its parameters are bound. -/
def Statement.run (s : Statement) (ambient : Ambient) (t : Tables) : Except DbError Tables := do
  bindIntegers s.integers
  s.effect ambient t

theorem Statement.run_ok {s : Statement} {ambient : Ambient} {t t' : Tables} :
    s.run ambient t = .ok t' ↔ (∀ n ∈ s.integers, Storable n) ∧ s.effect ambient t = .ok t' := by
  rw [Statement.run, bind_eq_ok]
  exact ⟨fun ⟨_, hb, h⟩ => ⟨bindIntegers_ok.mp hb, h⟩, fun ⟨hb, h⟩ => ⟨(), bindIntegers_ok.mpr hb, h⟩⟩

/-- The database of the server as a schema. -/
def catalog : Schema DbError where
  Tables := Tables
  Statement := Statement
  Ambient := Ambient
  run := Statement.run
  nested := .operationalError "cannot start a transaction within a transaction"

abbrev DbProg := SqlProg catalog

end ContextqlServer.Db.Statements
