import ContextqlServer.Db.Statements
import ContextqlServer.Lib.JsonText
import Mathlib.Data.List.Sort
import Mathlib.Data.Prod.Lex
import Mathlib.Data.String.Basic

namespace ContextqlServer.Db.Services

open ContextqlServer.Lib.Effect ContextqlServer.Lib.JsonText ContextqlServer.Lib.Python
open ContextqlServer.Lib.Sql
open ContextqlServer.Db.Schema ContextqlServer.Db.Statements ContextqlServer.Db.Synchronization

variable (T : FloatText)

/-- `LIMIT ? OFFSET ?`, where a negative limit is none. -/
def page {α : Type} (limit offset : Int) (xs : List α) : List α :=
  let rest := xs.drop offset.toNat
  if limit < 0 then rest else rest.take limit.toNat

theorem page_window {α : Type} (limit i : Nat) (xs : List α) :
    page limit (limit * i : Nat) xs = (xs.drop (limit * i)).take limit := by
  rw [page, if_neg (Int.not_lt.mpr (Int.natCast_nonneg limit)), Int.toNat_natCast, Int.toNat_natCast]

/-- `ORDER BY` a column. -/
def orderBy {α κ : Type} [LinearOrder κ] (key : α → κ) (xs : List α) : List α :=
  xs.insertionSort (fun a b => key a ≤ key b)

/-- `ORDER BY name`, read off the unique index on the name and the namespace. -/
def orderByName {α : Type} (name namespaceName : α → String) (xs : List α) : List α :=
  orderBy (fun r => toLex (name r, namespaceName r)) xs

/-- A JSON column as a reader gets it: parsed, or as it is where it is not JSON. -/
inductive Parsed where
  | json (j : Json)
  | text (s : String)

def parsed (s : String) : Parsed :=
  match loads T s with
  | some j => .json j
  | none => .text s

namespace AuditService

structure Event where
  eventType : String
  resourceType : Option String
  resourceName : Option String
  detail : Option Json
  actor : String
  namespaceName : String
  traceId : Option String

def log (e : Event) : DbProg Nat := do
  let traceId ← match e.traceId with
    | some traceId => pure traceId
    | none => do
      let ambient ← sense
      pure ambient.uuid4.hex
  let ambient ← sense
  let t ← execute (M := catalog) (.insertAudit {
    timestamp := ambient.now.strftime
    eventType := e.eventType
    actor := e.actor
    namespaceName := e.namespaceName
    resourceType := e.resourceType
    resourceName := e.resourceName
    detail := e.detail.map (dumps T)
    traceId })
  commit
  pure t.auditLog.sequence

/-- The filters of a query, each where it is given. -/
structure Filters where
  eventType : Option String
  namespaceName : Option String
  resourceType : Option String
  resourceName : Option String

def Filters.accepts (f : Filters) (r : AuditRow) : Bool :=
  f.eventType.all (· = r.eventType) && f.namespaceName.all (some · = r.namespaceName) &&
    f.resourceType.all (some · = r.resourceType) && f.resourceName.all (some · = r.resourceName)

def query (f : Filters) (limit offset : Int) : DbProg (List (AuditRow × Option Parsed)) := do
  Prog.ofExcept (bindIntegers [limit, offset])
  let t ← select (M := catalog)
  let rows := page limit offset (orderBy (fun r => OrderDual.toDual r.id)
    (t.auditLog.rows.filter f.accepts))
  pure (rows.map (fun r => (r, r.detail.map (parsed T))))

end AuditService

/-- `self.audit.log(...)` of a service, where it has an audit service. -/
def auditLog (audit : Bool) (eventType resourceType resourceName namespaceName : String)
    (detail : Option Json) : DbProg Unit := do
  if audit then
    let _ ← AuditService.log T
      ⟨eventType, some resourceType, some resourceName, detail, "system", namespaceName, none⟩

theorem exec_auditLog {audit : Bool} {eventType resourceType name namespaceName : String} {detail : Option Json}
    {c : Connection catalog} :
    ∃ c', (Connection.handler catalog).exec
        (auditLog T audit eventType resourceType name namespaceName detail) c = (.ok (), c') ∧
      c'.pending = { c.pending with auditLog := c'.pending.auditLog } ∧
      (c.transaction = none → c'.transaction = none) := by
  cases audit with
  | false => exact ⟨c, rfl, rfl, id⟩
  | true => exact ⟨_, rfl, rfl, fun _ => rfl⟩

structure ProviderService where
  audit : Bool

namespace ProviderService

variable (self : ProviderService)

def auditLog (eventType resourceName namespaceName : String) (detail : Option Json) :
    DbProg Unit :=
  Services.auditLog T self.audit eventType "provider" resourceName namespaceName detail

structure Provider where
  row : ProviderRow
  enabled : Bool
  resourceShape : Option Parsed

def rowToDict (r : ProviderRow) : Provider := ⟨r, r.enabled ≠ 0, r.resourceShape.map (parsed T)⟩

def get (name namespaceName : String) : DbProg (Option Provider) := do
  let t ← select (M := catalog)
  pure ((t.providers.rows.find? (fun r => r.name = name && r.namespaceName = namespaceName)).map
    (rowToDict T))

def register (v : ProviderValues) : DbProg (Option Provider) := do
  let _ ← execute (M := catalog) (.insertProvider v)
  commit
  self.auditLog T "provider.registered" v.name v.namespaceName none
  get T v.name v.namespaceName

def list (namespaceName providerType : Option String) (limit offset : Int) :
    DbProg (List Provider × Nat) := do
  let accepts (r : ProviderRow) : Bool :=
    namespaceName.all (· = r.namespaceName) && providerType.all (· = r.providerType)
  let t ← select (M := catalog)
  let total := (t.providers.rows.filter accepts).length
  Prog.ofExcept (bindIntegers [limit, offset])
  let t ← select (M := catalog)
  let rows := page limit offset
    (orderByName (fun r => r.name) (fun r => r.namespaceName) (t.providers.rows.filter accepts))
  pure (rows.map (rowToDict T), total)

def current (name namespaceName : String) : DbProg Provider := do
  match ← get T name namespaceName with
  | some p => pure p
  | none =>
    throw (.valueError s!"Provider '{name}' not found in namespace '{namespaceName}'")

def change (c : ProviderChange) (eventType name namespaceName : String) (detail : Option Json) :
    DbProg (Option Provider) := do
  let ambient ← sense
  let _ ← execute (M := catalog) (.changeProvider c ambient.now.strftime name namespaceName)
  commit
  self.auditLog T eventType name namespaceName detail
  get T name namespaceName

/-- A keyword argument of `update`: a dictionary or a list is written as JSON. -/
inductive Argument where
  | text (s : String)
  | json (j : Json)

def Argument.value : Argument → String
  | .text s => s
  | .json j => dumps T j

/-- The keyword arguments of `update`, those that are present. -/
structure Arguments where
  endpoint : Option (Option String)
  timeoutMs : Option (Option Int)
  entityKeyType : Option (Option String)
  trustTier : Option (Option String)
  credentialsRef : Option (Option Argument)
  resourceShape : Option (Option Argument)

def Arguments.sets (a : Arguments) : ProviderUpdate where
  endpoint := a.endpoint
  timeoutMs := a.timeoutMs
  entityKeyType := a.entityKeyType
  trustTier := a.trustTier
  credentialsRef := a.credentialsRef.map (Option.map (Argument.value T))
  resourceShape := a.resourceShape.map (Option.map (Argument.value T))

def update (name namespaceName : String) (kwargs : Arguments) : DbProg (Option Provider) := do
  let p ← current T name namespaceName
  let sets := kwargs.sets T
  if sets = ⟨none, none, none, none, none, none⟩ then pure (some p)
  else self.change T (.update sets) "provider.updated" name namespaceName none

def setEnabled (name namespaceName : String) (enabled : Bool) : DbProg (Option Provider) := do
  let _ ← current T name namespaceName
  let event := if enabled then "provider.enabled" else "provider.disabled"
  self.change T (.setEnabled enabled) event name namespaceName none

def enable (name namespaceName : String) : DbProg (Option Provider) :=
  self.setEnabled T name namespaceName true

def disable (name namespaceName : String) : DbProg (Option Provider) :=
  self.setEnabled T name namespaceName false

def recordHealth (name namespaceName : String) (success : Bool) : DbProg (Option Provider) := do
  let _ ← current T name namespaceName
  let healthState := if success then "healthy" else "unhealthy"
  self.change T (if success then .healthy else .unhealthy) "provider.health_recorded" name
    namespaceName (some (.obj [("success", .bool success), ("health_state", .str healthState)]))

end ProviderService

structure IdentityService where
  audit : Bool

namespace IdentityService

variable (self : IdentityService)

def get (name namespaceName : String) : DbProg (Option IdentityMapRow) := do
  let t ← select (M := catalog)
  pure (t.identityMaps.rows.find? (fun r => r.name = name && r.namespaceName = namespaceName))

def register (v : IdentityMapValues) : DbProg (Option IdentityMapRow) := do
  let _ ← execute (M := catalog) (.insertIdentityMap v)
  commit
  auditLog T self.audit "identity_map.registered" "identity_map" v.name v.namespaceName none
  get v.name v.namespaceName

def list (namespaceName : Option String) (limit offset : Int) :
    DbProg (List IdentityMapRow × Nat) := do
  let accepts (r : IdentityMapRow) : Bool := namespaceName.all (· = r.namespaceName)
  let t ← select (M := catalog)
  let total := (t.identityMaps.rows.filter accepts).length
  Prog.ofExcept (bindIntegers [limit, offset])
  let t ← select (M := catalog)
  let rows := page limit offset
    (orderByName (fun r => r.name) (fun r => r.namespaceName) (t.identityMaps.rows.filter accepts))
  pure (rows, total)

/-- What `sync_to_engine` registers: for each map its name, its source and its target path. -/
def syncToEngine : DbProg (List (String × String × String)) := do
  let t ← select (M := catalog)
  pure (t.identityMaps.rows.map (fun r => (r.name, r.sourceEntityPath, r.targetEntityPath)))

end IdentityService

namespace SQLiteSynchronizerStateRepository

def load (contextId : String) : DbProg (Option String × Finset String) := do
  let t ← select (M := catalog)
  let state := (t.sync.load contextId).1
  let t ← select (M := catalog)
  pure (state, (t.sync.load contextId).2)

/-- The statements of a commit of the synchronizer. -/
def statements (contextId watermark : String) (eventWatermarks : List (String × String)) :
    List Statement :=
  eventWatermarks.map (fun e => .insertSyncEvent contextId e.1 e.2) ++
    [.upsertSyncState contextId watermark]

def commit (contextId watermark : String) (eventWatermarks : List (String × String)) :
    DbProg Unit :=
  immediate (M := catalog) (statements contextId watermark eventWatermarks)

end SQLiteSynchronizerStateRepository

end ContextqlServer.Db.Services
