import ContextqlServer.Db.Synchronization
import ContextqlServer.Lib.Isoformat
import ContextqlServer.Lib.Python

namespace ContextqlServer.Db.Schema

open ContextqlServer.Lib.Isoformat ContextqlServer.Lib.Python
open ContextqlServer.Db.Synchronization

abbrev Bytes := List UInt8

inductive DbError where
  | integrityError (message : String)
  | operationalError (message : String)
  | valueError (message : String)
  | typeError (message : String)
  | keyError (key : String)
  | overflowError (message : String)
  | external (message : String)
  deriving DecidableEq

/-- A table whose ids grow by one and are never given twice. -/
structure Table (ρ : Type) where
  rows : List ρ
  sequence : Nat

namespace Table

variable {ρ : Type}

def empty : Table ρ := ⟨[], 0⟩

def insert (t : Table ρ) (row : Nat → ρ) : Table ρ := ⟨t.rows ++ [row (t.sequence + 1)], t.sequence + 1⟩

def update (t : Table ρ) (p : ρ → Bool) (f : ρ → ρ) : Table ρ :=
  { t with rows := t.rows.map (fun r => if p r then f r else r) }

end Table

/-- The columns of `contexts` that `save_context` writes. -/
structure ContextValues where
  name : String
  namespaceName : String
  version : Int
  definitionText : String
  entityKey : Option String
  entityKeyType : Option String
  hasScore : Int
  scoreColumn : Option String
  description : Option String
  tags : Option String
  lifecycleState : String
  dependencyRefs : Option String
  contextId : Option String
  definitionHash : Option String
  rawDdl : Option String
  materializationJson : Option String
  currentSnapshotVersion : Option Int
  lastRefreshedAt : Option String
  dataAsOf : Option String
  lastRefreshError : Option String
  historyAvailableFrom : Option String
  definitionSql : Option String
  scoreExpression : Option String
  compositionJson : Option String
  temporalColumn : Option String
  temporalGranularity : Option String
  sourceKind : String
  deriving DecidableEq

structure ContextRow extends ContextValues where
  id : Nat
  classification : Option String
  providerRefs : Option String
  createdAt : String
  updatedAt : String
  lastValidatedAt : Option String
  lastExecutedAt : Option String
  freshnessMetadata : Option String
  droppedAt : Option String
  deriving DecidableEq

structure ProviderRow where
  id : Nat
  name : String
  namespaceName : String
  providerType : String
  endpoint : Option String
  credentialsRef : Option String
  timeoutMs : Option Int
  healthState : Option String
  entityKeyType : Option String
  resourceShape : Option String
  trustTier : Option String
  enabled : Int
  registeredAt : String
  updatedAt : String
  lastSuccessAt : Option String
  lastFailureAt : Option String
  deriving DecidableEq

structure IdentityMapRow where
  id : Nat
  name : String
  namespaceName : String
  sourceSystem : String
  sourceEntityPath : String
  targetSystem : String
  targetEntityPath : String
  matchingMode : Option String
  confidence : Option Float64
  description : Option String
  version : Int
  createdAt : String
  updatedAt : String
  deriving DecidableEq

structure AuditRow where
  id : Nat
  timestamp : String
  eventType : String
  actor : Option String
  namespaceName : Option String
  resourceType : Option String
  resourceName : Option String
  detail : Option String
  traceId : Option String
  deriving DecidableEq

inductive SnapshotState where
  | building
  | current
  | superseded
  deriving DecidableEq

structure SnapshotRow where
  contextId : String
  version : Int
  storageKind : String
  memberCount : Int
  serializedBytes : Option Int
  computedAt : String
  dataAsOf : String
  validFrom : String
  validTo : Option String
  definitionHash : Option String
  definitionVersion : Option Int
  sourceWatermark : Option String
  membershipSha256 : Option String
  scoreSha256 : Option String
  state : SnapshotState
  deriving DecidableEq

/-- What a column without a type of its own may hold. -/
inductive Cell where
  | integer (n : Int)
  | real (x : Float64)
  | text (s : String)
  | blob (b : Bytes)
  deriving DecidableEq

structure PayloadRow where
  contextId : String
  version : Int
  membershipBlob : Cell
  scoreBlob : Option Cell
  createdAt : String
  deriving DecidableEq

/-- A row of `context_membership_history`; the rows stand in the order of their ids. -/
structure HistoryRow where
  contextId : String
  transactionId : Int
  changeType : String
  recordedAt : String
  effectiveAt : String
  contextVersion : Int
  source : String
  evidenceRef : Option String
  previousScore : Option Float64
  newScore : Option Float64
  definitionVersion : Option Int
  definitionHash : Option String
  eventId : Option String
  deriving DecidableEq

/-- The tables after migration 003. -/
structure Tables where
  contexts : Table ContextRow
  providers : Table ProviderRow
  identityMaps : Table IdentityMapRow
  auditLog : Table AuditRow
  contextSnapshots : List SnapshotRow
  contextSnapshotPayloads : List PayloadRow
  contextMembershipHistory : List HistoryRow
  sync : SyncTables

/-- A freshly migrated database. -/
def Tables.empty : Tables where
  contexts := .empty
  providers := .empty
  identityMaps := .empty
  auditLog := .empty
  contextSnapshots := []
  contextSnapshotPayloads := []
  contextMembershipHistory := []
  sync := ⟨[], []⟩

/-- A value for a column that is `NOT NULL`. -/
def notNull {α : Type} (column : String) : Option α → Except DbError α
  | some a => .ok a
  | none => .error (.integrityError s!"NOT NULL constraint failed: {column}")

def unique (columns : String) (clash : Bool) : Except DbError Unit :=
  if clash then .error (.integrityError s!"UNIQUE constraint failed: {columns}") else .ok ()

theorem notNull_ok {α : Type} {column : String} {x : Option α} {a : α} :
    notNull column x = .ok a ↔ x = some a := by
  cases x <;> simp [notNull]

theorem unique_ok {columns : String} {clash : Bool} {u : Unit} :
    unique columns clash = .ok u ↔ clash = false := by
  cases clash <;> simp [unique]

/-- The integers that a column can hold. -/
def Storable (n : Int) : Prop := -9223372036854775808 ≤ n ∧ n < 9223372036854775808

instance decidableStorable (n : Int) : Decidable (Storable n) := inferInstanceAs (Decidable (_ ∧ _))

def tooLarge : String := "Python int too large to convert to SQLite INTEGER"

/-- The integers among the parameters of a statement. -/
def bindIntegers (ns : List Int) : Except DbError Unit :=
  if ∀ n ∈ ns, Storable n then .ok () else .error (.overflowError tooLarge)

theorem bindIntegers_ok {ns : List Int} {u : Unit} : bindIntegers ns = .ok u ↔ ∀ n ∈ ns, Storable n := by
  rw [bindIntegers]
  split
  · rename_i h
    exact ⟨fun _ => h, fun _ => rfl⟩
  · rename_i h
    exact ⟨(by cases ·), (absurd · h)⟩

theorem bindIntegers_pair {m n : Int} (hm : Storable m) (hn : Storable n) : bindIntegers [m, n] = .ok () :=
  bindIntegers_ok.mpr (List.forall_mem_cons.mpr ⟨hm, List.forall_mem_singleton.mpr hn⟩)

/-- A double as a column stores it: `NaN` is stored as NULL. -/
def stored : Option Float64 → Option Float64
  | some .nan => none
  | x => x

/-- `uuid.UUID`, as its 128 bits. -/
structure Uuid where
  bits : Fin (2 ^ 128)
  deriving DecidableEq

namespace Uuid

def hexText (u : Uuid) : List Char :=
  let ds := Nat.toDigits 16 u.bits
  List.replicate (32 - ds.length) '0' ++ ds

def hex (u : Uuid) : String := .ofList u.hexText

def str (u : Uuid) : String :=
  let h := u.hexText
  .ofList (h.take 8 ++ '-' :: (h.drop 8).take 4 ++ '-' :: (h.drop 12).take 4 ++
    '-' :: (h.drop 16).take 4 ++ '-' :: h.drop 20)

end Uuid

/-- What a call or a statement reads of the clock and of the random generator. -/
structure Ambient where
  now : Datetime
  uuid4 : Uuid

end ContextqlServer.Db.Schema
