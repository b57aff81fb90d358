import ContextqlServer.Db.Schema
import ContextqlServer.Lib.Script

namespace ContextqlServer.Db.Migrations

open ContextqlServer.Lib.Script
open ContextqlServer.Db.Schema (Cell DbError)

/-- What `DEFAULT` gives a column. -/
inductive Default where
  | null
  | value (c : Cell)
  | now
  deriving DecidableEq

structure Column where
  name : String
  type : String
  notNull : Bool
  default : Default
  deriving DecidableEq

structure Table where
  columns : List Column
  constraints : List String
  rows : List (List (Option Cell))
  width : ∀ r ∈ rows, r.length = columns.length

namespace Table

variable (t : Table)

def names : List String := t.columns.map (fun c => c.name)

def value (row : List (Option Cell)) (column : String) : Option Cell := (row[t.names.idxOf column]?).join

def extend (column : Column) (cell : Option Cell) : Table where
  columns := t.columns ++ [column]
  constraints := t.constraints
  rows := t.rows.map (fun r => r ++ [cell])
  width := by
    intro r hr
    obtain ⟨r', hr', rfl⟩ := List.mem_map.mp hr
    rw [List.length_append, List.length_append, t.width r' hr']
    rfl

end Table

/-- The `WHERE` of a partial index. -/
inductive Condition where
  | isText (column text : String)
  | notNull (column : String)
  deriving DecidableEq

namespace Condition

def column : Condition → String
  | .isText column _ | .notNull column => column

def holds (t : Table) (row : List (Option Cell)) : Condition → Bool
  | .isText column text => t.value row column = some (.text text)
  | .notNull column => (t.value row column).isSome

end Condition

structure Index where
  table : String
  columns : List String
  unique : Bool
  condition : Option Condition
  deriving DecidableEq

namespace Index

variable (i : Index) (t : Table)

/-- The keys that the index holds and that have no NULL, which differs from every other. -/
def keys : List (List (Option Cell)) :=
  ((t.rows.filter (fun r => i.condition.all (fun c => c.holds t r))).map (fun r => i.columns.map (t.value r))).filter
    (fun k => k.all Option.isSome)

end Index

/-- A database, with the versions that `schema_version` records if it has that table. -/
structure Database where
  tables : List (String × Table)
  indexes : List (String × Index)
  versions : Option (List Int)

namespace Database

variable (db : Database)

/-- A database file that has just been created. -/
def empty : Database := ⟨[], [], none⟩

def update (name : String) (f : Table → Table) : Database :=
  { db with tables := db.tables.map (fun p => if p.1 = name then (p.1, f p.2) else p) }

def currentVersion : Int := ((db.versions.getD []).max?).getD 0

end Database

/-- The statements of the migration scripts. Those that create have `IF NOT EXISTS`, and
`INSERT INTO schema_version` has `OR IGNORE`. -/
inductive Statement where
  | createVersions
  | createTable (name : String) (columns : List Column) (constraints : List String)
  | createIndex (name : String) (index : Index)
  | addColumn (table : String) (column : Column)
  | recordVersion (version : Int)
  deriving DecidableEq

namespace Statement

/-- `CREATE INDEX` on a table that there is. -/
def buildIndex (name : String) (index : Index) (t : Table) (db : Database) : Except DbError Database :=
  if (db.indexes.lookup name).isSome then .ok db
  else if ¬ index.columns.all (fun c => c ∈ t.names) then .error (.operationalError "no such column")
  else if index.unique ∧ ¬ (index.keys t).Nodup then
    .error (.integrityError ("UNIQUE constraint failed: " ++
      ", ".intercalate (index.columns.map (fun c => index.table ++ "." ++ c))))
  else .ok { db with indexes := db.indexes ++ [(name, index)] }

/-- `ALTER TABLE ... ADD COLUMN` on a table that there is. -/
def alter (table : String) (column : Column) (t : Table) (db : Database) : Except DbError Database :=
  if column.name ∈ t.names then .error (.operationalError s!"duplicate column name: {column.name}")
  else
    match column.default with
    | .null =>
      if column.notNull then .error (.operationalError "Cannot add a NOT NULL column with default value NULL")
      else .ok (db.update table (fun t => t.extend column none))
    | .value c => .ok (db.update table (fun t => t.extend column (some c)))
    | .now => .error (.operationalError "Cannot add a column with non-constant default")

def run (s : Statement) (db : Database) : Except DbError Database :=
  match s with
  | .createVersions => .ok { db with versions := some (db.versions.getD []) }
  | .createTable name columns constraints =>
    if (db.tables.lookup name).isSome then .ok db
    else .ok { db with tables := db.tables ++ [(name, ⟨columns, constraints, [], List.forall_mem_nil _⟩)] }
  | .createIndex name index =>
    match db.tables.lookup index.table with
    | none => .error (.operationalError s!"no such table: main.{index.table}")
    | some t => buildIndex name index t db
  | .addColumn table column =>
    match db.tables.lookup table with
    | none => .error (.operationalError s!"no such table: {table}")
    | some t => alter table column t db
  | .recordVersion version =>
    match db.versions with
    | none => .error (.operationalError "no such table: schema_version")
    | some vs => .ok { db with versions := some (if version ∈ vs then vs else vs ++ [version]) }

end Statement

section Scripts

namespace Column

def required (c : Column) : Column := { c with notNull := true }

def orText (c : Column) (s : String) : Column := { c with default := .value (.text s) }

def orInteger (c : Column) (n : Int) : Column := { c with default := .value (.integer n) }

/-- `DEFAULT (datetime('now'))` -/
def orNow (c : Column) : Column := { c with default := .now }

end Column

def text (name : String) : Column := ⟨name, "TEXT", false, .null⟩

def integer (name : String) : Column := ⟨name, "INTEGER", false, .null⟩

def real (name : String) : Column := ⟨name, "REAL", false, .null⟩

def autoincrement (name : String) : Column := ⟨name, "INTEGER PRIMARY KEY AUTOINCREMENT", false, .null⟩

/-- `001_initial.sql` -/
def script001 : List Statement :=
  [.createVersions,
    .createTable "contexts"
      [autoincrement "id", (text "name").required, (text "namespace").required.orText "default",
        (integer "version").required.orInteger 1, (text "definition_text").required, (text "entity_key").required,
        (integer "has_score").required.orInteger 0, text "score_column", text "description", text "tags",
        (text "classification").orText "internal", (text "lifecycle_state").required.orText "draft",
        text "dependency_refs", text "provider_refs", (text "created_at").required.orNow,
        (text "updated_at").required.orNow, text "last_validated_at", text "last_executed_at",
        text "freshness_metadata"]
      ["UNIQUE(name, namespace, version)"],
    .createTable "providers"
      [autoincrement "id", (text "name").required, (text "namespace").required.orText "default",
        (text "provider_type").required, text "endpoint", text "credentials_ref",
        (integer "timeout_ms").orInteger 30000, (text "health_state").orText "unknown", text "entity_key_type",
        text "resource_shape", (text "trust_tier").orText "standard", (integer "enabled").required.orInteger 1,
        (text "registered_at").required.orNow, (text "updated_at").required.orNow, text "last_success_at",
        text "last_failure_at"]
      ["UNIQUE(name, namespace)"],
    .createTable "identity_maps"
      [autoincrement "id", (text "name").required, (text "namespace").required.orText "default",
        (text "source_system").required, (text "source_entity_path").required, (text "target_system").required,
        (text "target_entity_path").required, (text "matching_mode").orText "exact",
        { real "confidence" with default := .value (.real (.finite 1)) }, text "description",
        (integer "version").required.orInteger 1, (text "created_at").required.orNow,
        (text "updated_at").required.orNow]
      ["UNIQUE(name, namespace)"],
    .createTable "audit_log"
      [autoincrement "id", (text "timestamp").required.orNow, (text "event_type").required,
        (text "actor").orText "system", (text "namespace").orText "default", text "resource_type",
        text "resource_name", text "detail", text "trace_id"]
      [],
    .recordVersion 1]

/-- `002_context_snapshots.sql` -/
def script002 : List Statement :=
  [.createTable "context_snapshots"
      [autoincrement "id", (text "context_id").required, (integer "version").required,
        (text "storage_kind").required.orText "roaring", text "bitmap_location", text "score_location",
        (integer "member_count").required.orInteger 0, integer "serialized_bytes", (text "computed_at").required,
        (text "data_as_of").required, (text "valid_from").required, text "valid_to", text "definition_hash",
        text "source_watermark", (text "state").required.orText "building", text "error_detail"]
      ["UNIQUE(context_id, version)"],
    .createIndex "idx_context_snapshots_current" ⟨"context_snapshots", ["context_id", "state"], false, none⟩,
    .createTable "context_membership_history"
      [autoincrement "id", (text "context_id").required, (integer "transaction_id").required,
        (text "change_type").required, (text "recorded_at").required.orNow, (text "effective_at").required,
        (integer "context_version").required, (text "source").required.orText "native", text "evidence_ref",
        real "previous_score", real "new_score"]
      ["CHECK (change_type IN ('added', 'removed', 'score_changed'))"],
    .createIndex "idx_membership_history_context"
      ⟨"context_membership_history", ["context_id", "context_version"], false, none⟩,
    .createIndex "idx_membership_history_effective"
      ⟨"context_membership_history", ["context_id", "effective_at"], false, none⟩,
    .recordVersion 2]

/-- The columns that `003_context_runtime_state.sql` adds to `contexts`. -/
def runtimeColumns : List Column :=
  [text "context_id", text "definition_hash", text "raw_ddl", text "materialization_json",
    integer "current_snapshot_version", text "last_refreshed_at", text "data_as_of", text "last_refresh_error",
    text "history_available_from", text "dropped_at", text "definition_sql", text "entity_key_type",
    text "score_expression", text "composition_json", text "temporal_column", text "temporal_granularity",
    (text "source_kind").required.orText "native"]

def oneCurrentIndex : Index := ⟨"context_snapshots", ["context_id"], true, some (.isText "state" "current")⟩

/-- `003_context_runtime_state.sql` before it records its version -/
def body003 : List Statement :=
  runtimeColumns.map (.addColumn "contexts") ++
  [.createIndex "idx_contexts_runtime_version" ⟨"contexts", ["context_id", "version"], true, none⟩,
    .createIndex "idx_contexts_runtime_name" ⟨"contexts", ["namespace", "name", "dropped_at", "version"], false, none⟩,
    .addColumn "context_snapshots" (integer "definition_version"),
    .addColumn "context_snapshots" (text "membership_sha256"),
    .addColumn "context_snapshots" (text "score_sha256"),
    .createIndex "idx_context_snapshots_one_current" oneCurrentIndex,
    .createTable "context_snapshot_payloads"
      [(text "context_id").required, (integer "version").required, ⟨"membership_blob", "BLOB", true, .null⟩,
        ⟨"score_blob", "BLOB", false, .null⟩, (text "created_at").required.orNow]
      ["PRIMARY KEY (context_id, version)"],
    .addColumn "context_membership_history" (integer "definition_version"),
    .addColumn "context_membership_history" (text "definition_hash"),
    .addColumn "context_membership_history" (text "event_id"),
    .createIndex "idx_membership_history_event"
      ⟨"context_membership_history", ["context_id", "event_id"], true, some (.notNull "event_id")⟩,
    .createTable "context_sync_state"
      [⟨"context_id", "TEXT PRIMARY KEY", false, .null⟩, text "committed_watermark", text "ordering_boundary",
        (text "updated_at").required.orNow]
      [],
    .createTable "context_sync_events"
      [(text "context_id").required, (text "event_id").required, (text "watermark").required,
        (text "applied_at").required.orNow]
      ["PRIMARY KEY (context_id, event_id)"]]

def script003 : List Statement := body003 ++ [.recordVersion 3]

/-- The migration files with their versions, in the order of their names. -/
def migrations : List (Int × List Statement) := [(1, script001), (2, script002), (3, script003)]

end Scripts

def runMigrations (db : Database) : Except DbError Database := do
  let db ← Statement.run .createVersions db
  let currentVersion := db.currentVersion
  migrations.foldlM (fun db m => if currentVersion < m.1 then play Statement.run m.2 db else .ok db) db

end ContextqlServer.Db.Migrations
