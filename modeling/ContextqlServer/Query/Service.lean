import ContextqlServer.Lib.Effect
import ContextqlServer.Lib.JsonCompact

namespace ContextqlServer.Query.Service

open ContextqlServer.Lib.Effect ContextqlServer.Lib.JsonText ContextqlServer.Lib.Python

inductive QueryError where
  | valueError (message : String)
  | external (message : String)
  deriving DecidableEq

section Engine

/-- A statement as `analyze_sql` records it: a `QueryModel` with its limit, or another one. -/
inductive Statement where
  | queryModel (limit : Option Int)
  | other
  deriving DecidableEq

structure Analysis where
  ok : Bool
  statements : List Statement

/-- A value in a row of a data frame. What is no JSON value has its text as `str`
gives it, and what a response writes for it. -/
inductive Value where
  | null
  | bool (b : Bool)
  | int (n : Int)
  | float (x : Float64)
  | str (s : String)
  | list (items : List Value)
  | dict (members : List (String × Value))
  | other (text : String) (wire : Json)

abbrev Row := List (String × Value)

/-- What the engine returns, with its rows as records. -/
structure EngineResult where
  rows : List Row
  rowCount : Int
  columns : List String
  sql : String
  diagnostics : List String
  trace : Option String

end Engine

namespace Value

section Json

-- What is written for a value that is no JSON value.
variable (unknown : String → Json → Json)

mutual

def json : Value → Json
  | .null => .null
  | .bool b => .bool b
  | .int n => .int n
  | .float x => .float x
  | .str s => .str s
  | .list items => .arr (jsonItems items)
  | .dict members => .obj (jsonMembers members)
  | .other text wire => unknown text wire

def jsonItems : List Value → List Json
  | [] => []
  | v :: vs => json v :: jsonItems vs

def jsonMembers : List (String × Value) → List (String × Json)
  | [] => []
  | (k, v) :: ms => (k, json v) :: jsonMembers ms

end

end Json

def wire : Value → Json := json (fun _ wire => wire)

end Value

structure QueryMeta where
  executionTimeMs : Float64
  rowCount : Int
  columns : List String
  generatedSql : String
  diagnostics : List String

structure QueryResult where
  rows : List Row
  queryMeta : QueryMeta
  trace : Option String

structure QueryResponse where
  rows : List Row
  queryMeta : QueryMeta

inductive QueryOp where
  | analyzeSql (query : String)
  | execute (query : String)
  | perfCounter

abbrev querySig : Sig where
  Op := QueryOp
  Res
    | .analyzeSql _ => Analysis
    | .execute _ => EngineResult
    | .perfCounter => Float64

abbrev QueryProg := Prog querySig QueryError

/-- Floating-point texts, and the milliseconds between two readings, rounded. -/
structure Floats extends FloatText where
  elapsedMs : Float64 → Float64 → Float64

/-- The texts and times of a clock that stands still. -/
def stillFloats : Floats where
  repr _ := "0.0"
  parse _ := 0
  elapsedMs _ _ := 0

structure QueryService where
  maxResultRows : Int
  maxResponseBytes : Nat
  positive : 0 < maxResultRows ∧ 0 < maxResponseBytes

namespace QueryService

variable (self : QueryService) (F : Floats)

/-- Only the first statement of a text that was analysed without errors is looked at. -/
def validateSelectLimit (query : String) : QueryProg Unit := do
  let analysis ← Prog.perform (S := querySig) (.analyzeSql query)
  if !analysis.ok then pure ()
  else
    match analysis.statements with
    | .queryModel limit :: _ =>
      match limit with
      | none => throw (.valueError "[E305] server SELECT queries require an explicit LIMIT.")
      | some limit =>
        if limit > self.maxResultRows then
          throw (.valueError
            s!"[E305] query LIMIT exceeds the configured maximum of {self.maxResultRows} rows.")
        else pure ()
    | _ => pure ()

/-- A top-level `NaN` or infinity becomes `None`. -/
def cleanValue : Value → Value
  | .float .nan => .null
  | .float (.inf _) => .null
  | v => v

def cleanRow (row : Row) : Row := row.map (fun m => (m.1, cleanValue m.2))

/-- The bytes of a row as `json.dumps` writes it in ASCII. -/
def rowSize (row : Row) : Nat :=
  encodedLength escapeChar F.toFloatText (.obj (Value.jsonMembers (fun text _ => .str text) row))

def checkSize (size : Nat) : List Row → Except QueryError Unit
  | [] => .ok ()
  | row :: rows =>
    let size := size + (rowSize F row + 1)
    if size > self.maxResponseBytes then
      .error (.valueError ("[E306] encoded query response exceeds the configured maximum of " ++
        toString self.maxResponseBytes ++ " bytes."))
    else checkSize size rows

def execute (query : String) : QueryProg QueryResult := do
  self.validateSelectLimit query
  let start ← Prog.perform (S := querySig) .perfCounter
  let result ← Prog.perform (S := querySig) (.execute query)
  let stop ← Prog.perform (S := querySig) .perfCounter
  let rows := result.rows.map cleanRow
  Prog.ofExcept (self.checkSize F 2 rows)
  pure ⟨rows, ⟨F.elapsedMs start stop, result.rowCount, result.columns, result.sql, result.diagnostics⟩,
    result.trace⟩

def executeResponse (query : String) : QueryProg QueryResponse := do
  let qr ← self.execute F query
  pure ⟨qr.rows, qr.queryMeta⟩

end QueryService

section Encoding

/-- The rows of a response, and its metadata, as they are written. -/
def rowsJson (rows : List Row) : Json :=
  .arr (rows.map (fun row => .obj (Value.jsonMembers (fun _ wire => wire) row)))

def QueryMeta.json (m : QueryMeta) : Json :=
  .obj [("execution_time_ms", .float m.executionTimeMs), ("row_count", .int m.rowCount),
    ("columns", .arr (m.columns.map .str)), ("generated_sql", .str m.generatedSql),
    ("diagnostics", .arr (m.diagnostics.map .str))]

def QueryResponse.json (r : QueryResponse) : Json :=
  .obj [("rows", rowsJson r.rows), ("meta", r.queryMeta.json)]

end Encoding

/-- The engine: what it answers to an analysis and to a text, and the readings of the clock. -/
structure Engine where
  analyzeSql : String → Except QueryError Analysis
  execute : String → Except QueryError EngineResult
  perfCounter : Nat → Float64

/-- The texts that the engine was given to run, and the readings made so far. -/
structure World where
  executed : List String
  readings : Nat

def Engine.handler (E : Engine) : Handler querySig QueryError World where
  perform
    | .analyzeSql query, w => (E.analyzeSql query, w)
    | .execute query, w => (E.execute query, { w with executed := w.executed ++ [query] })
    | .perfCounter, w => (.ok (E.perfCounter w.readings), { w with readings := w.readings + 1 })
  fault _ := none

end ContextqlServer.Query.Service
