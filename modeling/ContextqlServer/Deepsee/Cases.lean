import ContextqlServer.Deepsee.Client
import ContextqlServer.Lib.Isoformat

namespace ContextqlServer.Deepsee.Cases

open ContextqlServer.Lib.Isoformat ContextqlServer.Lib.Mapping ContextqlServer.Lib.Python
open ContextqlServer.Deepsee.Models ContextqlServer.Deepsee.MockService ContextqlServer.Deepsee.Client

def resourceSettlementCases : String := "settlement_cases"

def resourceReconciliationEvidence : String := "reconciliation_evidence"

/-- `sorted(VALID_RESOURCES)` -/
def validResources : List String := [resourceReconciliationEvidence, resourceSettlementCases]

section Values

/-- A value in a row, or one that a filter compares with. -/
inductive Value where
  | none
  | bool (b : Bool)
  | int (n : Int)
  | float (x : Float64)
  | str (s : String)
  deriving DecidableEq

def Value.number : Value → Option Float64
  | .bool b => some (.finite b.toNat)
  | .int n => some (.finite n)
  | .float x => some x
  | .none | .str _ => Option.none

/-- `x == y`, where a number is compared by its value. -/
def Value.same (x y : Value) : Bool :=
  match x.number, y.number with
  | some a, some b => a.same b
  | Option.none, Option.none => x = y
  | _, _ => false

/-- The value of a filter: one to be equal to, a collection to be in, a collection with a
member that has no hash, or an object that equals no value of a row. -/
inductive FilterValue where
  | one (v : Value)
  | among (vs : List Value)
  | unhashable (typeName : String)
  | other

abbrev Row := Dict String Value

def get (row : Row) (key : String) : Value := (row.lookup key).getD .none

/-- `{c: row.get(c) for c in columns}` -/
def restrict (columns : List String) (row : Row) : Row := collect (fun c => some (get row c)) columns

theorem lookup_restrict {columns : List String} {row : Row} {c : String} :
    (restrict columns row).lookup c = if c ∈ columns then some (get row c) else none := by
  rw [restrict, lookup_collect]

/-- One filter, as the loop over them applies it. -/
def applyFilter (rows : List Row) (key : String) : FilterValue → Except Exn (List Row)
  | .one v => .ok (rows.filter (fun row => (get row key).same v))
  | .among vs => .ok (rows.filter (fun row => vs.any (fun v => (get row key).same v)))
  | .unhashable typeName => .error (.typeError ("unhashable type: " ++ quoted typeName))
  | .other => .ok []

def applyFilters (filters : List (String × FilterValue)) (rows : List Row) : Except Exn (List Row) :=
  filters.foldlM (fun rows f => applyFilter rows f.1 f.2) rows

end Values

section Rows

def breakTypes : List String := ["quantity_mismatch", "price_mismatch", "missing_confirmation", "ssi_mismatch"]

def actions : List String := ["amend_and_resubmit", "affirm_with_counterparty", "escalate_to_desk", "cancel_and_rebook"]

def owners : List String := ["ops-alice", "ops-bob", "ops-carol"]

def caseStatuses : List String := ["open", "investigating", "resolved"]

def caseSchema : List (String × String) :=
  [("transaction_id", "INT64"), ("break_type", "VARCHAR"), ("recommended_action", "VARCHAR"),
    ("agent_decision", "VARCHAR"), ("confidence", "DOUBLE"), ("explanation", "VARCHAR"),
    ("evidence_ref", "VARCHAR"), ("case_status", "VARCHAR"), ("owner", "VARCHAR"), ("last_reviewed_at", "VARCHAR")]

/-- `xs[i % len(xs)]`, where the remainder of a negative number is not negative. -/
def cycled (xs : List String) (i : Int) : String := xs.getD (i % xs.length).toNat ""

/-- `(_BASE_TIME + timedelta(minutes=i % 60)).isoformat()` -/
def reviewedAt (i : Int) : String := "2026-07-01T00:" ++ zpad 2 (i % 60).toNat ++ ":00+00:00"

def caseRow (resource : String) (entityId : Int) (score : Float64) : Row :=
  let kind := if resource = resourceReconciliationEvidence then "Reconciliation" else "Settlement"
  List.toFinmap [
    ⟨"transaction_id", .int entityId⟩,
    ⟨"break_type", .str (cycled breakTypes entityId)⟩,
    ⟨"recommended_action", .str (cycled actions entityId)⟩,
    ⟨"agent_decision", .str (if entityId % 2 = 0 then "auto_resolve" else "route_to_human")⟩,
    ⟨"confidence", .float score⟩,
    ⟨"explanation", .str (kind ++ " break on transaction " ++ toString entityId ++ ": " ++
      cycled breakTypes entityId ++ " detected.")⟩,
    ⟨"evidence_ref", .str (evidenceRef entityId)⟩,
    ⟨"case_status", .str (cycled caseStatuses entityId)⟩,
    ⟨"owner", .str (cycled owners entityId)⟩,
    ⟨"last_reviewed_at", .str (reviewedAt entityId)⟩]

end Rows

/-- An entity filter of the `contextql` package, with what reading its ids gives or says. -/
structure EntityFilter where
  column : String
  ids : Except String (Finset Int)

structure CaseRequest where
  resource : String
  filters : List (String × FilterValue)
  columns : List String
  limit : Option Int
  entityFilter : Option EntityFilter

structure CasesResponse where
  resource : String
  rows : List Row
  schema : Dict String String
  dataAsOf : WireTime
  watermark : String
  nextCursor : Option String

namespace CaseRequest

variable (request : CaseRequest)

/-- `entity_filter.ids() if entity_filter is not None else None` -/
def requestedIds : Except Exn (Option (Finset Int)) :=
  match request.entityFilter with
  | none => .ok none
  | some f =>
    match f.ids with
    | .ok ids => .ok (some ids)
    | .error message => .error (.external message)

/-- `rows[:limit]`, where there is a limit. -/
def limited (rows : List Row) : List Row := request.limit.elim rows (slice rows 0)

def projected (rows : List Row) : List Row :=
  if request.columns = [] then rows else rows.map (restrict request.columns)

end CaseRequest

def selected (s : MockDeepSeeService) (request : CaseRequest) : Except Exn (List Row) := do
  let requestedMembers ← request.requestedIds
  let members := (sorted s.members.keys).filter (fun i => requestedMembers.all (fun ids => i ∈ ids))
  let rows := members.filterMap (fun i => (s.members.lookup i).map (caseRow request.resource i))
  applyFilters request.filters rows

def cases (s : MockDeepSeeService) (request : CaseRequest) (token : Option String) : Except Exn CasesResponse := do
  s.enterCall token
  if request.resource ∉ validResources then
    throw (.deepSee ⟨.terminal, ⟨"UNKNOWN_RESOURCE", "Unknown resource " ++ quoted request.resource ++
      "; expected one of ['reconciliation_evidence', 'settlement_cases'].", false, none⟩⟩)
  let rows ← selected s request
  return {
    resource := request.resource
    rows := request.limited (request.projected rows)
    schema := collect (fun c => caseSchema.lookup c)
      ((caseSchema.map Prod.fst).filter (fun c => request.columns = [] || c ∈ request.columns))
    dataAsOf := s.dataAsOf
    watermark := s.watermark
    nextCursor := none }

/-- Fetch evidence rows for a REMOTE resource. -/
def fetchCases (c : DeepSeeClient) (now : Timestamp)
    (service : CaseRequest → Option String → Except Exn CasesResponse) (request : CaseRequest) :
    Except Exn CasesResponse := do
  let response ← service request c.token
  c.validateFreshness now response.dataAsOf
  return response

end ContextqlServer.Deepsee.Cases
