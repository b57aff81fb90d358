import ContextqlServer.Deepsee.Cases
import ContextqlServer.Deepsee.Machine
import ContextqlServer.Deepsee.Wire
import ContextqlServer.Lib.Effect

namespace ContextqlServer.Deepsee.RemoteProvider

open ContextqlServer.Lib.Effect ContextqlServer.Lib.Mapping ContextqlServer.Lib.Python
open ContextqlServer.Deepsee.Models ContextqlServer.Deepsee.MockService ContextqlServer.Deepsee.Client
open ContextqlServer.Deepsee.Cases ContextqlServer.Deepsee.Machine ContextqlServer.Deepsee.Wire

structure RemoteResult where
  rows : List Row
  schema : Dict String String
  dataAsOf : WireTime
  sourceWatermark : String
  nextCursor : Option String

/-- `int(x)` -/
def intOfValue : Value → Except Exn Int
  | .int n => .ok n
  | .bool b => .ok b.toNat
  | .str s => intOf s
  | .float (.finite q) => .ok (if q < 0 then q.ceil else q.floor)
  | .float (.inf _) => .error (.overflowError "cannot convert float infinity to integer")
  | .float .nan => .error (.valueError "cannot convert float NaN to integer")
  | .none => .error (.typeError
      "int() argument must be a string, a bytes-like object or a real number, not 'NoneType'")

/-- `int(row[column])` -/
def idOf (column : String) (row : Row) : Except Exn Int :=
  match row.lookup column with
  | none => .error (.keyError column)
  | some v => intOfValue v

def contained (entityFilter : Option EntityFilter) (requestedIds : Option (Finset Int)) (rows : List Row) :
    Except Exn Unit :=
  match entityFilter, requestedIds with
  | some f, some requested => do
    let ids ← rows.mapM (idOf f.column)
    if ids.any (fun i => i ∉ requested) then
      throw (contractError "DeepSee returned evidence outside the requested entity filter.")
  | _, _ => .ok ()

def query (c : DeepSeeClient) (now : Timestamp) (service : CaseRequest → Option String → Except Exn CasesResponse)
    (request : CaseRequest) : Except Exn RemoteResult := do
  if request.resource ∉ validResources then
    throw (contractError ("Unknown DeepSee resource " ++ quoted request.resource ++
      "; expected one of ['reconciliation_evidence', 'settlement_cases']."))
  let requestedIds ← request.requestedIds
  let response ← fetchCases c now service request
  contained request.entityFilter requestedIds response.rows
  return {
    rows := response.rows
    schema := response.schema
    dataAsOf := response.dataAsOf
    sourceWatermark := response.watermark
    nextCursor := response.nextCursor }

section Selection

variable {s : MockDeepSeeService} {request : CaseRequest} {ids : Finset Int}

theorem caseRow_id (resource : String) (i : Int) (score : Float64) :
    (caseRow resource i score).lookup "transaction_id" = some (.int i) := rfl

theorem applyFilter_subset {key : String} {value : FilterValue} {rows rows' : List Row}
    (h : applyFilter rows key value = .ok rows') : rows' ⊆ rows := by
  cases value with
  | one v =>
    obtain rfl := Except.ok.inj h
    exact List.filter_sublist.subset
  | among vs =>
    obtain rfl := Except.ok.inj h
    exact List.filter_sublist.subset
  | unhashable typeName => cases h
  | other =>
    obtain rfl := Except.ok.inj h
    exact List.nil_subset _

theorem applyFilters_subset {filters : List (String × FilterValue)} {rows rows' : List Row}
    (h : applyFilters filters rows = .ok rows') : rows' ⊆ rows := by
  induction filters generalizing rows with
  | nil =>
    obtain rfl := Except.ok.inj h
    exact List.Subset.refl _
  | cons f filters ih =>
    obtain ⟨rows₁, hone, hrest⟩ := bind_eq_ok.mp h
    exact List.Subset.trans (ih hrest) (applyFilter_subset hone)

theorem selected_requested {rows : List Row} (hids : request.requestedIds = .ok (some ids))
    (h : selected s request = .ok rows) {row : Row} (hrow : row ∈ rows) :
    ∃ i ∈ ids, row.lookup "transaction_id" = some (.int i) := by
  rw [selected, hids] at h
  have hmem := applyFilters_subset h hrow
  obtain ⟨i, hi, hfound⟩ := List.mem_filterMap.mp hmem
  obtain ⟨score, -, rfl⟩ := Option.map_eq_some_iff.mp hfound
  have hrequested := (List.mem_filter.mp hi).2
  exact ⟨i, by simpa using hrequested, caseRow_id _ _ _⟩

theorem mem_slice {α : Type} {xs : List α} {i j : Int} {x : α} (h : x ∈ slice xs i j) : x ∈ xs :=
  List.mem_of_mem_drop (List.mem_of_mem_take h)

theorem slice_map {α β : Type} (f : α → β) (xs : List α) (i j : Int) :
    slice (xs.map f) i j = (slice xs i j).map f := by
  rw [slice, slice, List.length_map, List.map_take, List.map_drop]

theorem limited_projected (rows : List Row) (columns : List String) (hcolumns : columns ≠ []) :
    request.limited ({ request with columns }.projected rows) = (request.limited rows).map (restrict columns) := by
  rw [CaseRequest.projected, if_neg hcolumns, CaseRequest.limited, CaseRequest.limited]
  cases request.limit with
  | none => rfl
  | some limit => exact slice_map _ _ _ _

end Selection

section Projection

variable {c : DeepSeeClient} {now : Timestamp} {s : MockDeepSeeService} {request : CaseRequest} {columns : List String}

def admitted (s : MockDeepSeeService) (request : CaseRequest) (token : Option String) : Except Exn (List Row) := do
  s.enterCall token
  if request.resource ∉ validResources then
    throw (.deepSee ⟨.terminal, ⟨"UNKNOWN_RESOURCE", "Unknown resource " ++ quoted request.resource ++
      "; expected one of ['reconciliation_evidence', 'settlement_cases'].", false, none⟩⟩)
  selected s request

/-- A request that reaches the check of the entity filter, and the rows selected for it. -/
def Answered (c : DeepSeeClient) (now : Timestamp) (s : MockDeepSeeService) (request : CaseRequest)
    (rows : List Row) : Prop :=
  admitted s request c.token = .ok rows ∧ c.validateFreshness now s.dataAsOf = .ok ()

theorem fetchCases_columns (c : DeepSeeClient) (now : Timestamp) (s : MockDeepSeeService) (request : CaseRequest) :
    (∃ e, (∀ columns, fetchCases c now (cases s) { request with columns } = .error e) ∧
      ∀ rows, ¬ Answered c now s request rows) ∨
    ∃ rows, Answered c now s request rows ∧ ∀ columns, ∃ response,
      fetchCases c now (cases s) { request with columns } = .ok response ∧
        response.rows = request.limited ({ request with columns }.projected rows) := by
  have hadmitted : ∀ columns, cases s { request with columns } c.token =
      (admitted s request c.token).bind fun rows => .ok {
        resource := request.resource
        rows := request.limited ({ request with columns }.projected rows)
        schema := collect (fun c => caseSchema.lookup c)
          ((caseSchema.map Prod.fst).filter (fun c => columns = [] || c ∈ columns))
        dataAsOf := s.dataAsOf
        watermark := s.watermark
        nextCursor := none } := by
    intro columns
    rw [cases, admitted]
    cases s.enterCall c.token with
    | error e => rfl
    | ok u =>
      by_cases hresource : request.resource ∉ validResources
      · simp only [bind, Except.bind, if_pos hresource]
        rfl
      · simp only [bind, Except.bind, if_neg hresource]
        rfl
  cases hrows : admitted s request c.token with
  | error e =>
    left
    refine ⟨e, fun columns => ?_, fun rows h => nomatch hrows.symm.trans h.1⟩
    rw [fetchCases, hadmitted, hrows]
    rfl
  | ok rows =>
    cases hfresh : c.validateFreshness now s.dataAsOf with
    | error e =>
      left
      refine ⟨e, fun columns => ?_, fun rows h => nomatch hfresh.symm.trans h.2⟩
      rw [fetchCases, hadmitted, hrows]
      simp only [bind, Except.bind, hfresh]
    | ok u =>
      right
      refine ⟨rows, ⟨hrows, hfresh⟩, fun columns => ?_⟩
      rw [fetchCases, hadmitted, hrows]
      simp only [bind, Except.bind, hfresh]
      exact ⟨_, rfl, rfl⟩

variable {f : EntityFilter} {ids : Finset Int} {response : CasesResponse}

theorem contained_ok {rows : List Row} (h : ∀ row ∈ rows, ∃ i ∈ ids, idOf f.column row = .ok i) :
    contained (some f) (some ids) rows = .ok () := by
  obtain ⟨found, hfound⟩ := mapM_total (fun row hrow => (h row hrow).imp fun _ hi => hi.2)
  have hinside : found.any (fun i => i ∉ ids) = false := by
    rw [List.any_eq_false]
    intro i hi
    obtain ⟨row, hrow, hid⟩ := (mem_of_mapM hfound).mp hi
    obtain ⟨i', hi', hid'⟩ := h row hrow
    obtain rfl := Except.ok.inj (hid.symm.trans hid')
    simpa using hi'
  rw [contained, hfound]
  simp only [bind, Except.bind, hinside]
  rfl

theorem contained_missing {rows : List Row} {row : Row} (hrow : row ∈ rows) (hcolumn : row.lookup f.column = none) :
    ∃ e, contained (some f) (some ids) rows = .error e := by
  cases h : contained (some f) (some ids) rows with
  | error e => exact ⟨e, rfl⟩
  | ok u =>
    rw [contained] at h
    obtain ⟨found, hfound, -⟩ := bind_eq_ok.mp h
    obtain ⟨i, hi⟩ := ok_of_mapM hfound hrow
    rw [idOf, hcolumn] at hi
    cases hi

theorem contained_outside {rows : List Row} (hall : ∀ row ∈ rows, ∃ i, idOf f.column row = .ok i)
    {row : Row} (hrow : row ∈ rows) {i : Int} (hi : idOf f.column row = .ok i) (hout : i ∉ ids) :
    contained (some f) (some ids) rows =
      .error (contractError "DeepSee returned evidence outside the requested entity filter.") := by
  obtain ⟨found, hfound⟩ := mapM_total hall
  have houtside : found.any (fun i => i ∉ ids) = true := by
    rw [List.any_eq_true]
    exact ⟨i, (mem_of_mapM hfound).mpr ⟨row, hrow, hi⟩, decide_eq_true hout⟩
  rw [contained, hfound]
  simp only [bind, Except.bind, houtside, if_true]
  rfl

theorem idOf_not_contract {column : String} {row : Row} {e : Exn} (h : idOf column row = .error e) :
    ¬ IsContractError e := by
  rintro ⟨d, rfl, -⟩
  rw [idOf] at h
  split at h
  · cases h
  · unfold intOfValue at h
    split at h <;> try cases h
    rw [intOf] at h
    split at h <;> cases h

/-- Rows of which one is outside the filter are refused with a contract error where all of them carry
an id, and with another error else. -/
theorem contained_contract {rows : List Row} (hsome : ∃ row ∈ rows, ∃ i ∉ ids, idOf f.column row = .ok i) :
    (∃ e, contained (some f) (some ids) rows = .error e ∧ IsContractError e) ↔
      ∀ row ∈ rows, ∃ i, idOf f.column row = .ok i := by
  constructor
  · rintro ⟨e, he, hcontract⟩
    cases hfound : rows.mapM (idOf f.column) with
    | ok found => exact fun row hrow => ok_of_mapM hfound hrow
    | error e' =>
      rw [contained, hfound] at he
      obtain rfl := Except.error.inj he
      obtain ⟨row, -, hrow⟩ := mapM_error hfound
      exact absurd hcontract (idOf_not_contract hrow)
  · intro hall
    obtain ⟨row, hrow, i, hout, hi⟩ := hsome
    exact ⟨_, contained_outside hall hrow hi hout, isContractError _⟩

def projectedRows (c : DeepSeeClient) (now : Timestamp) (s : MockDeepSeeService) (request : CaseRequest)
    (columns : List String) :
    Except Exn (List Row) :=
  (query c now (cases s) { request with columns }).map RemoteResult.rows

theorem requestedIds_ok (request : CaseRequest) (hfilter : request.entityFilter = some f) (hids : f.ids = .ok ids) :
    request.requestedIds = .ok (some ids) := by
  simp only [CaseRequest.requestedIds, hfilter, hids]

theorem requestedIds_error (request : CaseRequest) {message : String} (hfilter : request.entityFilter = some f)
    (hids : f.ids = .error message) : request.requestedIds = .error (.external message) := by
  simp only [CaseRequest.requestedIds, hfilter, hids]

theorem query_eq (request : CaseRequest) (service : CaseRequest → Option String → Except Exn CasesResponse)
    (hresource : request.resource ∈ validResources) (hfilter : request.entityFilter = some f) (hids : f.ids = .ok ids) :
    query c now service request =
      (fetchCases c now service request).bind fun response =>
        (contained (some f) (some ids) response.rows).map fun _ =>
          ⟨response.rows, response.schema, response.dataAsOf, response.watermark, response.nextCursor⟩ := by
  rw [query, if_neg (not_not.mpr hresource), requestedIds_ok request hfilter hids, hfilter]
  simp only [Except.map, pure, Except.pure, bind, Except.bind]

theorem idOf_restrict {row : Row} {i : Int} (hcolumn : "transaction_id" ∈ columns)
    (hrow : row.lookup "transaction_id" = some (.int i)) : idOf "transaction_id" (restrict columns row) = .ok i := by
  rw [idOf, lookup_restrict, if_pos hcolumn, Cases.get, hrow]
  rfl

theorem idOf_row {row : Row} {i : Int} (hrow : row.lookup "transaction_id" = some (.int i)) :
    idOf "transaction_id" row = .ok i := by
  rw [idOf, hrow]
  rfl

theorem mem_limited {rows : List Row} {row : Row} (h : row ∈ request.limited rows) : row ∈ rows := by
  rw [CaseRequest.limited] at h
  cases hlimit : request.limit with
  | none =>
    rw [hlimit] at h
    exact h
  | some limit =>
    rw [hlimit] at h
    exact mem_slice h

/-- A query with columns returns the rows of the query without, restricted to them, or raises what
it raises. -/
def Commutes (c : DeepSeeClient) (now : Timestamp) (s : MockDeepSeeService) (request : CaseRequest)
    (columns : List String) : Prop :=
  projectedRows c now s request columns = (projectedRows c now s request []).map (List.map (restrict columns))

theorem commutes_refused (hresource : request.resource ∉ validResources) : Commutes c now s request columns := by
  rw [Commutes, projectedRows, projectedRows, query, query, if_pos hresource, if_pos hresource]
  rfl

theorem commutes_unreadable {message : String} (hfilter : request.entityFilter = some f)
    (hids : f.ids = .error message) :
    Commutes c now s request columns := by
  by_cases hresource : request.resource ∈ validResources
  · have hraises : ∀ columns, projectedRows c now s request columns = .error (.external message) := by
      intro columns
      have hread := requestedIds_error { request with columns } hfilter hids
      rw [projectedRows, query, if_neg (not_not.mpr hresource), hread]
      rfl
    rw [Commutes, hraises, hraises]
    rfl
  · exact commutes_refused hresource

theorem Answered.supported {rows : List Row} (h : Answered c now s request rows) :
    request.resource ∈ validResources := by
  by_contra hresource
  obtain ⟨_, -, hrest⟩ := bind_eq_ok.mp h.1
  rw [if_pos hresource] at hrest
  cases hrest

theorem Answered.selected {rows : List Row} (h : Answered c now s request rows) : selected s request = .ok rows := by
  obtain ⟨_, -, hrest⟩ := bind_eq_ok.mp h.1
  rw [if_neg (not_not.mpr h.supported)] at hrest
  exact hrest

theorem Answered.readable {rows : List Row} (h : Answered c now s request rows)
    (hfilter : request.entityFilter = some f) : ∃ ids, f.ids = .ok ids := by
  obtain ⟨_, hread, -⟩ := bind_eq_ok.mp h.selected
  cases hids : f.ids with
  | ok ids => exact ⟨ids, rfl⟩
  | error message =>
    rw [requestedIds_error request hfilter hids] at hread
    cases hread

theorem projectedRows_error {e : Exn} (hresource : request.resource ∈ validResources)
    (hfilter : request.entityFilter = some f) (hids : f.ids = .ok ids)
    (h : fetchCases c now (cases s) { request with columns } = .error e) :
    projectedRows c now s request columns = .error e := by
  rw [projectedRows, query_eq { request with columns } _ hresource hfilter hids, h]
  rfl

theorem projectedRows_ok (hresource : request.resource ∈ validResources) (hfilter : request.entityFilter = some f)
    (hids : f.ids = .ok ids) (h : fetchCases c now (cases s) { request with columns } = .ok response)
    (hrows : ∀ row ∈ response.rows, ∃ i ∈ ids, idOf f.column row = .ok i) :
    projectedRows c now s request columns = .ok response.rows := by
  rw [projectedRows, query_eq { request with columns } _ hresource hfilter hids, h]
  simp only [Except.bind, contained_ok hrows]
  rfl

/-- Among answered queries, those whose rows keep the column of the filter commute, and those that
select nothing. -/
theorem commutes_answered {rows : List Row} (hanswered : Answered c now s request rows)
    (hfilter : request.entityFilter = some f) (hcolumn : f.column = "transaction_id") (hcolumns : columns ≠ []) :
    Commutes c now s request columns ↔ "transaction_id" ∈ columns ∨ request.limited rows = [] := by
  have hresource := hanswered.supported
  obtain ⟨ids, hids⟩ := hanswered.readable hfilter
  have hselected : ∀ row ∈ request.limited rows, ∃ i ∈ ids, row.lookup "transaction_id" = some (.int i) :=
    fun row hrow => selected_requested (requestedIds_ok request hfilter hids) hanswered.selected (mem_limited hrow)
  obtain ⟨e, -, hnone⟩ | ⟨rows', hanswered', hresponses⟩ := fetchCases_columns c now s request
  · exact absurd hanswered (hnone rows)
  obtain rfl : rows' = rows := Except.ok.inj (hanswered'.1.symm.trans hanswered.1)
  obtain ⟨whole, hwhole, hwholeRows⟩ := hresponses []
  obtain ⟨part, hpart, hpartRows⟩ := hresponses columns
  rw [CaseRequest.projected, if_pos rfl] at hwholeRows
  rw [limited_projected _ _ hcolumns] at hpartRows
  have hall : projectedRows c now s request [] = .ok (request.limited rows') := by
    rw [← hwholeRows]
    apply projectedRows_ok hresource hfilter hids hwhole
    intro row hrow
    rw [hwholeRows] at hrow
    obtain ⟨i, hi, hid⟩ := hselected row hrow
    rw [hcolumn]
    exact ⟨i, hi, idOf_row hid⟩
  have hgood (h : ∀ row ∈ part.rows, ∃ i ∈ ids, idOf f.column row = .ok i) : Commutes c now s request columns := by
    rw [Commutes, hall, projectedRows_ok hresource hfilter hids hpart h, hpartRows]
    rfl
  constructor
  · intro h
    by_contra hnot
    obtain ⟨hcolumn', hsome⟩ := not_or.mp hnot
    obtain ⟨row, hrow⟩ := List.exists_mem_of_ne_nil _ hsome
    have hmissing : (restrict columns row).lookup f.column = none := by
      rw [lookup_restrict, hcolumn, if_neg hcolumn']
    have hmem : restrict columns row ∈ part.rows := by
      rw [hpartRows]
      exact List.mem_map_of_mem hrow
    obtain ⟨e, he⟩ : ∃ e, contained (some f) (some ids) part.rows = .error e := contained_missing hmem hmissing
    rw [Commutes, hall, projectedRows, query_eq { request with columns } _ hresource hfilter hids, hpart] at h
    simp only [Except.bind, he] at h
    cases h
  · rintro (hmem | hnil)
    · apply hgood
      intro row hrow
      rw [hpartRows] at hrow
      obtain ⟨whole, hwhole, rfl⟩ := List.mem_map.mp hrow
      obtain ⟨i, hi, hid⟩ := hselected whole hwhole
      rw [hcolumn]
      exact ⟨i, hi, idOf_restrict hmem hid⟩
    · apply hgood
      intro row hrow
      rw [hpartRows, hnil] at hrow
      cases hrow

theorem commutes_unanswered (hnone : ∀ rows, ¬ Answered c now s request rows)
    (hfilter : request.entityFilter = some f) : Commutes c now s request columns := by
  by_cases hresource : request.resource ∈ validResources
  · cases hids : f.ids with
    | error e => exact commutes_unreadable hfilter hids
    | ok ids =>
      obtain ⟨e, hrefused, -⟩ | ⟨rows, hanswered, -⟩ := fetchCases_columns c now s request
      · rw [Commutes, projectedRows_error hresource hfilter hids (hrefused columns),
          projectedRows_error hresource hfilter hids (hrefused [])]
        rfl
      · exact absurd hanswered (hnone rows)
  · exact commutes_refused hresource

/-- A response with a row outside the filter is refused with a contract error where the time of its
data can be read and all its rows carry an id, or the data is too old. -/
theorem query_outside {service : CaseRequest → Option String → Except Exn CasesResponse} {response : CasesResponse}
    (hresource : request.resource ∈ validResources) (hfilter : request.entityFilter = some f)
    (hids : f.ids = .ok ids) (hservice : service request c.token = .ok response)
    (hsome : ∃ row ∈ response.rows, ∃ i ∉ ids, idOf f.column row = .ok i) :
    (∃ e, query c now service request = .error e ∧ IsContractError e) ↔
      Legible c response.dataAsOf ∧ (c.validateFreshness now response.dataAsOf = .ok () →
        ∀ row ∈ response.rows, ∃ i, idOf f.column row = .ok i) := by
  rw [query_eq request service hresource hfilter hids, fetchCases, hservice, ← contained_contract hsome]
  cases hfresh : c.validateFreshness now response.dataAsOf with
  | error e =>
    simp only [bind, Except.bind, hfresh]
    constructor
    · rintro ⟨e', he', hcontract⟩
      obtain rfl := Except.error.inj he'
      refine ⟨legible_of_contract hfresh hcontract, fun hok => ?_⟩
      cases hok
    · exact fun h => ⟨e, rfl, contractual_freshness h.1 e hfresh⟩
  | ok u =>
    simp only [bind, Except.bind, hfresh, pure, Except.pure]
    rw [and_iff_right (legible_of_fresh hfresh)]
    cases contained (some f) (some ids) response.rows with
    | ok _ => simp [Except.map]
    | error e => simp [Except.map]

/-- A query that projects the column of the filter away fails on the rows it has selected; with the
column, or without rows, projection commutes with the filter. A row outside the filter is refused
with a contract error, whatever the columns, where the time and the ids of the response can be read. -/
theorem projection_iff (c : DeepSeeClient) (now : Timestamp) (s : MockDeepSeeService) (request : CaseRequest)
    (f : EntityFilter) (columns : List String) (hfilter : request.entityFilter = some f)
    (hcolumn : f.column = "transaction_id") (hcolumns : columns ≠ []) :
    (Commutes c now s request columns ↔
      "transaction_id" ∈ columns ∨ ∀ rows, Answered c now s request rows → request.limited rows = []) ∧
    ∀ (ids : Finset Int) (response : CasesResponse) (service : CaseRequest → Option String → Except Exn CasesResponse),
      request.resource ∈ validResources → f.ids = .ok ids →
      service { request with columns } c.token = .ok response →
      (∃ row ∈ response.rows, ∃ i ∉ ids, idOf f.column row = .ok i) →
      ((∃ e, query c now service { request with columns } = .error e ∧ IsContractError e) ↔
        Legible c response.dataAsOf ∧ (c.validateFreshness now response.dataAsOf = .ok () →
          ∀ row ∈ response.rows, ∃ i, idOf f.column row = .ok i)) := by
  constructor
  · by_cases hsome : ∃ rows, Answered c now s request rows
    · obtain ⟨rows, hanswered⟩ := hsome
      rw [commutes_answered hanswered hfilter hcolumn hcolumns]
      apply or_congr_right
      constructor
      · intro hnil rows' hanswered'
        obtain rfl := Except.ok.inj (hanswered.1.symm.trans hanswered'.1)
        exact hnil
      · exact fun h => h rows hanswered
    · have hnone := not_exists.mp hsome
      exact iff_of_true (commutes_unanswered hnone hfilter) (.inr fun rows h => absurd h (hnone rows))
  · intro ids response service hresource hids hservice hsome
    exact query_outside hresource hfilter hids hservice hsome

end Projection

section Sample

def sampleRequest (columns : List String) : CaseRequest where
  resource := resourceSettlementCases
  filters := []
  columns
  limit := none
  entityFilter := some ⟨"transaction_id", .ok {7}⟩

/-- A service whose only member is the one that the filter asks for. -/
def oneCase : MockDeepSeeService := sampleService (Finmap.singleton 7 (.finite (1 / 2))) 1

/-- A response with a row outside the filter. -/
def foreignResponse : CasesResponse where
  resource := resourceSettlementCases
  rows := [caseRow resourceSettlementCases 8 (.finite (1 / 2))]
  schema := ∅
  dataAsOf := .iso baseTime
  watermark := watermarkOf 0
  nextCursor := none

theorem projection_iff_sample :
    (Commutes sampleSynchronizer.client baseTime oneCase (sampleRequest []) ["break_type"] ↔
      "transaction_id" ∈ ["break_type"] ∨
        ∀ rows, Answered sampleSynchronizer.client baseTime oneCase (sampleRequest []) rows →
          (sampleRequest []).limited rows = []) ∧
    ∃ e, query sampleSynchronizer.client baseTime (fun _ _ => .ok foreignResponse)
        (sampleRequest ["transaction_id"]) = .error e ∧ IsContractError e := by
  constructor
  · exact (projection_iff sampleSynchronizer.client baseTime oneCase (sampleRequest []) _ ["break_type"] rfl rfl
      (by simp)).1
  · apply ((projection_iff sampleSynchronizer.client baseTime oneCase (sampleRequest []) _ ["transaction_id"] rfl rfl
      (by simp)).2 {7} foreignResponse (fun _ _ => .ok foreignResponse) (by decide) rfl rfl
      ⟨_, List.mem_singleton_self _, 8, by decide, rfl⟩).mpr
    refine ⟨.inl rfl, fun _ row hrow => ?_⟩
    obtain rfl := List.mem_singleton.mp hrow
    exact ⟨8, rfl⟩

theorem projection_loses_filter :
    query sampleSynchronizer.client baseTime (cases oneCase) (sampleRequest ["break_type"]) =
        .error (.keyError "transaction_id") ∧
      (query sampleSynchronizer.client baseTime (cases oneCase) (sampleRequest [])).map RemoteResult.rows =
        .ok [caseRow resourceSettlementCases 7 (.finite (1 / 2))] := ⟨rfl, rfl⟩

end Sample

end ContextqlServer.Deepsee.RemoteProvider
