import ContextqlServer.Query.SelectLimits

namespace ContextqlServer.Query.ResponseBounds

open ContextqlServer.Lib.Effect ContextqlServer.Lib.Python ContextqlServer.Lib.JsonText
open ContextqlServer.Query.Service ContextqlServer.Query.Service.QueryService ContextqlServer.Query.SelectLimits

variable {self : QueryService} {F : Floats} {E : Engine} {query : String} {w : World}

section Sizes

def estimate (F : Floats) (rows : List Row) : Nat := 2 + (rows.map (fun row => rowSize F row + 1)).sum

theorem checkSize_ok {size : Nat} {rows : List Row} :
    self.checkSize F size rows = .ok () ↔
      rows = [] ∨ size + (rows.map (fun row => rowSize F row + 1)).sum ≤ self.maxResponseBytes := by
  induction rows generalizing size with
  | nil => simp [checkSize]
  | cons row rows ih =>
    rw [checkSize]
    split
    · constructor
      · exact fun h => by cases h
      · rintro (h | h)
        · cases h
        · rw [List.map_cons, List.sum_cons] at h
          omega
    · rw [ih, List.map_cons, List.sum_cons]
      constructor
      · rintro (rfl | h)
        · right
          rw [List.map_nil, List.sum_nil]
          omega
        · right
          omega
      · rintro (h | h)
        · cases h
        · right
          omega

theorem quoted_rows : utf8Length (quotedChars escapeControl "rows") = 6 := by decide

theorem quoted_meta : utf8Length (quotedChars escapeControl "meta") = 6 := by decide

def rowBytes (F : Floats) (row : Row) : Nat :=
  encodedLength escapeControl F.toFloatText (.obj (Value.jsonMembers (fun _ wire => wire) row))

theorem response_length (F : Floats) (rows : List Row) (m : QueryMeta) :
    encodedLength escapeControl F.toFloatText (QueryResponse.json ⟨rows, m⟩) =
      max 2 (1 + (rows.map (fun row => rowBytes F row + 1)).sum) +
        encodedLength escapeControl F.toFloatText m.json + 17 := by
  rw [QueryResponse.json, encodedLength_pair, quoted_rows, quoted_meta, rowsJson, encodedLength_arr, List.map_map]
  have hrows : ((fun x => encodedLength escapeControl F.toFloatText x + 1) ∘
      fun row => Json.obj (Value.jsonMembers (fun _ wire => wire) row)) = fun row => rowBytes F row + 1 := rfl
  rw [hrows]
  dsimp only
  omega

end Sizes

section Finite

theorem jsonMembers_eq (f : String → Json → Json) (row : Row) :
    Value.jsonMembers f row = row.map (fun m => (m.1, Value.json f m.2)) := by
  induction row with
  | nil => rfl
  | cons m row ih =>
    rw [Value.jsonMembers, ih]
    rfl

/-- What is not finite in a row stands at its top. -/
def Shallow (rows : List Row) : Prop :=
  ∀ row ∈ rows, ∀ m ∈ row, (∃ x, m.2 = .float x) ∨ isFinite m.2.wire

theorem isFinite_cleanValue {v : Value} : isFinite (cleanValue v).wire ↔ (∃ x, v = .float x) ∨ isFinite v.wire := by
  cases v with
  | float x =>
    refine iff_of_true ?_ (.inl ⟨x, rfl⟩)
    match x with
    | .nan => rfl
    | .inf _ => rfl
    | .finite q => simp [cleanValue, Value.wire, Value.json, isFinite]
  | null => simp [cleanValue]
  | bool b => simp [cleanValue]
  | int n => simp [cleanValue]
  | str s => simp [cleanValue]
  | list items => simp [cleanValue]
  | dict members => simp [cleanValue]
  | other text wire => simp [cleanValue]

theorem isFinite_rows {rows : List Row} : isFinite (rowsJson (rows.map cleanRow)) ↔ Shallow rows := by
  rw [rowsJson, isFinite, itemsFinite_iff, List.map_map, List.forall_mem_map]
  apply forall₂_congr
  intro row _
  change isFinite (.obj (Value.jsonMembers (fun _ wire => wire) (cleanRow row))) ↔ _
  rw [isFinite, membersFinite_iff, jsonMembers_eq, cleanRow, List.map_map, List.forall_mem_map]
  apply forall₂_congr
  intro m _
  exact isFinite_cleanValue

end Finite

/-- A response that is returned is finite and within the maximum. -/
def Bounded (self : QueryService) (F : Floats) (E : Engine) (query : String) (w : World) : Prop :=
  ∀ response, (E.handler.exec (self.executeResponse F query) w).1 = .ok response →
    isFinite (rowsJson response.rows) ∧
      encodedLength escapeControl F.toFloatText response.json ≤ self.maxResponseBytes

/-- The rows alone are above the maximum, as far as the loop adds them up. -/
def Oversized (self : QueryService) (F : Floats) (result : EngineResult) : Prop :=
  result.rows ≠ [] ∧ self.maxResponseBytes < estimate F (result.rows.map cleanRow)

/-- Nothing inside a list or an object is `NaN` or infinite, and there is room for the metadata. -/
def Fits (self : QueryService) (F : Floats) (result : EngineResult) (m : QueryMeta) : Prop :=
  Shallow result.rows ∧
    max 2 (1 + ((result.rows.map cleanRow).map (fun row => rowBytes F row + 1)).sum) +
      encodedLength escapeControl F.toFloatText m.json + 17 ≤ self.maxResponseBytes

theorem oversized_iff {result : EngineResult} :
    Oversized self F result ↔ self.checkSize F 2 (result.rows.map cleanRow) ≠ .ok () := by
  rw [ne_eq, checkSize_ok, List.map_eq_nil_iff, not_or, not_le]
  rfl

theorem returned_iff {response : QueryResponse} :
    (E.handler.exec (self.executeResponse F query) w).1 = .ok response ↔
      ∃ analysis result, E.analyzeSql query = .ok analysis ∧ ¬ Refused self analysis ∧
        E.execute query = .ok result ∧ ¬ Oversized self F result ∧
          response = ⟨result.rows.map cleanRow, metaOf F E result w⟩ := by
  rw [executeResponse, Handler.exec_bind_pure]
  cases h : E.analyzeSql query with
  | error e =>
    rw [execute_unanalysed h]
    simp [Except.map]
  | ok analysis =>
    by_cases hrefused : Refused self analysis
    · obtain ⟨⟨e, he⟩, -⟩ := stopped_of_refused (F := F) (w := w) h hrefused
      rw [he]
      simp [Except.map, hrefused]
    · rw [exec_execute h hrefused]
      cases hresult : E.execute query with
      | error e => simp [Except.map]
      | ok result =>
        simp only [Except.ok.injEq, exists_and_left, exists_eq_left', hrefused, not_false_eq_true, true_and,
          oversized_iff]
        cases self.checkSize F 2 (result.rows.map cleanRow) with
        | error e => simp [Except.map]
        | ok _ => simp [Except.map, eq_comm]

theorem bounded_iff (self : QueryService) (F : Floats) (E : Engine) (query : String) (w : World) :
    Bounded self F E query w ↔
      ∀ analysis result, E.analyzeSql query = .ok analysis → ¬ Refused self analysis →
        E.execute query = .ok result → Oversized self F result ∨ Fits self F result (metaOf F E result w) := by
  have hfits : ∀ result, Fits self F result (metaOf F E result w) ↔
      isFinite (rowsJson (result.rows.map cleanRow)) ∧ encodedLength escapeControl F.toFloatText
        (QueryResponse.json ⟨result.rows.map cleanRow, metaOf F E result w⟩) ≤ self.maxResponseBytes := by
    intro result
    rw [isFinite_rows, response_length, Fits]
  unfold Bounded
  simp only [returned_iff, hfits]
  constructor
  · intro h analysis result hanalysis hrefused hresult
    by_cases hover : Oversized self F result
    · exact .inl hover
    · exact .inr (h _ ⟨analysis, result, hanalysis, hrefused, hresult, hover, rfl⟩)
  · rintro h response ⟨analysis, result, hanalysis, hrefused, hresult, hover, rfl⟩
    exact (h analysis result hanalysis hrefused hresult).resolve_left hover

/-- One row, with a `NaN` inside a list. -/
def nestedNaN : Engine where
  analyzeSql _ := .ok ⟨true, [.queryModel (some 5)]⟩
  execute query := .ok ⟨[[("x", .list [.float .nan])]], 1, ["x"], query, [], none⟩
  perfCounter _ := 0

theorem nested_nan : ¬ Bounded tenThousand stillFloats nestedNaN "SELECT x FROM a LIMIT 5" ⟨[], 0⟩ := by
  rw [bounded_iff]
  intro h
  obtain ⟨-, hover⟩ | ⟨hshallow, -⟩ := h _ _ rfl (by simp [Refused, tenThousand]) rfl
  · exact absurd hover (by decide)
  · obtain ⟨x, hx⟩ | hx := hshallow _ (List.mem_singleton_self _) _ (List.mem_singleton_self _)
    · cases hx
    · exact absurd hx (by decide)

end ContextqlServer.Query.ResponseBounds
