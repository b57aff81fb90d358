import ContextqlServer.Query.ResponseBounds

namespace ContextqlServer.Query.SizeEstimate

open ContextqlServer.Lib.Effect ContextqlServer.Lib.Python ContextqlServer.Lib.JsonText
open ContextqlServer.Query.Service ContextqlServer.Query.Service.QueryService
open ContextqlServer.Query.SelectLimits ContextqlServer.Query.ResponseBounds

variable {self : QueryService} {F : Floats} {E : Engine} {query : String} {w : World}
  {analysis : Analysis} {result : EngineResult} {rows : List Row}

/-- `len(json.dumps(rows, separators=(",", ":"), default=str).encode("utf-8"))` -/
def arrayBytes (F : Floats) (rows : List Row) : Nat :=
  encodedLength escapeChar F.toFloatText
    (.arr (rows.map (fun row => .obj (Value.jsonMembers (fun text _ => .str text) row))))

def tooLarge (self : QueryService) : QueryError :=
  .valueError ("[E306] encoded query response exceeds the configured maximum of " ++
    toString self.maxResponseBytes ++ " bytes.")

/-- The size is refused exactly where the rows as one array are longer than the maximum. -/
def ExactLimit (self : QueryService) (F : Floats) (E : Engine) (query : String) (w : World) (rows : List Row) : Prop :=
  (E.handler.exec (self.execute F query) w).1 = .error (tooLarge self) ↔ self.maxResponseBytes < arrayBytes F rows

theorem arrayBytes_nil : arrayBytes F [] = 2 := by
  rw [arrayBytes, encodedLength_arr]
  rfl

theorem estimate_eq (h : rows ≠ []) : estimate F rows = arrayBytes F rows + 1 := by
  obtain ⟨row, rest, rfl⟩ := List.exists_cons_of_ne_nil h
  rw [arrayBytes, encodedLength_arr, estimate, List.map_map]
  have hsizes : ((fun x => encodedLength escapeChar F.toFloatText x + 1) ∘
      fun row => Json.obj (Value.jsonMembers (fun text _ => .str text) row)) = fun row => rowSize F row + 1 := rfl
  rw [hsizes, List.map_cons, List.sum_cons]
  omega

theorem checkSize_error {size : Nat} {e : QueryError} (h : self.checkSize F size rows = .error e) :
    e = tooLarge self := by
  induction rows generalizing size with
  | nil => cases h
  | cons row rows ih =>
    rw [checkSize] at h
    split at h
    · exact (Except.error.inj h).symm
    · exact ih h

theorem tooLarge_iff : self.checkSize F 2 rows = .error (tooLarge self) ↔
    rows ≠ [] ∧ self.maxResponseBytes < estimate F rows := by
  cases h : self.checkSize F 2 rows with
  | ok u =>
    have hfits := checkSize_ok.mp h
    rw [estimate]
    constructor
    · exact fun h => by cases h
    · rintro ⟨hne, hlt⟩
      exact absurd (hfits.resolve_left hne) (not_le.mpr hlt)
  | error e =>
    obtain rfl := checkSize_error h
    refine iff_of_true rfl ?_
    have hnot : ¬ self.checkSize F 2 rows = .ok () := by
      rw [h]
      exact fun h => by cases h
    rwa [checkSize_ok, not_or, not_le] at hnot

/-- The estimate is exact but for the lengths at which its comma counts. -/
theorem exact_limit_iff (self : QueryService) (F : Floats) (w : World) (hanalysis : E.analyzeSql query = .ok analysis)
    (hlimit : ¬ Refused self analysis) (hresult : E.execute query = .ok result) :
    ExactLimit self F E query w (result.rows.map cleanRow) ↔
      (result.rows = [] → 2 ≤ self.maxResponseBytes) ∧
        (result.rows ≠ [] → arrayBytes F (result.rows.map cleanRow) ≠ self.maxResponseBytes) := by
  have hraises : (E.handler.exec (self.execute F query) w).1 = .error (tooLarge self) ↔
      self.checkSize F 2 (result.rows.map cleanRow) = .error (tooLarge self) := by
    rw [exec_execute hanalysis hlimit, hresult]
    dsimp only
    cases self.checkSize F 2 (result.rows.map cleanRow) with
    | ok u => exact iff_of_false (fun h => by cases h) (fun h => by cases h)
    | error e =>
      constructor
      · exact fun h => congrArg Except.error (Except.error.inj h)
      · exact fun h => congrArg Except.error (Except.error.inj h)
  rw [ExactLimit, hraises, tooLarge_iff]
  by_cases hrows : result.rows = []
  · rw [hrows, List.map_nil, arrayBytes_nil]
    simp only [ne_eq, eq_self, not_true_eq_false, false_and, false_implies, and_true, true_implies, false_iff]
    omega
  · have hne : result.rows.map cleanRow ≠ [] := fun h => hrows (List.map_eq_nil_iff.mp h)
    simp only [hrows, hne, ne_eq, not_false_eq_true, true_and, false_implies, true_implies, estimate_eq hne]
    omega

/-- One row of seven bytes. -/
def oneRow : Engine where
  analyzeSql _ := .ok ⟨true, [.queryModel (some 5)]⟩
  execute query := .ok ⟨[[("x", .int 1)]], 1, ["x"], query, [], none⟩
  perfCounter _ := 0

def eightBytes : QueryService := ⟨10000, 8, by decide⟩

def nineBytes : QueryService := ⟨10000, 9, by decide⟩

def tenBytes : QueryService := ⟨10000, 10, by decide⟩

/-- Nine bytes of rows, with a maximum one below and one above. -/
theorem exact_limit_iff_sample :
    ExactLimit eightBytes stillFloats oneRow "SELECT x FROM a LIMIT 5" ⟨[], 0⟩ [[("x", .int 1)]] ∧
      ExactLimit tenBytes stillFloats oneRow "SELECT x FROM a LIMIT 5" ⟨[], 0⟩ [[("x", .int 1)]] := by
  have hanalysis : oneRow.analyzeSql "SELECT x FROM a LIMIT 5" = .ok ⟨true, [.queryModel (some 5)]⟩ := rfl
  have hresult : oneRow.execute "SELECT x FROM a LIMIT 5" =
      .ok ⟨[[("x", .int 1)]], 1, ["x"], "SELECT x FROM a LIMIT 5", [], none⟩ := rfl
  have hbelow : ¬ Refused eightBytes ⟨true, [.queryModel (some 5)]⟩ := by
    simp [Refused, eightBytes]
  have habove : ¬ Refused tenBytes ⟨true, [.queryModel (some 5)]⟩ := by
    simp [Refused, tenBytes]
  exact ⟨(exact_limit_iff eightBytes stillFloats ⟨[], 0⟩ hanalysis hbelow hresult).mpr ⟨by simp, by decide⟩,
    (exact_limit_iff tenBytes stillFloats ⟨[], 0⟩ hanalysis habove hresult).mpr ⟨by simp, by decide⟩⟩

/-- Nine bytes of rows are refused where nine bytes are the maximum. -/
theorem refused_at_limit :
    ¬ ExactLimit nineBytes stillFloats oneRow "SELECT x FROM a LIMIT 5" ⟨[], 0⟩ [[("x", .int 1)]] := by
  intro h
  have hbytes : arrayBytes stillFloats [[("x", .int 1)]] = 9 := by decide
  have hlt := h.mp rfl
  rw [hbytes] at hlt
  exact absurd hlt (by decide)

end ContextqlServer.Query.SizeEstimate
