import ContextqlServer.Query.Service

namespace ContextqlServer.Query.SelectLimits

open ContextqlServer.Lib.Effect ContextqlServer.Lib.Python ContextqlServer.Lib.JsonText
open ContextqlServer.Query.Service ContextqlServer.Query.Service.QueryService

variable {self : QueryService} {F : Floats} {E : Engine} {query : String} {analysis : Analysis} {w : World}

/-- Every `SELECT` of a text has an explicit limit within the configured maximum. -/
def Limited (self : QueryService) (analysis : Analysis) : Prop :=
  ∀ limit, .queryModel limit ∈ analysis.statements → ∃ n, limit = some n ∧ 0 ≤ n ∧ n ≤ self.maxResultRows

/-- The first statement is a `SELECT` without a limit or above the maximum, in a text
that was analysed without errors. -/
def Refused (self : QueryService) (analysis : Analysis) : Prop :=
  analysis.ok = true ∧ ∃ limit rest, analysis.statements = .queryModel limit :: rest ∧
    ∀ n, limit = some n → self.maxResultRows < n

/-- A call raises, and the engine is not given the text. -/
def Stopped (self : QueryService) (F : Floats) (E : Engine) (query : String) (w : World) : Prop :=
  (∃ e, (E.handler.exec (self.execute F query) w).1 = .error e) ∧
    (E.handler.exec (self.execute F query) w).2.executed = w.executed

/-- The texts that are run have limits, and the other ones are stopped. -/
def Guards (self : QueryService) (F : Floats) (E : Engine) (query : String) (w : World) : Prop :=
  ∀ analysis, E.analyzeSql query = .ok analysis → Limited self analysis ∨ Stopped self F E query w

theorem exec_validate (h : E.analyzeSql query = .ok analysis) :
    (Refused self analysis ∧ ∃ e, E.handler.exec (self.validateSelectLimit query) w = (.error e, w)) ∨
      (¬ Refused self analysis ∧ E.handler.exec (self.validateSelectLimit query) w = (.ok (), w)) := by
  obtain ⟨ok, statements⟩ := analysis
  simp only [validateSelectLimit, Prog.perform, Prog.bind_call, Handler.exec, Engine.handler, h, Prog.ofExcept,
    Prog.bind_pure, Refused]
  cases ok with
  | false => exact .inr ⟨by simp, rfl⟩
  | true =>
    cases statements with
    | nil => exact .inr ⟨by simp, rfl⟩
    | cons first rest =>
      cases first with
      | other => exact .inr ⟨by simp, rfl⟩
      | queryModel limit =>
        cases limit with
        | none => exact .inl ⟨by simp, _, rfl⟩
        | some limit =>
          by_cases hlimit : limit > self.maxResultRows
          · refine .inl ⟨by simpa using hlimit, .valueError
              s!"[E305] query LIMIT exceeds the configured maximum of {self.maxResultRows} rows.", ?_⟩
            simp only [Bool.not_true, Bool.false_eq_true, ite_false, if_pos hlimit]
            rfl
          · refine .inr ⟨by simpa using hlimit, ?_⟩
            simp only [Bool.not_true, Bool.false_eq_true, ite_false, if_neg hlimit]
            rfl

theorem execute_unanalysed {e : QueryError} (h : E.analyzeSql query = .error e) :
    E.handler.exec (self.execute F query) w = (.error e, w) := by
  have hanalysis := (E.handler.exec_perform (.analyzeSql query) w).trans (congrArg (·, w) h)
  rw [QueryService.execute, validateSelectLimit, Prog.bind_assoc, Handler.exec_bind_error _ hanalysis]

theorem validated_of_not_refused (h : E.analyzeSql query = .ok analysis) (hrefused : ¬ Refused self analysis) :
    E.handler.exec (self.validateSelectLimit query) w = (.ok (), w) := by
  obtain ⟨hr, -⟩ | ⟨-, hv⟩ := exec_validate (w := w) h
  · exact absurd hr hrefused
  · exact hv

/-- The metadata of a result, timed by the readings of the clock around it. -/
def metaOf (F : Floats) (E : Engine) (result : EngineResult) (w : World) : QueryMeta :=
  ⟨F.elapsedMs (E.perfCounter w.readings) (E.perfCounter (w.readings + 1)), result.rowCount, result.columns,
    result.sql, result.diagnostics⟩

/-- A call that is not refused gives the text to the engine, and looks at the size of what comes back. -/
theorem exec_execute (h : E.analyzeSql query = .ok analysis) (hrefused : ¬ Refused self analysis) :
    E.handler.exec (self.execute F query) w =
      match E.execute query with
      | .error e => (.error e, ⟨w.executed ++ [query], w.readings + 1⟩)
      | .ok result =>
        ((self.checkSize F 2 (result.rows.map cleanRow)).map
          (fun _ => ⟨result.rows.map cleanRow, metaOf F E result w, result.trace⟩),
          ⟨w.executed ++ [query], w.readings + 2⟩) := by
  have hengine := E.handler.exec_perform (.execute query) ⟨w.executed, w.readings + 1⟩
  rw [QueryService.execute, Handler.exec_bind _ (validated_of_not_refused h hrefused),
    Handler.exec_bind _ (E.handler.exec_perform .perfCounter w)]
  cases hresult : E.execute query with
  | error e =>
    have hraises := hengine.trans (congrArg (·, _) hresult)
    rw [Handler.exec_bind_error _ hraises]
  | ok result =>
    have hreturns := hengine.trans (congrArg (·, _) hresult)
    rw [Handler.exec_bind _ hreturns, Handler.exec_bind _ (E.handler.exec_perform .perfCounter _),
      Handler.exec_ofExcept_bind]
    dsimp only
    cases self.checkSize F 2 (result.rows.map cleanRow) <;> rfl

theorem executed_of_not_refused (h : E.analyzeSql query = .ok analysis) (hrefused : ¬ Refused self analysis) :
    (E.handler.exec (self.execute F query) w).2.executed = w.executed ++ [query] := by
  rw [exec_execute h hrefused]
  cases E.execute query <;> rfl

theorem stopped_of_refused (h : E.analyzeSql query = .ok analysis) (hrefused : Refused self analysis) :
    Stopped self F E query w := by
  obtain ⟨-, e, he⟩ | ⟨hr, -⟩ := exec_validate (w := w) h
  · rw [Stopped, QueryService.execute, Handler.exec_bind_error _ he]
    exact ⟨⟨e, rfl⟩, rfl⟩
  · exact absurd hrefused hr

theorem stopped_iff (h : E.analyzeSql query = .ok analysis) :
    Stopped self F E query w ↔ Refused self analysis := by
  refine ⟨fun hstopped => ?_, stopped_of_refused h⟩
  by_contra hrefused
  have hrun := executed_of_not_refused (F := F) (w := w) h hrefused
  rw [hstopped.2] at hrun
  simpa using congrArg List.length hrun

/-- Every text that reaches the engine is limited exactly when a text that is not has its
fault in the first statement and no error anywhere. -/
theorem guards_iff (self : QueryService) (F : Floats) (E : Engine) (query : String) (w : World) :
    Guards self F E query w ↔
      ∀ analysis, E.analyzeSql query = .ok analysis → Limited self analysis ∨ Refused self analysis := by
  unfold Guards
  apply forall_congr'
  intro analysis
  apply forall_congr'
  intro h
  rw [stopped_iff h]

/-- A text of two statements, of which the second has no limit. -/
def twoSelects : Engine where
  analyzeSql _ := .ok ⟨true, [.queryModel (some 5), .queryModel none]⟩
  execute query := .ok ⟨[], 0, [], query, [], none⟩
  perfCounter _ := 0

def tenThousand : QueryService := ⟨10000, 10485760, by decide⟩

theorem second_select :
    ¬ Guards tenThousand stillFloats twoSelects "SELECT * FROM a LIMIT 5; SELECT * FROM a" ⟨[], 0⟩ := by
  rw [guards_iff]
  intro h
  obtain hlimited | ⟨-, limit, rest, heq, hlimit⟩ := h _ rfl
  · obtain ⟨n, hn, -⟩ := hlimited none (by simp)
    cases hn
  · simp only [List.cons.injEq, Statement.queryModel.injEq] at heq
    exact absurd (hlimit 5 heq.1.symm) (by decide)

end ContextqlServer.Query.SelectLimits
