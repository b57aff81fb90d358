import ContextqlServer.Db.LanguageEngine
import ContextqlServer.Lib.Log

namespace ContextqlServer.Db.AtomicUpdates

open ContextqlServer.Lib.Effect ContextqlServer.Lib.JsonText ContextqlServer.Lib.Log
open ContextqlServer.Lib.Python ContextqlServer.Lib.Rely ContextqlServer.Lib.Sql
open ContextqlServer.Db.Schema ContextqlServer.Db.Statements ContextqlServer.Db.Services
open ContextqlServer.Db.RestCatalog ContextqlServer.Db.RestCatalog.CatalogService
open ContextqlServer.Db.Lifecycle ContextqlServer.Db.LanguageEngine
open ContextqlServer.Db.Calls (sampleConnection samplePackages)

section Update

variable {T : FloatText} {E : Engine} {self : CatalogService} {c c' c₁ : Connection catalog}
  {name namespaceName q : String} {u : ContextUpdate}

/-- What an update needs before it sends a statement: the context, the engine, and
texts that can be written. -/
def prepared (self : CatalogService) (t : Tables) (name namespaceName : String) (u : ContextUpdate) :
    Except ServiceError String :=
  if (latestNamed t name namespaceName).isNone then
    .error (.valueError s!"Context '{name}' not found in namespace '{namespaceName}'")
  else if !self.engine then .error (.runtimeError "Engine is required for context updates")
  else
    match qualified name namespaceName with
    | .error e => .error e
    | .ok q =>
      if u.definitionText = some none then .error (.attributeError "'NoneType' object has no attribute 'rstrip'")
      else .ok q

/-- What follows the statements of an update. -/
def report (T : FloatText) (self : CatalogService) (name namespaceName : String) : ServiceProg (Option Context) := do
  let updated ← CatalogService.get T name namespaceName
  let version : Json := updated.elim .null (fun context => .int context.row.version)
  self.auditLog "context.updated" name namespaceName (some (.obj [("version", version)]))
  CatalogService.get T name namespaceName

theorem executeAll_append (front back : List Ddl) :
    CatalogService.executeAll (front ++ back) =
      CatalogService.executeAll front >>= fun _ => CatalogService.executeAll back := by
  induction front with
  | nil => rfl
  | cons ddl front ih =>
    rw [List.cons_append, CatalogService.executeAll, CatalogService.executeAll, Prog.bind_assoc]
    congr 1
    funext _
    exact ih

theorem executeAll_singleton (ddl : Ddl) : CatalogService.executeAll [ddl] = RestCatalog.execute ddl := by
  rw [CatalogService.executeAll, RestCatalog.execute]
  change Prog.call _ _ = Prog.call _ _
  congr 1
  funext r
  cases r <;> rfl

/-- An update over anything that answers its first query. -/
theorem exec_update_from {σ : Type} {H : Handler serviceSig ServiceError σ} {w w' : σ} {t : Tables}
    (hread : H.perform .read w = (.ok t, w')) : H.exec (self.update T name namespaceName u) w =
      match prepared self t name namespaceName u with
      | .error e => (.error e, w')
      | .ok q => H.exec (CatalogService.executeAll (statements q u) >>= fun _ =>
        report T self name namespaceName) w' := by
  have hget : H.exec (CatalogService.get T name namespaceName) w =
      (.ok ((latestNamed t name namespaceName).map (rowToDict T)), w') :=
    Handler.exec_bind _ ((H.exec_perform .read w).trans hread)
  rw [CatalogService.update]
  cases hlatest : latestNamed t name namespaceName with
  | none =>
    rw [hlatest] at hget
    simp only [prepared, hlatest]
    exact Handler.exec_bind_error _ (Handler.exec_bind _ hget)
  | some r =>
    rw [hlatest] at hget
    rw [Handler.exec_bind (H := H) (a := rowToDict T r) _ (Handler.exec_bind _ hget)]
    simp only [prepared, hlatest]
    obtain ⟨engine, audit⟩ := self
    cases engine with
    | false => rfl
    | true =>
      cases hq : qualified name namespaceName with
      | error e => rfl
      | ok q =>
        by_cases htext : u.definitionText = some none
        · simp only [htext]
          rfl
        · simp only [htext, if_false]
          change H.exec (CatalogService.executeAll (alterations q u) >>= fun _ =>
              RestCatalog.execute (.setState q "draft") >>= fun _ => report T ⟨true, audit⟩ name namespaceName) w' =
            H.exec (CatalogService.executeAll (alterations q u ++ [.setState q "draft"]) >>= fun _ =>
              report T ⟨true, audit⟩ name namespaceName) w'
          rw [executeAll_append, Prog.bind_assoc, executeAll_singleton]

theorem exec_update : (handler T E).exec (self.update T name namespaceName u) c =
    match prepared self c.pending name namespaceName u with
    | .error e => (.error e, c.advance)
    | .ok q => (handler T E).exec (CatalogService.executeAll (statements q u) >>=
      fun _ => report T self name namespaceName)
        c.advance :=
  exec_update_from rfl

/-- The statements go through, one after another. -/
inductive Accepts (E : Engine) : List Ddl → Connection catalog → Connection catalog → Prop
  | nil (c : Connection catalog) : Accepts E [] c c
  | cons {ddl : Ddl} {ddls : List Ddl} {c c₁ c₂ : Connection catalog} (h : E.execute ddl c = (.ok (), c₁))
      (hs : Accepts E ddls c₁ c₂) : Accepts E (ddl :: ddls) c c₂

/-- One of the statements is rejected when the ones before it have gone through. -/
def Rejection (E : Engine) (ddls : List Ddl) (c : Connection catalog) (front : List Ddl) (e : ServiceError)
    (c' : Connection catalog) : Prop :=
  ∃ ddl back c₁, ddls = front ++ ddl :: back ∧ Accepts E front c c₁ ∧ E.execute ddl c₁ = (.error e, c')

theorem exec_execute (ddl : Ddl) : (handler T E).exec (RestCatalog.execute ddl) c = E.execute ddl c :=
  (handler T E).exec_perform (.execute ddl) c

theorem exec_executeAll (ddls : List Ddl) : (∃ c', Accepts E ddls c c' ∧
      (handler T E).exec (CatalogService.executeAll ddls) c = (.ok (), c')) ∨
    ∃ front e c', Rejection E ddls c front e c' ∧
      (handler T E).exec (CatalogService.executeAll ddls) c = (.error e, c') := by
  induction ddls generalizing c with
  | nil => exact .inl ⟨c, .nil c, rfl⟩
  | cons ddl ddls ih =>
    rw [CatalogService.executeAll]
    cases hddl : E.execute ddl c with
    | mk r c₁ =>
      cases r with
      | error e =>
        refine .inr ⟨[], e, c₁, ⟨ddl, ddls, c, rfl, .nil c, hddl⟩, ?_⟩
        exact Handler.exec_bind_error _ ((exec_execute ddl).trans hddl)
      | ok a =>
        rw [Handler.exec_bind _ ((exec_execute ddl).trans hddl)]
        obtain ⟨c', haccepts, hexec⟩ | ⟨front, e, c', ⟨ddl', back, c₂, rfl, haccepts, hddl'⟩, hexec⟩ := ih (c := c₁)
        · exact .inl ⟨c', .cons hddl haccepts, hexec⟩
        · exact .inr ⟨ddl :: front, e, c', ⟨ddl', back, c₂, rfl, .cons hddl haccepts, hddl'⟩, hexec⟩

theorem exec_accepts {front : List Ddl} (h : Accepts E front c c₁) (back : List Ddl) :
    (handler T E).exec (CatalogService.executeAll (front ++ back)) c =
      (handler T E).exec (CatalogService.executeAll back) c₁ := by
  induction h with
  | nil c => rfl
  | cons hddl _ ih =>
    rw [List.cons_append, CatalogService.executeAll, Handler.exec_bind _ ((exec_execute _).trans hddl)]
    exact ih

theorem Rejection.exec {ddls front : List Ddl} {e : ServiceError} (h : Rejection E ddls c front e c') :
    (handler T E).exec (CatalogService.executeAll ddls) c = (.error e, c') := by
  obtain ⟨ddl, back, c₁, rfl, haccepts, hddl⟩ := h
  rw [exec_accepts haccepts, CatalogService.executeAll]
  exact Handler.exec_bind_error _ ((exec_execute ddl).trans hddl)

theorem exec_report : ∃ x c', (handler T E).exec (report T self name namespaceName) c = (.ok x, c') ∧
    c'.pending.contexts = c.pending.contexts := by
  obtain ⟨engine, audit⟩ := self
  cases audit with
  | false => exact ⟨_, _, rfl, rfl⟩
  | true => exact ⟨_, _, rfl, contexts_log _⟩

theorem update_fails_iff {e : ServiceError} :
    (handler T E).exec (self.update T name namespaceName u) c = (.error e, c') ↔
      prepared self c.pending name namespaceName u = .error e ∧ c' = c.advance ∨
      ∃ q front, prepared self c.pending name namespaceName u = .ok q ∧
        Rejection E (statements q u) c.advance front e c' := by
  rw [exec_update]
  cases hprepared : prepared self c.pending name namespaceName u with
  | error e' =>
    dsimp only
    constructor
    · rintro ⟨⟩
      exact .inl ⟨rfl, rfl⟩
    · rintro (⟨⟨⟩, rfl⟩ | ⟨q, front, hq, -⟩)
      · rfl
      · cases hq
  | ok q =>
    dsimp only
    constructor
    · intro h
      obtain ⟨c₁, -, hexec⟩ | ⟨front, e', c₁, hrejection, hexec⟩ :=
        @exec_executeAll T E c.advance (statements q u)
      · obtain ⟨x, c₂, hreport, -⟩ := @exec_report T E self c₁ name namespaceName
        cases (Handler.exec_bind _ hexec).symm.trans h |>.symm.trans hreport
      · cases (Handler.exec_bind_error _ hexec).symm.trans h
        exact .inr ⟨q, front, rfl, hrejection⟩
    · rintro (⟨hq, -⟩ | ⟨q', front, hq, hrejection⟩)
      · cases hq
      · obtain rfl := Except.ok.inj hq
        exact Handler.exec_bind_error _ hrejection.exec

theorem update_succeeds {x : Option Context}
    (h : (handler T E).exec (self.update T name namespaceName u) c = (.ok x, c')) :
    ∃ q c₁, prepared self c.pending name namespaceName u = .ok q ∧ Accepts E (statements q u) c.advance c₁ ∧
      c'.pending.contexts = c₁.pending.contexts := by
  rw [exec_update] at h
  cases hprepared : prepared self c.pending name namespaceName u with
  | error e =>
    rw [hprepared] at h
    cases h
  | ok q =>
    rw [hprepared] at h
    obtain ⟨c₁, haccepts, hexec⟩ | ⟨front, e, c₁, -, hexec⟩ := @exec_executeAll T E c.advance (statements q u)
    · obtain ⟨x', c₂, hreport, hcontexts⟩ := @exec_report T E self c₁ name namespaceName
      cases (Handler.exec_bind _ hexec).symm.trans h |>.symm.trans hreport
      exact ⟨q, c₁, rfl, haccepts, hcontexts⟩
    · cases (Handler.exec_bind_error _ hexec).symm.trans h

theorem Accepts.split {front back : List Ddl} (h : Accepts E (front ++ back) c c') :
    ∃ c₁, Accepts E front c c₁ ∧ Accepts E back c₁ c' := by
  induction front generalizing c with
  | nil => exact ⟨c, .nil c, h⟩
  | cons ddl front ih =>
    obtain _ | ⟨hddl, hs⟩ := h
    obtain ⟨c₁, hfront, hback⟩ := ih hs
    exact ⟨c₁, .cons hddl hfront, hback⟩

theorem accepts_draft (hE : Lawful E name namespaceName) (hq : qualified name namespaceName = .ok q)
    (h : Accepts E (statements q u) c c') {v : View} (hv : view name namespaceName c' = some v) :
    v.lifecycleState = "draft" := by
  obtain ⟨c₁, -, _ | ⟨hstate, _ | _⟩⟩ := h.split
  cases hv₁ : view name namespaceName c₁ with
  | none =>
    rw [hE.absent (by simp) hstate hv₁] at hv
    cases hv
  | some v₁ =>
    obtain ⟨v', hv', hdraft, -⟩ := hE.setsState (resolve_qualified hq) hstate hv₁
    rw [hv] at hv'
    rw [Option.some.inj hv', hdraft]

/-- An update that raises leaves the context as it was. -/
def UpdateAtomic (T : FloatText) (E : Engine) (self : CatalogService) (name namespaceName : String) (u : ContextUpdate)
    (c : Connection catalog) : Prop :=
  ∀ e c', (handler T E).exec (self.update T name namespaceName u) c = (.error e, c') →
    view name namespaceName c' = view name namespaceName c

def RejectedAtOnce (E : Engine) (self : CatalogService) (name namespaceName : String) (u : ContextUpdate)
    (c : Connection catalog) : Prop :=
  ∀ q, prepared self c.pending name namespaceName u = .ok q →
    ∀ front e c', Rejection E (statements q u) c.advance front e c' → front = []

theorem accepts_newer (hE : Lawful E name namespaceName) (hq : qualified name namespaceName = .ok q)
    {ddls : List Ddl} {v : View} (halter : ∀ ddl ∈ ddls, ddl ∈ alterations q u)
    (h : Accepts E ddls c c') (hv : view name namespaceName c = some v) :
    ∃ v', view name namespaceName c' = some v' ∧ v.version ≤ v'.version ∧ (ddls ≠ [] → v.version < v'.version) := by
  induction h generalizing v with
  | nil c => exact ⟨v, hv, le_rfl, fun h => absurd rfl h⟩
  | @cons ddl ddls c c₁ c₂ hddl _ ih =>
    obtain ⟨halteration, htarget⟩ := alteration_of_mem (halter ddl List.mem_cons_self)
    have hresolve : resolve (target ddl) = (name, namespaceName) := htarget ▸ resolve_qualified hq
    obtain ⟨v₁, hv₁, hlt, -⟩ := hE.alters hresolve halteration hddl hv
    obtain ⟨v₂, hv₂, hle, -⟩ := ih (fun d hd => halter d (List.mem_cons_of_mem _ hd)) hv₁
    exact ⟨v₂, hv₂, (hlt.trans_le hle).le, fun _ => hlt.trans_le hle⟩

theorem prepared_ok (h : prepared self c.pending name namespaceName u = .ok q) :
    qualified name namespaceName = .ok q ∧ ∃ v, view name namespaceName c = some v := by
  unfold prepared at h
  split at h
  · cases h
  · rename_i hsome
    rw [Option.isNone_iff_eq_none, ← ne_eq, Option.ne_none_iff_exists'] at hsome
    obtain ⟨r, hr⟩ := hsome
    split at h
    · cases h
    · split at h
      · cases h
      · rename_i q' hq
        split at h
        · cases h
        · obtain rfl := Except.ok.inj h
          refine ⟨hq, viewOf r, ?_⟩
          rw [view, hr]
          rfl

theorem update_atomic_iff (hE : Lawful E name namespaceName) :
    UpdateAtomic T E self name namespaceName u c ↔ RejectedAtOnce E self name namespaceName u c := by
  constructor
  · intro hatomic q hq front e c' hrejection
    obtain ⟨hqualified, v, hv⟩ := prepared_ok hq
    have hview := hatomic e c' (update_fails_iff.mpr (.inr ⟨q, front, hq, hrejection⟩))
    obtain ⟨ddl, back, c₁, hsplit, haccepts, hddl⟩ := hrejection
    have halter : ∀ d ∈ front, d ∈ alterations q u := by
      intro d hd
      obtain ⟨rfl, -⟩ | ⟨back', hback⟩ := split_snoc hsplit
      · exact hd
      · rw [hback]
        exact List.mem_append_left _ hd
    by_contra hfront
    obtain ⟨v', hv', -, hlt⟩ := accepts_newer hE hqualified halter haccepts (c := c.advance) hv
    rw [hE.rejects hddl, hv', hv] at hview
    obtain rfl := Option.some.inj hview
    exact absurd (hlt hfront) (lt_irrefl _)
  · intro hfirst e c' h
    obtain ⟨-, rfl⟩ | ⟨q, front, hq, hrejection⟩ := update_fails_iff.mp h
    · rfl
    · obtain rfl := hfirst q hq front e c' hrejection
      obtain ⟨ddl, back, c₁, -, haccepts, hddl⟩ := hrejection
      cases haccepts
      exact (hE.rejects hddl).trans rfl

end Update

section Lives

variable {T : FloatText} {E : Engine} {self : CatalogService} {name namespaceName : String}

/-- A connection, and the definition that the context had when it last entered its state. -/
structure Tracked where
  connection : Connection catalog
  entered : Option (String × Option String)

def enters (name namespaceName : String) (o : ServiceOp) (accepted : Bool) (before after : Option View) : Bool :=
  (match o with
    | .execute (.createContext q _ _ _ _ _) => accepted && resolve q = (name, namespaceName)
    | _ => false) ||
  before.map View.lifecycleState ≠ after.map View.lifecycleState

theorem sameState {o : ServiceOp} {accepted : Bool} {before after : Option View}
    (h : enters name namespaceName o accepted before after = false) :
    before.map View.lifecycleState = after.map View.lifecycleState := by
  unfold enters at h
  simpa using (Bool.or_eq_false_iff.mp h).2

def enteredAfter (name namespaceName : String) (o : ServiceOp) (accepted : Bool) (before after : Option View)
    (entered : Option (String × Option String)) : Option (String × Option String) :=
  if enters name namespaceName o accepted before after then after.map View.definition else entered

def track (T : FloatText) (E : Engine) (name namespaceName : String) : Handler serviceSig ServiceError Tracked where
  perform o s :=
    (((handler T E).perform o s.connection).1,
      { connection := ((handler T E).perform o s.connection).2
        entered := enteredAfter name namespaceName o ((handler T E).perform o s.connection).1.isOk
          (view name namespaceName s.connection) (view name namespaceName ((handler T E).perform o s.connection).2)
          s.entered })
  fault _ := none

/-- A context that is validated or active has the definition that it had when it became so. -/
def Unchanged (name namespaceName : String) (s : Tracked) : Prop :=
  ∀ v, view name namespaceName s.connection = some v → v.lifecycleState = "active" ∨ v.lifecycleState = "validated" →
    s.entered = some v.definition

inductive Call where
  | create (body : ContextCreate)
  | update (name namespaceName : String) (u : ContextUpdate)
  | validate (name namespaceName : String)
  | activate (name namespaceName : String)
  | retire (name namespaceName : String)

def Call.prog (T : FloatText) (self : CatalogService) : Call → ServiceProg (Option Context)
  | .create body => self.create T body
  | .update name namespaceName u => self.update T name namespaceName u
  | .validate name namespaceName => self.validate T name namespaceName
  | .activate name namespaceName => self.activate T name namespaceName
  | .retire name namespaceName => self.retire T name namespaceName

/-- What the calls of a run are asked to meet. -/
def Call.Safe (E : Engine) (self : CatalogService) (c : Connection catalog) : Call → Prop
  | .update name namespaceName u => RejectedAtOnce E self name namespaceName u c
  | _ => True

/-- Runs of calls, each of which may fail, on the contexts of a catalog in any state. -/
inductive Lives (T : FloatText) (E : Engine) (self : CatalogService) (name namespaceName : String) : Tracked → Prop
  | start (c : Connection catalog) :
      Lives T E self name namespaceName ⟨c, (view name namespaceName c).map View.definition⟩
  | call {s s' : Tracked} {call : Call} {out : Except ServiceError (Option Context)}
      (h : Lives T E self name namespaceName s) (hsafe : call.Safe E self s.connection)
      (hexec : (track T E name namespaceName).exec (call.prog T self) s = (out, s')) :
      Lives T E self name namespaceName s'

/-- An operation that does not alter a property of the context. -/
def Harmless (name namespaceName : String) (o : ServiceOp) : Prop :=
  ∀ ddl, o = .execute ddl → resolve (target ddl) = (name, namespaceName) →
    (∃ q entityKey scoreColumn description tags definitionText,
      ddl = .createContext q entityKey scoreColumn description tags definitionText) ∨
    (∃ q state, ddl = .setState q state) ∨ ∃ q, ddl = .validateContext q

theorem definition_kept (hE : Lawful E name namespaceName) {o : ServiceOp} {r : Except ServiceError (serviceSig.Res o)}
    {c c' : Connection catalog} (ho : Harmless name namespaceName o) (h : (handler T E).perform o c = (r, c'))
    (henters : enters name namespaceName o r.isOk (view name namespaceName c) (view name namespaceName c') = false) :
    (view name namespaceName c').map View.definition = (view name namespaceName c).map View.definition := by
  cases o with
  | read =>
    obtain ⟨rfl, rfl⟩ := Prod.mk.inj h
    rfl
  | log e =>
    obtain rfl : _ = c' := congrArg Prod.snd h
    exact congrArg _ (view_log e)
  | execute ddl =>
    replace h : E.execute ddl c = (r, c') := h
    by_cases htarget : resolve (target ddl) = (name, namespaceName)
    · cases r with
      | error e => rw [hE.rejects h]
      | ok a =>
        obtain ⟨q, entityKey, scoreColumn, description, tags, definitionText, rfl⟩ | ⟨q, state, rfl⟩ | ⟨q, rfl⟩ :=
          ho ddl rfl htarget
        · rw [enters, Bool.or_eq_false_iff] at henters
          have hother : ¬ resolve q = (name, namespaceName) := by
            simpa [Except.isOk, Except.toBool] using henters.1
          exact absurd htarget hother
        · cases hv : view name namespaceName c with
          | none => rw [hE.absent (by simp) h hv]
          | some v =>
            obtain ⟨v', hv', -, hdefinition⟩ := hE.setsState htarget h hv
            rw [hv', Option.map_some, Option.map_some, hdefinition]
        · rw [hE.validates h]
    · rw [hE.elsewhere htarget h]

theorem unchanged_step (hE : Lawful E name namespaceName) {o : ServiceOp}
    {r : Except ServiceError (serviceSig.Res o)} {c c' : Connection catalog} {entered : Option (String × Option String)}
    (ho : Harmless name namespaceName o) (hperform : (handler T E).perform o c = (r, c'))
    (h : Unchanged name namespaceName ⟨c, entered⟩) :
    Unchanged name namespaceName ⟨c', enteredAfter name namespaceName o r.isOk (view name namespaceName c)
      (view name namespaceName c') entered⟩ := by
  intro v hv hstate
  replace hv : view name namespaceName c' = some v := hv
  rw [enteredAfter]
  split
  · rw [hv]
    rfl
  · rename_i henters
    rw [Bool.not_eq_true] at henters
    have hdefinition := definition_kept hE ho hperform henters
    have hstates := sameState henters
    rw [hv] at hdefinition hstates
    obtain ⟨v₀, hv₀, hsame⟩ := Option.map_eq_some_iff.mp hdefinition.symm
    rw [hv₀] at hstates
    have hentered := h v₀ hv₀
    rw [Option.some.inj hstates, hsame] at hentered
    exact hentered hstate

theorem track_exec (name namespaceName : String) {α : Type} (p : ServiceProg α) (s : Tracked) :
    (handler T E).exec p s.connection =
      (((track T E name namespaceName).exec p s).1, ((track T E name namespaceName).exec p s).2.connection) := by
  induction p generalizing s with
  | pure a => rfl
  | throw e => rfl
  | call o k ih => exact ih _ ((track T E name namespaceName).perform o s).2

theorem track_perform (name namespaceName : String) {o : ServiceOp} {s : Tracked}
    {r : Except ServiceError (serviceSig.Res o)} {c' : Connection catalog}
    (h : (handler T E).perform o s.connection = (r, c'))
    (hview : view name namespaceName c' = view name namespaceName s.connection)
    (hrejected : ∀ ddl, o = .execute ddl → r.isOk = false) :
    (track T E name namespaceName).perform o s = (r, ⟨c', s.entered⟩) := by
  change (((handler T E).perform o s.connection).1, (⟨((handler T E).perform o s.connection).2,
    enteredAfter name namespaceName o ((handler T E).perform o s.connection).1.isOk
      (view name namespaceName s.connection)
      (view name namespaceName ((handler T E).perform o s.connection).2) s.entered⟩ : Tracked)) = _
  rw [h]
  have henters :
      enters name namespaceName o r.isOk (view name namespaceName s.connection) (view name namespaceName c') =
      false := by
    rw [hview]
    unfold enters
    split
    · rw [hrejected _ rfl]
      simp
    · simp
  rw [enteredAfter, henters]
  rfl

theorem update_fails_unchanged (hE : Lawful E name namespaceName)
    {u : ContextUpdate} {s s' : Tracked} {e : ServiceError}
    (hfirst : RejectedAtOnce E self name namespaceName u s.connection)
    (hexec : (track T E name namespaceName).exec (self.update T name namespaceName u) s = (.error e, s')) :
    view name namespaceName s'.connection = view name namespaceName s.connection ∧ s'.entered = s.entered := by
  have hread := track_perform name namespaceName (T := T) (E := E) (o := .read) (s := s)
    rfl rfl nofun
  have hplain := (track_exec name namespaceName (T := T) (E := E)
    (self.update T name namespaceName u) s)
  rw [hexec] at hplain
  rw [exec_update_from hread] at hexec
  obtain ⟨hprepared, hc⟩ | ⟨q, front, hq, hrejection⟩ := update_fails_iff.mp hplain
  · rw [hprepared] at hexec
    cases hexec
    exact ⟨rfl, rfl⟩
  · rw [hq] at hexec
    obtain rfl := hfirst q hq front e _ hrejection
    obtain ⟨ddl, back, c₁, hsplit, haccepts, hddl⟩ := hrejection
    cases haccepts
    have hperform := track_perform name namespaceName (T := T) (E := E)
      (o := .execute ddl) (s := ⟨s.connection.advance, s.entered⟩) hddl
      (hE.rejects hddl) (fun _ _ => rfl)
    dsimp only at hexec
    rw [hsplit, List.nil_append, CatalogService.executeAll] at hexec
    have hfails := Handler.exec_bind_error (fun _ => report T self name namespaceName)
      (Handler.exec_bind_error (fun _ => CatalogService.executeAll back)
        (((track T E name namespaceName).exec_perform (.execute ddl) ⟨s.connection.advance, s.entered⟩).trans hperform))
    have hs' := (Prod.mk.inj (hfails.symm.trans hexec)).2
    have hview : view name namespaceName s'.connection = view name namespaceName s.connection :=
      (hE.rejects hddl).trans rfl
    refine ⟨hview, ?_⟩
    rw [← hs']

theorem harmless_setState (q state : String) : Harmless name namespaceName (.execute (.setState q state)) := by
  rintro _ ⟨⟩ -
  exact .inr (.inl ⟨q, state, rfl⟩)

theorem harmless_validateContext (q : String) : Harmless name namespaceName (.execute (.validateContext q)) := by
  rintro _ ⟨⟩ -
  exact .inr (.inr ⟨q, rfl⟩)

theorem sends_unchanged (hE : Lawful E name namespaceName) {p : ServiceProg (Option Context)} {s s' : Tracked}
    {out : Except ServiceError (Option Context)}
    (hp : Sends (fun ddl => Harmless name namespaceName (.execute ddl)) p)
    (hexec : (track T E name namespaceName).exec p s = (out, s')) (h : Unchanged name namespaceName s) :
    Unchanged name namespaceName s' := by
  have hkeeps := Keeps.of_only (A := (track T E name namespaceName).Sound) (J := Unchanged name namespaceName) ?_ hp h
  · exact hkeeps.runs (fun _ _ _ _ hA => hA) (fun _ _ hw => hw) (fun _ _ _ _ => trivial) (Runs.exec_iff.mpr hexec)
  · intro o s r s' ho h hA
    obtain rfl : _ = s' := congrArg Prod.snd hA
    exact unchanged_step hE (fun ddl ho' => ho ddl ho' ddl rfl) rfl h

theorem update_unchanged (hE : Lawful E name namespaceName) {u : ContextUpdate} {s s' : Tracked}
    {out : Except ServiceError (Option Context)} (hfirst : RejectedAtOnce E self name namespaceName u s.connection)
    (hexec : (track T E name namespaceName).exec (self.update T name namespaceName u) s = (out, s'))
    (h : Unchanged name namespaceName s) : Unchanged name namespaceName s' := by
  intro v hv hstate
  cases out with
  | error e =>
    obtain ⟨hview, hentered⟩ := update_fails_unchanged hE hfirst hexec
    rw [hentered]
    rw [hview] at hv
    exact h v hv hstate
  | ok x =>
    have hplain := track_exec name namespaceName (T := T) (E := E)
      (self.update T name namespaceName u) s
    rw [hexec] at hplain
    obtain ⟨q, c₁, hq, haccepts, hcontexts⟩ := update_succeeds hplain
    have hdraft := accepts_draft hE (prepared_ok hq).1 haccepts ((view_contexts hcontexts).symm.trans hv)
    rw [hdraft] at hstate
    obtain hstate | hstate := hstate
    · exact absurd hstate (by decide)
    · exact absurd hstate (by decide)

theorem call_unchanged (hE : Lawful E name namespaceName) {s s' : Tracked} {call : Call}
    {out : Except ServiceError (Option Context)} (hsafe : call.Safe E self s.connection)
    (hexec : (track T E name namespaceName).exec (call.prog T self) s = (out, s'))
    (h : Unchanged name namespaceName s) : Unchanged name namespaceName s' := by
  cases call with
  | create body =>
    refine sends_unchanged hE (sends_create ?_ ?_) hexec h
    · rintro q entityKey scoreColumn description tags definitionText _ ⟨⟩ -
      exact .inl ⟨_, _, _, _, _, _, rfl⟩
    · exact fun q => harmless_setState q _
  | update name' namespaceName' u =>
    by_cases hsame : (name', namespaceName') = (name, namespaceName)
    · obtain ⟨rfl, rfl⟩ := Prod.mk.inj hsame
      exact update_unchanged hE hsafe hexec h
    · refine sends_unchanged hE (sends_update ?_) hexec h
      rintro q hq ddl hddl _ ⟨⟩ htarget
      rw [target_of_mem hddl, resolve_qualified hq] at htarget
      exact absurd htarget hsame
  | validate name' namespaceName' =>
    refine sends_unchanged hE (sends_transition ?_) hexec h
    intro q ddl hddl
    obtain rfl | hddl := List.mem_cons.mp hddl
    · exact harmless_validateContext q
    · rw [List.mem_singleton.mp hddl]
      exact harmless_setState q _
  | activate name' namespaceName' | retire name' namespaceName' =>
    refine sends_unchanged hE (sends_transition ?_) hexec h
    intro q ddl hddl
    rw [List.mem_singleton.mp hddl]
    exact harmless_setState q _

theorem lives_unchanged (hE : Lawful E name namespaceName) {s : Tracked} (h : Lives T E self name namespaceName s) :
    Unchanged name namespaceName s := by
  induction h with
  | start c =>
    intro v hv _
    change (view name namespaceName c).map View.definition = _
    rw [show view name namespaceName c = some v from hv]
    rfl
  | call _ hsafe hexec ih => exact call_unchanged hE hsafe hexec ih

/-- An update that raises leaves the context as it was exactly where no statement of it is
rejected after another one has gone through; and where no update of a run ends otherwise,
no context is validated or active with a definition that it has got since. -/
theorem update_atomic (T : FloatText) (self : CatalogService) (hE : Lawful E name namespaceName) :
    (∀ u c, UpdateAtomic T E self name namespaceName u c ↔ RejectedAtOnce E self name namespaceName u c) ∧
      ∀ s, Lives T E self name namespaceName s → Unchanged name namespaceName s :=
  ⟨fun _ _ => update_atomic_iff hE, fun _ h => lives_unchanged hE h⟩

end Lives

section Sample

def parsesScores : Ddl → Bool
  | .setScore _ column => column ≠ ")"
  | _ => true

def overdue : Connection catalog :=
  sampleConnection { Tables.empty with contexts :=
    ⟨[created "overdue" "default" "invoice_id" none none [] "SELECT 1" 1], 1⟩ }

def rescored (definitionText : Option (Option String)) : ContextUpdate where
  definitionText
  entityKey := none
  hasScore := none
  scoreColumn := some (some ")")
  description := none
  tags := none
  classification := none

/-- An active context of which nothing but the score is to be altered. -/
theorem update_atomic_sample :
    UpdateAtomic samplePackages.floatText (languageEngine parsesScores) ⟨true, true⟩ "overdue" "default" (rescored none)
      overdue ∧
    Unchanged "overdue" "default" ⟨overdue, some ("SELECT 1", some "SELECT 1")⟩ := by
  obtain ⟨hatomic, hunchanged⟩ := update_atomic samplePackages.floatText ⟨true, true⟩
    (language_lawful parsesScores "overdue" "default")
  refine ⟨(hatomic _ _).mpr ?_, hunchanged _ (.start overdue)⟩
  rintro q - front e c' ⟨ddl, back, c₁, hsplit, haccepts, -⟩
  cases haccepts with
  | nil => rfl
  | cons hddl _ =>
    obtain ⟨rfl, -⟩ := List.cons.inj hsplit
    cases hddl

/-- The new definition stays where the score is rejected, in a context that is still active. -/
theorem half_update :
    ¬ UpdateAtomic samplePackages.floatText (languageEngine parsesScores) ⟨true, true⟩ "overdue" "default"
        (rescored (some (some "SELECT 2"))) overdue ∧
      (view "overdue" "default" ((handler samplePackages.floatText (languageEngine parsesScores)).exec
        (CatalogService.update samplePackages.floatText ⟨true, true⟩ "overdue" "default"
          (rescored (some (some "SELECT 2")))) overdue).2).map (fun v => (v.lifecycleState, v.definition)) =
        some ("active", "SELECT 2", some "SELECT 2") := by
  refine ⟨?_, rfl⟩
  intro h
  have hfirst := (update_atomic_iff (language_lawful parsesScores "overdue" "default")).mp h
  have hfront := hfirst "overdue" rfl [.setDefinition "overdue" "SELECT 2"] _ _
    ⟨.setScore "overdue" ")", [.setState "overdue" "draft"], _, rfl, .cons rfl (.nil _), rfl⟩
  cases hfront

end Sample

end ContextqlServer.Db.AtomicUpdates
