import ContextqlServer.Db.Calls
import ContextqlServer.Lib.Trace

namespace ContextqlServer.Db.AuditTrail

open ContextqlServer.Lib.Effect ContextqlServer.Lib.JsonText ContextqlServer.Lib.Sql ContextqlServer.Lib.Trace
open ContextqlServer.Db.Schema ContextqlServer.Db.Statements ContextqlServer.Db.Services ContextqlServer.Db.Calls

section Changes

/-- A change of the two tables that is to be audited. -/
inductive Change where
  | registerProvider (v : ProviderValues)
  | changeProvider (change : ProviderChange) (now name namespaceName : String)
  | registerMap (v : IdentityMapValues)

namespace Change

def statement : Change → Statement
  | .registerProvider v => .insertProvider v
  | .changeProvider change now name namespaceName => .changeProvider change now name namespaceName
  | .registerMap v => .insertIdentityMap v

def eventType : Change → String
  | .registerProvider _ => "provider.registered"
  | .changeProvider (.update _) .. => "provider.updated"
  | .changeProvider (.setEnabled true) .. => "provider.enabled"
  | .changeProvider (.setEnabled false) .. => "provider.disabled"
  | .changeProvider _ .. => "provider.health_recorded"
  | .registerMap _ => "identity_map.registered"

def resourceType : Change → String
  | .registerProvider _ | .changeProvider .. => "provider"
  | .registerMap _ => "identity_map"

def resource : Change → String × String
  | .registerProvider v => (v.name, v.namespaceName)
  | .changeProvider _ _ name namespaceName => (name, namespaceName)
  | .registerMap v => (v.name, v.namespaceName)

def detail : Change → Option Json
  | .changeProvider .healthy .. =>
    some (.obj [("success", .bool true), ("health_state", .str "healthy")])
  | .changeProvider .unhealthy .. =>
    some (.obj [("success", .bool false), ("health_state", .str "unhealthy")])
  | _ => none

structure RecordedBy (T : FloatText) (change : Change) (v : AuditValues) : Prop where
  eventType : v.eventType = change.eventType
  resourceType : v.resourceType = some change.resourceType
  resourceName : v.resourceName = some change.resource.1
  namespaceName : v.namespaceName = change.resource.2
  detail : v.detail = change.detail.map (dumps T)

end Change

def Paired (T : FloatText) (t t' : Tables) : Prop :=
  ∃ entries : List (Change × AuditValues), (∀ e ∈ entries, e.1.RecordedBy T e.2) ∧
    Applies (M := catalog) (entries.flatMap (fun e => [e.1.statement, .insertAudit e.2])) t t'

end Changes

section Calls

/-- A call of one of the services that share a connection with the audit service. -/
inductive Call where
  | registerProvider (v : ProviderValues)
  | updateProvider (name namespaceName : String) (kwargs : ProviderService.Arguments)
  | enableProvider (name namespaceName : String)
  | disableProvider (name namespaceName : String)
  | recordHealth (name namespaceName : String) (success : Bool)
  | registerMap (v : IdentityMapValues)

abbrev Call.Result : Call → Type
  | .registerMap _ => Option IdentityMapRow
  | _ => Option ProviderService.Provider

def Call.program (T : FloatText) : (call : Call) → DbProg call.Result
  | .registerProvider v => (ProviderService.mk true).register T v
  | .updateProvider name namespaceName kwargs => (ProviderService.mk true).update T name namespaceName kwargs
  | .enableProvider name namespaceName => (ProviderService.mk true).enable T name namespaceName
  | .disableProvider name namespaceName => (ProviderService.mk true).disable T name namespaceName
  | .recordHealth name namespaceName success => (ProviderService.mk true).recordHealth T name namespaceName success
  | .registerMap v => (IdentityService.mk true).register T v

/-- The runs of calls in which any statement or commit may fail and the process may stop
anywhere, where each call meets a condition. -/
inductive Reaches (T : FloatText) (ok : Connection catalog → List (SqlOp catalog × Bool) → Prop)
    (c₀ : Connection catalog) : Connection catalog → Prop
  | start : Reaches T ok c₀ c₀
  | call {c c' : Connection catalog} {call : Call} {tr : List (SqlOp catalog × Bool)}
      {out : Except DbError call.Result} (hr : Reaches T ok c₀ c)
      (hs : Steps (Answers catalog) (call.program T) c tr (.ofExcept out) c') (hok : ok c tr) : Reaches T ok c₀ c'
  | stop {c c' : Connection catalog} {call : Call} {tr : List (SqlOp catalog × Bool)} {p' : DbProg call.Result}
      (hr : Reaches T ok c₀ c) (hs : Steps (Answers catalog) (call.program T) c tr p' c') (hok : ok c tr) :
      Reaches T ok c₀ c'.reopen

/-- In what is committed every change has its audit record, and a call that raises
commits nothing. -/
structure Complete (T : FloatText) (ok : Connection catalog → List (SqlOp catalog × Bool) → Prop)
    (c₀ : Connection catalog) : Prop where
  paired : ∀ c, Reaches T ok c₀ c → Paired T c₀.committed c.committed
  raised : ∀ c, Reaches T ok c₀ c → ∀ (call : Call) tr e c',
    Steps (Answers catalog) (call.program T) c tr (.throw e) c' → ok c tr → c'.committed = c.committed

/-- A call commits nothing, or it starts with nothing uncommitted, nothing in it fails,
and it is not stopped between its two commits. -/
def Whole (c : Connection catalog) (tr : List (SqlOp catalog × Bool)) : Prop :=
  commitsDone tr = 0 ∨ (c.pending = c.committed ∧ NoFailure (S := sqlSig catalog) tr ∧ commitsDone tr = 2)

end Calls

section Report

variable {T : FloatText} {β : Type} {c c' : Connection catalog} {change : Change}

/-- What an execution without failures has done: if both commits are done, a change and its record. -/
structure Report (T : FloatText) (c : Connection catalog) (os : List (SqlOp catalog)) (p' : DbProg β)
    (c' : Connection catalog) : Prop where
  raised : ∀ e, p' = .throw e → os.countP isCommit = 0
  audited : os.countP isCommit = 2 → c.pending = c.committed → ∃ change : Change, ∃ v, change.RecordedBy T v ∧
    Applies (M := catalog) [change.statement, .insertAudit v] c.committed c'.committed

/-- What the part after the first commit does, from the tables that it has left. -/
structure Recorded (T : FloatText) (change : Change) (t : Tables) (os : List (SqlOp catalog)) (p' : DbProg β)
    (c' : Connection catalog) : Prop where
  returns : ∀ e, p' ≠ .throw e
  audited : os.countP isCommit = 1 → ∃ v, change.RecordedBy T v ∧
    Applies (M := catalog) [.insertAudit v] t c'.committed

theorem recorded_smooth (g : Tables → β) :
    Smooth (Answers catalog) (Recorded T change c.pending) (do
      auditLog T true change.eventType change.resourceType change.resource.1 change.resource.2 change.detail
      let t ← select (M := catalog)
      pure (g t)) c := by
  simp only [auditLog, AuditService.log, if_true, Prog.bind_assoc, Prog.pure_eq, Prog.bind_pure]
  apply Smooth.sense ⟨nofun, nofun⟩
  intro _
  apply Smooth.sense ⟨nofun, nofun⟩
  intro ambient
  apply Smooth.execute ⟨nofun, nofun⟩
  intro a t ht
  have haudited : ∃ v, change.RecordedBy T v ∧ Applies (M := catalog) [.insertAudit v] c.pending t :=
    ⟨_, ⟨rfl, rfl, rfl, rfl, rfl⟩, .cons ht (.nil t)⟩
  apply Smooth.commit ⟨nofun, nofun⟩
  apply Smooth.select ⟨nofun, fun _ => haudited⟩
  exact Smooth.pure ⟨nofun, fun _ => haudited⟩

theorem written_smooth (change : Change) {s : Statement} {eventType resourceType resourceName namespaceName : String}
    {detail : Option Json} (hs : change.statement = s) (hevent : change.eventType = eventType)
    (htype : change.resourceType = resourceType) (hresource : change.resource = (resourceName, namespaceName))
    (hdetail : change.detail = detail) (g : Tables → β) :
    Smooth (Answers catalog) (Report T c) (do
      let _ ← execute (M := catalog) s
      commit
      auditLog T true eventType resourceType resourceName namespaceName detail
      let t ← select (M := catalog)
      pure (g t)) c := by
  subst hs hevent htype hdetail
  obtain ⟨rfl, rfl⟩ := Prod.mk.inj hresource
  apply Smooth.execute ⟨nofun, nofun⟩
  intro a t ht
  apply Smooth.commit ⟨nofun, nofun⟩
  refine Smooth.mono ?_ (recorded_smooth g)
  intro os p' c' h
  refine ⟨fun e he => absurd he (h.returns e), ?_⟩
  intro hcount hclean
  rw [List.countP_cons_of_neg (by simp [isCommit]), List.countP_cons_of_pos rfl] at hcount
  obtain ⟨v, hv, happlies⟩ := h.audited (Nat.succ.inj hcount)
  refine ⟨change, v, hv, .cons (a := a) ?_ happlies⟩
  rw [← hclean]
  exact ht

/-- What stands before the change: readings, which commit nothing. -/
theorem Report.later {o : SqlOp catalog} (ho : isCommit o = false) {os : List (SqlOp catalog)} {p' : DbProg β}
    (h : Report T c.advance os p' c') : Report T c (o :: os) p' c' := by
  refine ⟨?_, ?_⟩
  · intro e he
    rw [List.countP_cons_of_neg (by simp [ho])]
    exact h.raised e he
  · intro hcount hclean
    rw [List.countP_cons_of_neg (by simp [ho])] at hcount
    exact h.audited hcount hclean

variable {name namespaceName : String}

theorem changed_smooth {change : ProviderChange} {eventType : String} {detail : Option Json}
    (hevent : ∀ now, (Change.changeProvider change now name namespaceName).eventType = eventType)
    (hdetail : ∀ now, (Change.changeProvider change now name namespaceName).detail = detail) :
    Smooth (Answers catalog) (Report T c)
      ((ProviderService.mk true).change T change eventType name namespaceName detail) c := by
  rw [ProviderService.change, ProviderService.auditLog, ProviderService.get]
  apply Smooth.sense ⟨nofun, nofun⟩
  intro ambient
  refine Smooth.mono (fun os p' c' => Report.later rfl) ?_
  exact written_smooth (.changeProvider change ambient.now.strftime name namespaceName) rfl (hevent _) rfl rfl
    (hdetail _) _

theorem current_smooth {f : ProviderService.Provider → DbProg β}
    (h : ∀ p, Smooth (Answers catalog) (Report T c.advance) (f p) c.advance) :
    Smooth (Answers catalog) (Report T c) (do
      let p ← ProviderService.current T name namespaceName
      f p) c := by
  rw [ProviderService.current, ProviderService.get, Prog.bind_assoc, Prog.bind_assoc]
  apply Smooth.select ⟨nofun, nofun⟩
  refine Smooth.mono (fun os p' c' => Report.later rfl) ?_
  rw [Prog.pure_eq, Prog.bind_pure]
  split
  · exact h _
  · exact Smooth.throw ⟨fun _ _ => rfl, nofun⟩

theorem registerProvider_smooth (v : ProviderValues) :
    Smooth (Answers catalog) (Report T c) ((ProviderService.mk true).register T v) c := by
  rw [ProviderService.register, ProviderService.auditLog, ProviderService.get]
  exact written_smooth (.registerProvider v) rfl rfl rfl rfl rfl _

theorem updateProvider_smooth (kwargs : ProviderService.Arguments) :
    Smooth (Answers catalog) (Report T c) ((ProviderService.mk true).update T name namespaceName kwargs) c := by
  rw [ProviderService.update]
  apply current_smooth
  intro p
  dsimp only
  split
  · exact Smooth.pure ⟨nofun, nofun⟩
  · exact changed_smooth (fun _ => rfl) (fun _ => rfl)

theorem setEnabled_smooth (enabled : Bool) :
    Smooth (Answers catalog) (Report T c) ((ProviderService.mk true).setEnabled T name namespaceName enabled) c := by
  rw [ProviderService.setEnabled]
  apply current_smooth
  intro p
  cases enabled with
  | true => exact changed_smooth (fun _ => rfl) (fun _ => rfl)
  | false => exact changed_smooth (fun _ => rfl) (fun _ => rfl)

theorem recordHealth_smooth (success : Bool) :
    Smooth (Answers catalog) (Report T c) ((ProviderService.mk true).recordHealth T name namespaceName success) c := by
  rw [ProviderService.recordHealth]
  apply current_smooth
  intro p
  cases success with
  | true => exact changed_smooth (fun _ => rfl) (fun _ => rfl)
  | false => exact changed_smooth (fun _ => rfl) (fun _ => rfl)

theorem registerMap_smooth (v : IdentityMapValues) :
    Smooth (Answers catalog) (Report T c) ((IdentityService.mk true).register T v) c := by
  rw [IdentityService.register, IdentityService.get]
  exact written_smooth (.registerMap v) rfl rfl rfl rfl rfl _

theorem call_smooth (call : Call) : Smooth (Answers catalog) (Report T c) (call.program T) c := by
  cases call with
  | registerProvider v => exact registerProvider_smooth v
  | updateProvider name namespaceName kwargs => exact updateProvider_smooth kwargs
  | enableProvider name namespaceName => exact setEnabled_smooth true
  | disableProvider name namespaceName => exact setEnabled_smooth false
  | recordHealth name namespaceName success => exact recordHealth_smooth success
  | registerMap v => exact registerMap_smooth v

end Report

section Runs

variable {T : FloatText} {c c' c₀ : Connection catalog} {t t' : Tables}

theorem Paired.extend {t'' : Tables} {change : Change} {v : AuditValues} (h : Paired T t t')
    (hv : change.RecordedBy T v) (hs : Applies (M := catalog) [change.statement, .insertAudit v] t' t'') :
    Paired T t t'' := by
  obtain ⟨entries, hentries, happlies⟩ := h
  refine ⟨entries ++ [(change, v)], ?_, ?_⟩
  · rw [List.forall_mem_append, List.forall_mem_singleton]
    exact ⟨hentries, hv⟩
  · rw [List.flatMap_append]
    exact happlies.append hs

/-- What a call that meets the condition commits, wherever it ends or is stopped. -/
theorem whole_commits {call : Call} {tr : List (SqlOp catalog × Bool)} {p' : DbProg call.Result}
    (hs : Steps (Answers catalog) (call.program T) c tr p' c') (hok : Whole c tr) :
    c'.committed = c.committed ∨ (∀ e, p' ≠ .throw e) ∧ ∃ change : Change, ∃ v, change.RecordedBy T v ∧
      Applies (M := catalog) [change.statement, .insertAudit v] c.committed c'.committed := by
  obtain hnone | ⟨hclean, hsmooth, htwo⟩ := hok
  · exact .inl (steps_committed hs hnone)
  · right
    have hreport := (call_smooth call).holds tr p' c' hs hsmooth
    rw [commitsDone_eq hsmooth] at htwo
    refine ⟨?_, hreport.audited htwo hclean⟩
    intro e he
    have := hreport.raised e he
    omega

theorem whole_paired (T : FloatText) (hr : Reaches T Whole c₀ c) : Paired T c₀.committed c.committed := by
  induction hr with
  | start => exact ⟨[], by simp, .nil _⟩
  | call _ hs hok ih =>
    obtain hsame | ⟨-, change, v, hv, happlies⟩ := whole_commits hs hok
    · rwa [hsame]
    · exact ih.extend hv happlies
  | stop _ hs hok ih =>
    obtain hsame | ⟨-, change, v, hv, happlies⟩ := whole_commits hs hok
    · exact hsame ▸ ih
    · exact ih.extend hv happlies

/-- The audit log is complete in every run whose calls commit nothing, or start with
nothing uncommitted, fail nowhere and are not stopped between their commits. -/
theorem audit_complete (T : FloatText) (c₀ : Connection catalog) : Complete T Whole c₀ where
  paired _ hr := whole_paired T hr
  raised c _ call tr e c' hs hok := by
    obtain hsame | ⟨hnot, -⟩ := whole_commits hs hok
    · exact hsame
    · exact absurd rfl (hnot e)

end Runs

section Sample

theorem statement_auditLog {change : Change} {a : Ambient} {t t' : Tables} (h : change.statement.run a t = .ok t') :
    t'.auditLog = t.auditLog := by
  replace h := (Statement.run_ok.mp h).2
  cases change with
  | registerProvider v =>
    obtain ⟨-, rfl⟩ := bind_unique_ok h
    rfl
  | changeProvider change now name namespaceName =>
    obtain rfl := Except.ok.inj h
    rfl
  | registerMap v =>
    obtain ⟨-, rfl⟩ := bind_unique_ok h
    rfl

theorem auditLog_length {entries : List (Change × AuditValues)} {t t' : Tables}
    (h : Applies (M := catalog) (entries.flatMap (fun e => [e.1.statement, .insertAudit e.2])) t t') :
    t'.auditLog.rows.length = t.auditLog.rows.length + entries.length := by
  induction entries generalizing t with
  | nil =>
    rw [Applies.nil_iff.mp h]
    rfl
  | cons e entries ih =>
    obtain ⟨a, t₁, h₁, h⟩ := Applies.cons_iff.mp h
    obtain ⟨b, t₂, h₂, h⟩ := Applies.cons_iff.mp h
    obtain rfl := Except.ok.inj h₂
    rw [ih h, List.length_cons, ← statement_auditLog h₁]
    change (t₁.auditLog.rows ++ [_]).length + _ = _
    rw [List.length_append, List.length_singleton]
    omega

def sampleProvider : ProviderValues := ⟨"prices", "default", "MCP", none, 30000, none, "standard"⟩

/-- The registration whose audit record cannot be inserted. -/
theorem failing_audit : ∃ tr c', Steps (Answers catalog)
      ((Call.registerProvider sampleProvider).program samplePackages.floatText) (sampleConnection .empty) tr
      (.throw (.operationalError "disk I/O error")) c' ∧
    c'.committed.providers.rows.length = 1 ∧ c'.committed.auditLog.rows = [] :=
  ⟨_, _, .call ⟨none, rfl⟩ (.call ⟨none, rfl⟩ (.call ⟨none, rfl⟩ (.call ⟨none, rfl⟩
    (.call ⟨some (.operationalError "disk I/O error"), rfl⟩ (.here _ _))))), rfl, rfl⟩

theorem unaudited_change :
    ¬ Complete samplePackages.floatText (fun _ _ => True) (sampleConnection .empty) := by
  intro h
  obtain ⟨tr, c', hsteps, hproviders, haudit⟩ := failing_audit
  have hsteps : Steps (Answers catalog) ((Call.registerProvider sampleProvider).program samplePackages.floatText)
      (sampleConnection .empty) tr (.ofExcept (.error (.operationalError "disk I/O error"))) c' := hsteps
  have hreached : Reaches samplePackages.floatText (fun _ _ => True) (sampleConnection .empty) c' :=
    .call .start hsteps trivial
  obtain ⟨entries, -, happlies⟩ := h.paired c' hreached
  have hlength := auditLog_length happlies
  rw [haudit] at hlength
  have hnil : entries = [] := List.length_eq_zero_iff.mp (by
    change 0 = 0 + entries.length at hlength
    omega)
  rw [hnil] at happlies
  rw [Applies.nil_iff.mp happlies] at hproviders
  cases hproviders

end Sample

end ContextqlServer.Db.AuditTrail
