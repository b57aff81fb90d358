import ContextqlServer.Db.Backfill
import ContextqlServer.Db.Runs

namespace ContextqlServer.Db.CleanConnection

open ContextqlServer.Lib.Effect ContextqlServer.Lib.Isoformat ContextqlServer.Lib.JsonText
open ContextqlServer.Lib.Rely ContextqlServer.Lib.Sql
open ContextqlServer.Db.Schema ContextqlServer.Db.Statements ContextqlServer.Db.Services
open ContextqlServer.Db.ContextCatalog ContextqlServer.Db.ContextCatalog.SQLiteContextRuntimeRepository
open ContextqlServer.Db.Calls ContextqlServer.Db.ContextRows ContextqlServer.Db.Backfill
open ContextqlServer.Db.Runs

variable {P : Packages}

/-- An operation of one of the services that share the connection. -/
inductive Operation (P : Packages) where
  | construct (choice : List ContextRow → Nat)
  | loadContexts
  | hydrateRuntime (membership : List Restored) (history : List MembershipChange)
  | repository (call : Call P)
  | registerProvider (self : ProviderService) (v : ProviderValues)
  | updateProvider (self : ProviderService) (name namespaceName : String) (kwargs : ProviderService.Arguments)
  | setEnabled (self : ProviderService) (name namespaceName : String) (enabled : Bool)
  | recordHealth (self : ProviderService) (name namespaceName : String) (success : Bool)
  | getProvider (name namespaceName : String)
  | listProviders (namespaceName providerType : Option String) (limit offset : Int)
  | registerMap (self : IdentityService) (v : IdentityMapValues)
  | getMap (name namespaceName : String)
  | listMaps (namespaceName : Option String) (limit offset : Int)
  | syncToEngine
  | log (e : AuditService.Event)
  | query (f : AuditService.Filters) (limit offset : Int)
  | loadState (contextId : String)
  | commitState (contextId watermark : String) (eventWatermarks : List (String × String))

def forget {α : Type} (p : DbProg α) : DbProg Unit := do
  let _ ← p

namespace Operation

def program : Operation P → DbProg Unit
  | construct choice => backfillV2Rows P choice
  | loadContexts => forget (SQLiteContextRuntimeRepository.loadContexts P)
  | hydrateRuntime membership history =>
    forget (SQLiteContextRuntimeRepository.hydrateRuntime P membership history)
  | repository call => call.program
  | registerProvider self v => forget (self.register P.floatText v)
  | updateProvider self name namespaceName kwargs => forget (self.update P.floatText name namespaceName kwargs)
  | setEnabled self name namespaceName enabled => forget (self.setEnabled P.floatText name namespaceName enabled)
  | recordHealth self name namespaceName success =>
    forget (self.recordHealth P.floatText name namespaceName success)
  | getProvider name namespaceName => forget (ProviderService.get P.floatText name namespaceName)
  | listProviders namespaceName providerType limit offset =>
    forget (ProviderService.list P.floatText namespaceName providerType limit offset)
  | registerMap self v => forget (self.register P.floatText v)
  | getMap name namespaceName => forget (IdentityService.get name namespaceName)
  | listMaps namespaceName limit offset => forget (IdentityService.list namespaceName limit offset)
  | syncToEngine => forget IdentityService.syncToEngine
  | log e => forget (AuditService.log P.floatText e)
  | query f limit offset => forget (AuditService.query P.floatText f limit offset)
  | loadState contextId => forget (SQLiteSynchronizerStateRepository.load contextId)
  | commitState contextId watermark eventWatermarks =>
    SQLiteSynchronizerStateRepository.commit contextId watermark eventWatermarks

/-- An operation with a rollback for where it fails. -/
def RollsBack : Operation P → Prop
  | repository call => OneTransaction call
  | commitState .. => True
  | _ => False

/-- An operation that executes no statement that changes tables. -/
def Reads : Operation P → Prop
  | loadContexts | hydrateRuntime .. | getProvider .. | listProviders .. | getMap .. | listMaps .. | syncToEngine
  | query .. | loadState _ => True
  | _ => False

/-- The integers that the operation writes can be stored, and the constraints that the tables put
on what it writes are met. -/
def Accepted (c : Connection catalog) : Operation P → Prop
  | construct _ => NeverRepeats c
  | repository (.save entry _) =>
    (∀ n ∈ entry.currentSnapshotVersion, Storable n) ∧ entry.entityKeyName.isSome ∧
      ∀ r ∈ rows c.pending, named entry.name entry.namespaceName r →
        r.version = entry.version → r.contextId = some entry.contextId
  | repository (.record _ version _) => Storable version
  | registerProvider _ v => Storable v.timeoutMs ∧
    ∀ r ∈ c.pending.providers.rows, ¬ (r.name = v.name ∧ r.namespaceName = v.namespaceName)
  | updateProvider _ _ _ kwargs => ∀ n, kwargs.timeoutMs = some (some n) → Storable n
  | registerMap _ v =>
    ∀ r ∈ c.pending.identityMaps.rows, ¬ (r.name = v.name ∧ r.namespaceName = v.namespaceName)
  | _ => True

end Operation

/-- The answers of the connection, to which a disturbance adds failures that are not of the tables. -/
def answers : Bool → Answering (sqlSig catalog) DbError (Connection catalog)
  | true => Answers catalog
  | false => (Connection.handler catalog).Sound

def Careful (c : Connection catalog) (disturbed : Bool) (op : Operation P) : Prop :=
  op.RollsBack ∨ op.Reads ∨ disturbed = false ∧ op.Accepted c

/-- An operation of a run, with how it ended. -/
abbrev Step (P : Packages) := Operation P × Except DbError Unit

def opened (t : Tables) (ambient : Nat → Ambient) : Connection catalog := ⟨t, none, ambient, 0⟩

inductive Sequence (ok : Connection catalog → Bool → Operation P → Prop) (c₀ : Connection catalog) :
    List (Step P) → Connection catalog → Prop
  | start : Sequence ok c₀ [] c₀
  | operation {h : List (Step P)} {c c' : Connection catalog} {disturbed : Bool} {op : Operation P}
      {out : Except DbError Unit} (hr : Sequence ok c₀ h c) (hok : ok c disturbed op)
      (hrun : Runs (answers disturbed) Eq op.program c out c') : Sequence ok c₀ (h ++ [(op, out)]) c'

def Operation.Effect (op : Operation P) (t t' : Tables) : Prop :=
  ∃ c c' : Connection catalog, c.transaction = none ∧ c.committed = t ∧
    Runs (Answers catalog) Eq op.program c (.ok ()) c' ∧ c'.committed = t'

/-- What operations that all return make of the committed tables, one after the other. -/
inductive Publishes : List (Operation P) → Tables → Tables → Prop
  | nil (t : Tables) : Publishes [] t t
  | snoc {ops : List (Operation P)} {op : Operation P} {t t₁ t₂ : Tables} (h : Publishes ops t t₁)
      (hop : op.Effect t₁ t₂) : Publishes (ops ++ [op]) t t₂

def succeeded (h : List (Step P)) : List (Operation P) := (h.filter (fun e => e.2.isOk)).map Prod.fst

structure Clean (ok : Connection catalog → Bool → Operation P → Prop) (c₀ : Connection catalog) : Prop where
  raised : ∀ h c, Sequence ok c₀ h c → ∀ disturbed op e c', ok c disturbed op →
    Runs (answers disturbed) Eq op.program c (.error e) c' →
      c'.committed = c.committed ∧ c'.pending = c.pending ∧ c'.transaction = none
  begins : ∀ h c, Sequence ok c₀ h c → c.transaction = none ∧ (c.step .beginImmediate).1 = .ok ()
  published : ∀ h c, Sequence ok c₀ h c → Publishes (succeeded h) c₀.committed c.committed

/-- How an operation ends that leaves the connection clean. -/
structure Tidy {α : Type} (c : Connection catalog) (out : Except DbError α) (c' : Connection catalog) : Prop where
  idle : c'.transaction = none
  unchanged : ∀ e, out = .error e → c'.committed = c.committed

/-- A program that ends so where nothing disturbs it. -/
def Undisturbed {α : Type} (p : DbProg α) (c : Connection catalog) : Prop :=
  Tidy c ((Connection.handler catalog).exec p c).1 ((Connection.handler catalog).exec p c).2

variable {c c' : Connection catalog} {out : Except DbError Unit} {disturbed : Bool} {op : Operation P}

theorem answers_faulty {o : SqlOp catalog} {r : Except DbError ((sqlSig catalog).Res o)}
    (h : answers disturbed o c r c') : Answers catalog o c r c' := by
  cases disturbed with
  | true => exact h
  | false => exact h.faulty

section Readings

abbrev Readonly {α : Type} (p : DbProg α) : Prop := p.Only (S := sqlSig catalog) IsReading

theorem pure_readonly {α : Type} (a : α) : Readonly (pure a) := trivial

theorem select_readonly {α : Type} {f : Tables → DbProg α} (hf : ∀ t, Readonly (f t)) :
    Readonly (select (M := catalog) >>= f) :=
  Prog.Only.bind (Prog.Only.perform trivial) hf

theorem forget_readonly {α : Type} {p : DbProg α} (hp : Readonly p) : Readonly (forget p) :=
  Prog.Only.bind hp (fun _ => trivial)

theorem Operation.Reads.readonly (h : op.Reads) : Readonly op.program := by
  cases op with
  | loadContexts =>
    apply forget_readonly
    exact select_readonly (fun _ => Prog.Only.ofExcept)
  | hydrateRuntime membership history =>
    apply forget_readonly
    apply select_readonly
    intro t
    refine Prog.Only.bind Prog.Only.ofExcept ?_
    intro restored
    apply select_readonly
    exact fun _ => Prog.Only.bind Prog.Only.ofExcept (fun _ => pure_readonly _)
  | listProviders | listMaps =>
    apply forget_readonly
    apply select_readonly
    exact fun _ => Prog.Only.bind Prog.Only.ofExcept fun _ => select_readonly fun _ => pure_readonly _
  | loadState =>
    apply forget_readonly
    exact select_readonly (fun _ => select_readonly (fun _ => pure_readonly _))
  | query =>
    apply forget_readonly
    exact Prog.Only.bind Prog.Only.ofExcept fun _ => select_readonly fun _ => pure_readonly _
  | getProvider | getMap | syncToEngine =>
    apply forget_readonly
    exact select_readonly (fun _ => pure_readonly _)
  | _ => cases h

end Readings

section Writing

variable {α β : Type} {s : Statement} {t : Tables}

theorem Undisturbed.of_exec {p : DbProg α} {a : α} (h : (Connection.handler catalog).exec p c = (.ok a, c'))
    (hidle : c'.transaction = none) : Undisturbed p c := by
  rw [Undisturbed, h]
  exact ⟨hidle, fun e he => by cases he⟩

theorem Undisturbed.forget {p : DbProg α} (h : Undisturbed p c) : Undisturbed (forget p) c := by
  have hexec : (Connection.handler catalog).exec (CleanConnection.forget p) c =
      (((Connection.handler catalog).exec p c).1.map (fun _ => ()), ((Connection.handler catalog).exec p c).2) := by
    refine ((Connection.handler catalog).exec_handle p (fun _ => pure ()) .throw c).trans ?_
    cases ((Connection.handler catalog).exec p c).1 <;> rfl
  rw [Undisturbed, hexec]
  refine ⟨h.idle, ?_⟩
  intro e he
  cases hout : ((Connection.handler catalog).exec p c).1 with
  | ok a =>
    rw [hout] at he
    cases he
  | error e' => exact h.unchanged e' hout

/-- A statement that is accepted, committed, and audited. -/
theorem written_undisturbed (h : s.run c.reading c.pending = .ok t) (T : FloatText) (audit : Bool)
    (eventType resourceType resourceName namespaceName : String) (detail : Option Json) (g : Tables → β) :
    Undisturbed (do
      let _ ← execute (M := catalog) s
      commit
      auditLog T audit eventType resourceType resourceName namespaceName detail
      let t ← select (M := catalog)
      pure (g t)) c := by
  obtain ⟨c', haudit, -, hidle⟩ := @exec_auditLog T audit eventType resourceType resourceName namespaceName detail
    ((c.working t).advance.settled t).advance
  apply Undisturbed.of_exec (a := g c'.pending) _ (show c'.advance.transaction = none from hidle rfl)
  refine (Handler.exec_bind _ (exec_execute_ok (M := catalog) h)).trans ?_
  refine (Handler.exec_bind _ exec_commit).trans ?_
  exact Handler.exec_bind _ haudit

theorem current_undisturbed (hidle : c.transaction = none) {name namespaceName : String} {T : FloatText}
    {f : ProviderService.Provider → DbProg β} (h : ∀ p, Undisturbed (f p) c.advance) :
    Undisturbed (do
      let p ← ProviderService.current T name namespaceName
      f p) c := by
  rw [Undisturbed, ProviderService.current, Prog.bind_assoc, ProviderService.get, Prog.bind_assoc,
    Handler.exec_bind _ exec_select, Prog.pure_eq, Prog.bind_pure]
  split
  · exact ⟨(h _).idle, (h _).unchanged⟩
  · exact ⟨hidle, fun _ _ => rfl⟩

theorem change_undisturbed (self : ProviderService) (T : FloatText) (change : ProviderChange)
    (eventType name namespaceName : String) (detail : Option Json)
    (hbound : ∀ now, ∀ n ∈ (Statement.changeProvider change now name namespaceName).integers, Storable n) :
    Undisturbed (self.change T change eventType name namespaceName detail) c := by
  have h := written_undisturbed (c := c.advance) (t := Statements.changeProvider c.pending change
      c.reading.now.strftime name namespaceName) (s := .changeProvider change c.reading.now.strftime name namespaceName)
    (Statement.run_ok.mpr ⟨hbound _, rfl⟩) T self.audit eventType "provider" name namespaceName detail
    (fun t => (t.providers.rows.find? (fun r => r.name = name && r.namespaceName = namespaceName)).map
      (ProviderService.rowToDict T))
  exact ⟨h.idle, h.unchanged⟩

theorem setEnabled_undisturbed (hidle : c.transaction = none) (self : ProviderService) (T : FloatText)
    (name namespaceName : String) (enabled : Bool) :
    Undisturbed (self.setEnabled T name namespaceName enabled) c := by
  rw [ProviderService.setEnabled]
  apply current_undisturbed hidle
  exact fun _ => change_undisturbed self T _ _ _ _ _ fun _ => List.forall_mem_nil _

theorem recordHealth_undisturbed (hidle : c.transaction = none) (self : ProviderService) (T : FloatText)
    (name namespaceName : String) (success : Bool) :
    Undisturbed (self.recordHealth T name namespaceName success) c := by
  rw [ProviderService.recordHealth]
  apply current_undisturbed hidle
  refine fun _ => change_undisturbed self T _ _ _ _ _ ?_
  cases success <;> exact fun _ => List.forall_mem_nil _

theorem updateProvider_undisturbed (hidle : c.transaction = none) (self : ProviderService) (T : FloatText)
    (name namespaceName : String) {kwargs : ProviderService.Arguments}
    (hbound : ∀ n, kwargs.timeoutMs = some (some n) → Storable n) :
    Undisturbed (self.update T name namespaceName kwargs) c := by
  rw [ProviderService.update]
  apply current_undisturbed hidle
  intro p
  dsimp only
  split
  · exact .of_exec rfl hidle
  · apply change_undisturbed
    intro now n hn
    obtain ⟨t, ht, htn⟩ : ∃ t, kwargs.timeoutMs = some t ∧ t = some n := by
      cases ht : kwargs.timeoutMs with
      | none => simp [Statement.integers, ProviderUpdate.integers, ProviderService.Arguments.sets, ht] at hn
      | some t => exact ⟨t, rfl, by
        simpa [Statement.integers, ProviderUpdate.integers, ProviderService.Arguments.sets, ht] using hn⟩
    exact hbound n (ht.trans (congrArg some htn))

theorem registerProvider_undisturbed (self : ProviderService) (T : FloatText) {v : ProviderValues}
    (hbound : Storable v.timeoutMs)
    (h : ∀ r ∈ c.pending.providers.rows, ¬ (r.name = v.name ∧ r.namespaceName = v.namespaceName)) :
    Undisturbed (self.register T v) c := by
  have hrun : ∃ t, (Statement.insertProvider v).run c.reading c.pending = .ok t := by
    refine ⟨_, Statement.run_ok.mpr ⟨List.forall_mem_singleton.mpr hbound, bind_eq_ok.mpr ⟨(), unique_ok.mpr ?_, rfl⟩⟩⟩
    simpa [List.any_eq_false] using h
  obtain ⟨t, ht⟩ := hrun
  exact written_undisturbed ht T self.audit ..

theorem registerMap_undisturbed (self : IdentityService) (T : FloatText) {v : IdentityMapValues}
    (h : ∀ r ∈ c.pending.identityMaps.rows, ¬ (r.name = v.name ∧ r.namespaceName = v.namespaceName)) :
    Undisturbed (self.register T v) c := by
  have hrun : ∃ t, (Statement.insertIdentityMap v).run c.reading c.pending = .ok t := by
    refine ⟨_, Statement.run_ok.mpr ⟨List.forall_mem_nil _, bind_eq_ok.mpr ⟨(), unique_ok.mpr ?_, rfl⟩⟩⟩
    simpa [List.any_eq_false] using h
  obtain ⟨t, ht⟩ := hrun
  exact written_undisturbed ht T self.audit ..

theorem log_undisturbed (T : FloatText) (e : AuditService.Event) : Undisturbed (AuditService.log T e) c := by
  obtain ⟨eventType, resourceType, resourceName, detail, actor, namespaceName, traceId⟩ := e
  cases traceId with
  | none => exact .of_exec rfl rfl
  | some traceId => exact .of_exec rfl rfl

theorem construct_undisturbed (h : NeverRepeats c) (choice : List ContextRow → Nat) :
    Undisturbed (backfillV2Rows P choice) c := by
  obtain ⟨c', hexec, -⟩ := h.succeeds (P := P) choice
  apply Undisturbed.of_exec hexec
  rw [backfillV2Rows_eq, Handler.exec_bind _ exec_select] at hexec
  obtain ⟨_, c₁, -, hcommit⟩ := Handler.exec_bind_ok.mp hexec
  obtain ⟨-, rfl⟩ := Prod.mk.inj (exec_commit.symm.trans hcommit)
  rfl

/-- The statement of `save_context` is accepted where its name and version are its own. -/
theorem run_save {entry : ContextCatalogEntry P} (rawDdl : Option String) (a : Ambient)
    (hstorable : ∀ n ∈ integers (entry.values rawDdl), Storable n)
    (hkey : entry.entityKeyName.isSome)
    (hname : ∀ r ∈ rows c.pending, named entry.name entry.namespaceName r →
      r.version = entry.version → r.contextId = some entry.contextId) :
    ∃ t, (Call.saveStatement entry rawDdl c.pending).run a c.pending = .ok t := by
  have hown : ∀ r ∈ rows c.pending, atVersion entry.contextId entry.version r = false →
      named entry.name entry.namespaceName r → r.version ≠ entry.version := by
    intro r hr hnot hnamed hversion
    rw [atVersion_iff.mpr ⟨hname r hr hnamed hversion, hversion⟩] at hnot
    cases hnot
  cases hany : (rows c.pending).any (atVersion entry.contextId entry.version) with
  | true =>
    apply run_saveStatement rawDdl a hstorable _ hkey hown
    exact List.any_eq_true.mp hany
  | false =>
    obtain ⟨key, hkey⟩ := Option.isSome_iff_exists.mp hkey
    have hnone := List.any_eq_false.mp hany
    have hinsert : Call.saveStatement entry rawDdl c.pending = .insertContext (entry.values rawDdl) :=
      if_neg (fun h => Bool.false_ne_true (hany.symm.trans h))
    rw [hinsert]
    refine ⟨_, Statement.run_ok.mpr ⟨hstorable, bind_eq_ok.mpr ⟨key, notNull_ok.mpr hkey,
      bind_eq_ok.mpr ⟨(), unique_ok.mpr ?_, bind_eq_ok.mpr ⟨(), unique_ok.mpr ?_, rfl⟩⟩⟩⟩⟩
    · rw [List.any_eq_false]
      intro r hr
      rw [Bool.and_eq_true, decide_eq_true_eq, not_and]
      exact hown r hr (Bool.eq_false_of_not_eq_true (hnone r hr))
    · rw [sameVersion_values]
      exact hany

theorem save_undisturbed (hidle : c.transaction = none) {entry : ContextCatalogEntry P} (rawDdl : Option String)
    (h : Operation.Accepted c (.repository (.save entry rawDdl))) : Undisturbed (saveContext entry rawDdl) c := by
  by_cases hversion : Storable entry.version
  · obtain ⟨t, ht⟩ := run_save rawDdl c.advance.reading (storable_values.mpr ⟨hversion, h.1⟩) h.2.1 h.2.2
    exact Undisturbed.of_exec (exec_saveContext_ok ht) rfl
  · -- The version is bound to a query before there is a transaction.
    have hrefused : bindIntegers [entry.version] = .error (.overflowError tooLarge) := if_neg (by simpa using hversion)
    rw [Undisturbed, saveContext, hrefused]
    exact ⟨hidle, fun _ _ => rfl⟩

theorem record_undisturbed {contextId : String} {version : Int} (executedAt : Datetime) (h : Storable version) :
    Undisturbed (recordExecution contextId version executedAt) c := by
  have hrun : ∃ t, (Statement.recordExecution (iso (some executedAt)) contextId version).run c.reading c.pending =
      .ok t := ⟨_, Statement.run_ok.mpr ⟨List.forall_mem_singleton.mpr h, rfl⟩⟩
  obtain ⟨t, ht⟩ := hrun
  exact .of_exec ((Handler.exec_bind _ (exec_execute_ok (M := catalog) ht)).trans exec_commit) rfl

/-- What is accepted leaves the connection clean where nothing disturbs it. -/
theorem Operation.Accepted.undisturbed (hidle : c.transaction = none) (h : op.Accepted c)
    (hnot : ¬ (op.RollsBack ∨ op.Reads)) : Undisturbed op.program c := by
  cases op with
  | construct choice => exact construct_undisturbed h choice
  | repository call =>
    cases call with
    | save entry rawDdl => exact save_undisturbed hidle rawDdl h
    | drop entry => exact .of_exec rfl rfl
    | record contextId version executedAt => exact record_undisturbed executedAt h
    | promote p => exact absurd (.inl trivial) hnot
    | prune entry cutoff => exact absurd (.inl trivial) hnot
  | registerProvider self v => exact (registerProvider_undisturbed self _ h.1 h.2).forget
  | updateProvider self name namespaceName kwargs => exact (updateProvider_undisturbed hidle self _ _ _ h).forget
  | setEnabled self name namespaceName enabled => exact (setEnabled_undisturbed hidle ..).forget
  | recordHealth self name namespaceName success => exact (recordHealth_undisturbed hidle ..).forget
  | registerMap self v => exact (registerMap_undisturbed self _ h).forget
  | log e => exact (log_undisturbed _ e).forget
  | commitState => exact absurd (.inl trivial) hnot
  | _ => exact absurd (.inr trivial) hnot

end Writing

section Runs

theorem rollsBack_tidy (hidle : c.transaction = none) (h : op.RollsBack)
    (hrun : Runs (Answers catalog) Eq op.program c out c') : Tidy c out c' := by
  cases op with
  | repository call =>
    cases out with
    | ok u => exact ⟨(effect_of_runs call hidle hrun).1, fun e he => by cases he⟩
    | error e =>
      obtain ⟨hidle', hsame⟩ := unchanged_of_runs h hidle hrun
      exact ⟨hidle', fun _ _ => hsame⟩
  | commitState contextId watermark eventWatermarks =>
    have hk : Keeps (Answers catalog) Eq (fun _ => True) (fun out c' => Tidy c out c')
        (Operation.commitState contextId watermark eventWatermarks : Operation P).program c := by
      apply immediate_alone (fun _ _ => trivial)
      · exact fun c' _ hidle' _ => ⟨hidle', fun e he => by cases he⟩
      · exact fun e c' hidle' hsame => ⟨hidle', fun _ _ => hsame⟩
    exact hk.runs (fun _ _ _ _ h => h) (fun _ _ h => h) (fun _ _ _ _ => trivial) hrun
  | _ => cases h

theorem reads_tidy (hidle : c.transaction = none) (h : op.Reads)
    (hrun : Runs (Answers catalog) Eq op.program c out c') : Tidy c out c' := by
  obtain ⟨hcommitted, htransaction⟩ :=
    (readings_alone h.readonly).runs (fun _ _ _ _ h => h) (fun _ _ h => h) (fun _ _ _ _ => trivial) hrun
  exact ⟨htransaction.trans hidle, fun _ _ => hcommitted⟩

theorem careful_tidy (hidle : c.transaction = none) (hok : Careful c disturbed op)
    (hrun : Runs (answers disturbed) Eq op.program c out c') : Tidy c out c' := by
  by_cases hkind : op.RollsBack ∨ op.Reads
  · have hrun := hrun.mono (fun _ _ _ _ => answers_faulty)
    obtain hrolls | hreads := hkind
    · exact rollsBack_tidy hidle hrolls hrun
    · exact reads_tidy hidle hreads hrun
  · obtain ⟨rfl, haccepted⟩ := (or_assoc.mpr hok).resolve_left hkind
    have htidy := haccepted.undisturbed hidle hkind
    rw [Undisturbed, Runs.exec_iff.mp hrun] at htidy
    exact htidy

theorem idle_of_sequence {c₀ : Connection catalog} {h : List (Step P)} (hidle : c₀.transaction = none)
    (hr : Sequence Careful c₀ h c) : c.transaction = none := by
  induction hr with
  | start => exact hidle
  | operation _ hok hrun ih => exact (careful_tidy ih hok hrun).idle

theorem publishes_of_sequence {c₀ : Connection catalog} {h : List (Step P)} (hidle : c₀.transaction = none)
    (hr : Sequence Careful c₀ h c) : Publishes (succeeded h) c₀.committed c.committed := by
  induction hr with
  | start => exact .nil _
  | @operation h c c' disturbed op out hr hok hrun ih =>
    rw [succeeded, List.filter_append, List.map_append]
    have hidle' := idle_of_sequence hidle hr
    cases out with
    | ok u => exact ih.snoc ⟨c, c', hidle', rfl, hrun.mono (fun _ _ _ _ => answers_faulty), rfl⟩
    | error e =>
      rw [(careful_tidy hidle' hok hrun).unchanged e rfl]
      exact (List.append_nil _).symm ▸ ih

/-- An operation that raises leaves the connection clean, and a transaction can begin, in every sequence
whose operations roll back, only read, or are accepted and not disturbed. -/
theorem clean_of_careful (P : Packages) (t : Tables) (ambient : Nat → Ambient) :
    Clean (P := P) Careful (opened t ambient) where
  raised h c hr disturbed op e c' hok hrun := by
    have hidle := idle_of_sequence rfl hr
    have htidy := careful_tidy hidle hok hrun
    refine ⟨htidy.unchanged e rfl, ?_, htidy.idle⟩
    rw [Connection.pending_of_none htidy.idle, Connection.pending_of_none hidle, htidy.unchanged e rfl]
  begins h c hr := by
    have hidle := idle_of_sequence rfl hr
    refine ⟨hidle, ?_⟩
    simp only [Connection.step, hidle]
  published h c hr := publishes_of_sequence rfl hr

end Runs

section Sample

def prices : ProviderValues := ⟨"prices", "default", "MCP", none, 30000, none, "standard"⟩

def register : Operation samplePackages := .registerProvider ⟨false⟩ prices

/-- What is left of a connection after an operation that nothing disturbs. -/
def after (op : Operation P) (c : Connection catalog) : Connection catalog :=
  ((Connection.handler catalog).exec op.program c).2

theorem sequence_after {c₀ : Connection catalog} {h : List (Step P)} (op : Operation P)
    (hr : Sequence (fun _ _ _ => True) c₀ h c) :
    ∃ out, Sequence (fun _ _ _ => True) c₀ (h ++ [(op, out)]) (after op c) := by
  have hrun : Runs (answers false) Eq op.program c _ (after op c) := Runs.exec_iff.mpr rfl
  exact ⟨_, hr.operation trivial hrun⟩

/-- The second registration of a name leaves its transaction open. -/
theorem unclean_registration :
    ¬ Clean (P := samplePackages) (fun _ _ _ => True) (opened .empty (sampleConnection .empty).ambient) := by
  intro h
  obtain ⟨first, hr⟩ := sequence_after register .start
  obtain ⟨second, hr⟩ := sequence_after register hr
  have hopen : (after register (after register (opened .empty
      (sampleConnection .empty).ambient))).transaction.isSome = true := rfl
  rw [(h.begins _ _ hr).1] at hopen
  cases hopen

end Sample

end ContextqlServer.Db.CleanConnection
