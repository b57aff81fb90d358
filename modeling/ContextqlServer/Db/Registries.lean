import ContextqlServer.Db.AuditLedger
import ContextqlServer.Db.AuditTrail
import ContextqlServer.Lib.Keyed

namespace ContextqlServer.Db.Registries

open ContextqlServer.Lib ContextqlServer.Lib.Effect ContextqlServer.Lib.JsonText ContextqlServer.Lib.Keyed
open ContextqlServer.Lib.Ledger ContextqlServer.Lib.Rely ContextqlServer.Lib.Sql
open ContextqlServer.Db.Schema ContextqlServer.Db.Statements ContextqlServer.Db.Services ContextqlServer.Db.Calls
open ContextqlServer.Db.AuditLedger ContextqlServer.Db.AuditTrail

section Registry

structure Registry where
  providers : String × String → Option ProviderRow
  maps : String × String → Option IdentityMapRow

def providerKey (r : ProviderRow) : String × String := (r.name, r.namespaceName)

def mapKey (r : IdentityMapRow) : String × String := (r.name, r.namespaceName)

def newProvider (v : ProviderValues) (id : Nat) (now : String) : ProviderRow :=
  { v with
    id, timeoutMs := some v.timeoutMs, trustTier := some v.trustTier, credentialsRef := none
    healthState := some "unknown", resourceShape := none, enabled := 1, registeredAt := now
    updatedAt := now, lastSuccessAt := none, lastFailureAt := none }

def newMap (v : IdentityMapValues) (id : Nat) (now : String) : IdentityMapRow :=
  { v with
    id, matchingMode := some v.matchingMode, confidence := stored (some v.confidence)
    version := 1, createdAt := now, updatedAt := now }

variable (m : Registry)

/-- A change of the registry, with the id and the time that the database gives. There is
none where the name of a new row is taken, or that of a changed one is not there. -/
def Registry.apply (id : Nat) (now : String) : Change → Option Registry
  | .registerProvider v =>
    if m.providers (v.name, v.namespaceName) = none then
      some { m with providers := Function.update m.providers (v.name, v.namespaceName) (some (newProvider v id now)) }
    else none
  | .changeProvider change now name namespaceName =>
    (m.providers (name, namespaceName)).map (fun r =>
      { m with providers := Function.update m.providers (name, namespaceName) (some (change.apply now r)) })
  | .registerMap v =>
    if m.maps (v.name, v.namespaceName) = none then
      some { m with maps := Function.update m.maps (v.name, v.namespaceName) (some (newMap v id now)) }
    else none

end Registry

section Tables

variable {t t' : Tables} {s : Statement} {a : Ambient}

def view (t : Tables) : Registry := ⟨lookup providerKey t.providers.rows, lookup mapKey t.identityMaps.rows⟩

/-- The names of the providers are unique, and so are those of the maps. -/
structure Unique (t : Tables) : Prop where
  providers : Distinct providerKey t.providers.rows
  maps : Distinct mapKey t.identityMaps.rows

theorem named_eq (name namespaceName : String) :
    (fun r : ProviderRow => (r.name = name && r.namespaceName = namespaceName : Bool)) =
      fun r => decide (providerKey r = (name, namespaceName)) := by
  funext r
  simp [providerKey]

theorem mapNamed_eq (name namespaceName : String) :
    (fun r : IdentityMapRow => (r.name = name && r.namespaceName = namespaceName : Bool)) =
      fun r => decide (mapKey r = (name, namespaceName)) := by
  funext r
  simp [mapKey]

theorem apply_key (change : ProviderChange) (now : String) (r : ProviderRow) :
    providerKey (change.apply now r) = providerKey r := by
  cases change <;> rfl

theorem changeProvider_rows (t : Tables) (change : ProviderChange) (now name namespaceName : String) :
    (changeProvider t change now name namespaceName).providers.rows = t.providers.rows.map (fun r =>
      if providerKey r = (name, namespaceName) then change.apply now r else r) := by
  change t.providers.rows.map _ = _
  apply List.map_congr_left
  intro r _
  simp [providerKey]

theorem free_iff {name namespaceName : String} :
    (t.providers.rows.any (fun r => r.name = name && r.namespaceName = namespaceName)) = false ↔
      (view t).providers (name, namespaceName) = none := by
  rw [named_eq, List.any_eq_false]
  exact (forall₂_congr fun r _ => by simp).trans (lookup_eq_none providerKey).symm

theorem map_free_iff {name namespaceName : String} :
    (t.identityMaps.rows.any (fun r => r.name = name && r.namespaceName = namespaceName)) = false ↔
      (view t).maps (name, namespaceName) = none := by
  rw [mapNamed_eq, List.any_eq_false]
  exact (forall₂_congr fun r _ => by simp).trans (lookup_eq_none mapKey).symm

def Possible (m : Registry) : Change → Prop
  | .changeProvider _ _ name namespaceName => m.providers (name, namespaceName) ≠ none
  | _ => True

def Fits (change : Change) : Prop := ∀ n ∈ change.statement.integers, Storable n

theorem run_change {change : Change} (h : change.statement.run a t = .ok t') (hpossible : Possible (view t) change) :
    Fits change ∧ ∃ id now, (view t).apply id now change = some (view t') := by
  obtain ⟨hfits, h⟩ := Statement.run_ok.mp h
  refine ⟨hfits, ?_⟩
  cases change with
  | registerProvider v =>
    obtain ⟨hfree, rfl⟩ := bind_unique_ok h
    have hnone := free_iff.mp hfree
    refine ⟨t.providers.sequence + 1, a.now.strftime, ?_⟩
    rw [Registry.apply, if_pos hnone]
    congr 2
    exact (lookup_snoc providerKey (r := newProvider v _ _) hnone).symm
  | changeProvider change now name namespaceName =>
    obtain rfl := Except.ok.inj h
    obtain ⟨r, hr⟩ := Option.ne_none_iff_exists'.mp hpossible
    refine ⟨0, now, ?_⟩
    rw [Registry.apply, hr, Option.map_some]
    congr 2
    change _ = lookup providerKey (changeProvider t change now name namespaceName).providers.rows
    rw [changeProvider_rows, lookup_adjust providerKey (apply_key change now)]
    change _ = Function.update (view t).providers _ (((view t).providers _).map _)
    rw [hr]
    rfl
  | registerMap v =>
    obtain ⟨hfree, rfl⟩ := bind_unique_ok h
    have hnone := map_free_iff.mp hfree
    refine ⟨t.identityMaps.sequence + 1, a.now.strftime, ?_⟩
    rw [Registry.apply, if_pos hnone]
    congr 2
    exact (lookup_snoc mapKey (r := newMap v _ _) hnone).symm

theorem Unique.run (hu : Unique t) (h : s.run a t = .ok t') : Unique t' := by
  have heffect := (Statement.run_ok.mp h).2
  cases s with
  | insertProvider v =>
    obtain ⟨hfree, rfl⟩ := bind_unique_ok heffect
    exact ⟨hu.providers.snoc (free_iff.mp hfree), hu.maps⟩
  | changeProvider change now name namespaceName =>
    obtain rfl := Except.ok.inj heffect
    refine ⟨?_, hu.maps⟩
    rw [changeProvider_rows]
    exact hu.providers.adjust (apply_key change now) _
  | insertIdentityMap v =>
    obtain ⟨hfree, rfl⟩ := bind_unique_ok heffect
    exact ⟨hu.providers, hu.maps.snoc (map_free_iff.mp hfree)⟩
  | insertAudit v =>
    obtain rfl := Except.ok.inj heffect
    exact ⟨hu.providers, hu.maps⟩
  | _ =>
    have hsame := run_sameServices rfl h
    refine ⟨?_, ?_⟩
    · rw [hsame.providers]
      exact hu.providers
    · rw [hsame.identityMaps]
      exact hu.maps

/-- The statements of the two services. -/
def changesRegistry : Statement → Bool
  | .insertProvider _ | .changeProvider .. | .insertIdentityMap _ => true
  | _ => false

theorem run_view (hs : changesRegistry s = false) (h : s.run a t = .ok t') : view t' = view t := by
  cases s with
  | insertProvider | changeProvider | insertIdentityMap => cases hs
  | insertAudit v =>
    obtain rfl := Except.ok.inj (Statement.run_ok.mp h).2
    rfl
  | _ =>
    have hsame := run_sameServices rfl h
    rw [view, hsame.providers, hsame.identityMaps]
    rfl

end Tables

section Calls

variable {T : FloatText} {c c' : Connection catalog}

inductive Makes (T : FloatText) : Call → Change → Prop
  | registerProvider (v : ProviderValues) : Makes T (.registerProvider v) (.registerProvider v)
  | updateProvider {name namespaceName : String} {kwargs : ProviderService.Arguments}
      (hsets : kwargs.sets T ≠ ⟨none, none, none, none, none, none⟩) (now : String) :
      Makes T (.updateProvider name namespaceName kwargs)
        (.changeProvider (.update (kwargs.sets T)) now name namespaceName)
  | enableProvider (name namespaceName now : String) :
      Makes T (.enableProvider name namespaceName) (.changeProvider (.setEnabled true) now name namespaceName)
  | disableProvider (name namespaceName now : String) :
      Makes T (.disableProvider name namespaceName) (.changeProvider (.setEnabled false) now name namespaceName)
  | recordHealth (name namespaceName now : String) (success : Bool) :
      Makes T (.recordHealth name namespaceName success)
        (.changeProvider (if success then .healthy else .unhealthy) now name namespaceName)
  | registerMap (v : IdentityMapValues) : Makes T (.registerMap v) (.registerMap v)

def Effect (T : FloatText) (call : Call) (m m' : Registry) : Prop :=
  ∃ change id now, Makes T call change ∧ Fits change ∧ m.apply id now change = some m'

/-- The row that a call returns. -/
inductive Row where
  | provider (p : Option ProviderService.Provider)
  | map (r : Option IdentityMapRow)

def rowOf : (call : Call) → call.Result → Row
  | .registerProvider _ | .updateProvider .. | .enableProvider .. | .disableProvider .. | .recordHealth .. => .provider
  | .registerMap _ => .map

def Registry.row (T : FloatText) (m : Registry) : Call → Row
  | .registerProvider v => .provider ((m.providers (v.name, v.namespaceName)).map (ProviderService.rowToDict T))
  | .updateProvider name namespaceName _ | .enableProvider name namespaceName | .disableProvider name namespaceName
  | .recordHealth name namespaceName _ =>
    .provider ((m.providers (name, namespaceName)).map (ProviderService.rowToDict T))
  | .registerMap v => .map (m.maps (v.name, v.namespaceName))

abbrev Entry := Call × Option (Except DbError Row)

/-- The steps of a registry that is kept. A call that returns has made its change and
returns its row, and one that does not return may have made it. -/
inductive Step (T : FloatText) (x : Durable Registry) : Entry → Durable Registry → Prop
  | performed {call : Call} {m : Registry} (h : Effect T call x.current m) :
      Step T x (call, some (.ok (m.row T call))) ⟨m, m⟩
  /-- An update that sets nothing. -/
  | unchanged {name namespaceName : String} {kwargs : ProviderService.Arguments} {r : ProviderRow}
      (hsets : kwargs.sets T = ⟨none, none, none, none, none, none⟩)
      (hr : x.current.providers (name, namespaceName) = some r) :
      Step T x (.updateProvider name namespaceName kwargs,
        some (.ok (x.current.row T (.updateProvider name namespaceName kwargs)))) x
  | raised {call : Call} {e : DbError} {y : Durable Registry} (h : x.Interrupted (Effect T call) y) :
      Step T x (call, some (.error e)) y
  | stopped {call : Call} {y : Durable Registry} (h : x.Interrupted (Effect T call) y) :
      Step T x (call, none) y.crash

def state (c : Connection catalog) : Durable Registry := ⟨view c.committed, view c.pending⟩

/-- The operations of an audit record. -/
def Auditing : SqlOp catalog → Prop
  | .execute (.insertAudit _) | .commit | .select | .sense => True
  | _ => False

theorem auditLog_auditing {audit : Bool} {eventType resourceType name namespaceName : String} {detail : Option Json} :
    (Services.auditLog T audit eventType resourceType name namespaceName detail).Only (S := sqlSig catalog)
      Auditing := by
  cases audit with
  | false => trivial
  | true =>
    rw [Services.auditLog, if_pos rfl, AuditService.log]
    apply Prog.Only.bind
    · apply Prog.Only.bind (.perform trivial)
      intro ambient
      rw [Prog.pure_eq, Prog.bind_pure]
      apply Prog.Only.bind (.perform trivial)
      intro ambient
      exact .bind (.perform trivial) fun t => .bind (.perform trivial) fun _ => trivial
    · exact fun _ => trivial

theorem execute_of_write {o : SqlOp catalog} {r : Except DbError ((sqlSig catalog).Res o)} {s : Statement}
    (h : Shared.move o r = .write s) : o = .execute s := by
  cases o with
  | execute s' =>
    cases r with
    | ok t =>
      obtain rfl := Shared.Move.write.inj h
      rfl
    | error e => cases h
  | commit => cases r <;> cases h
  | _ => cases h

theorem audit_of_write {o : SqlOp catalog} {r : Except DbError ((sqlSig catalog).Res o)} {s : Statement}
    (ho : Auditing o) (h : Shared.move o r = .write s) : ∃ v, s = .insertAudit v := by
  rw [execute_of_write h] at ho
  cases s with
  | insertAudit v => exact ⟨v, rfl⟩
  | _ => exact ho.elim

theorem auditing_state {m : Registry} {o : SqlOp catalog} {r : Except DbError ((sqlSig catalog).Res o)}
    (ho : Auditing o) (hm : state c = ⟨m, m⟩) (hA : Answers catalog o c r c') : state c' = ⟨m, m⟩ := by
  obtain ⟨hcommitted, hpending⟩ := Durable.mk.inj hm
  have hcases := Shared.answer_cases hA
  cases hmove : Shared.move o r with
  | write s =>
    rw [hmove] at hcases
    obtain ⟨v, rfl⟩ := audit_of_write ho hmove
    obtain ⟨hsame, a, hrun⟩ := hcases
    have hview : view c'.pending = view c.pending := by
      rw [← Except.ok.inj hrun]
      rfl
    rw [state, hsame, hview, hcommitted, hpending]
  | publish =>
    rw [hmove] at hcases
    rw [state, hcases.1, hcases.2, hpending]
  | undo =>
    rw [Shared.rollback_of_undo hmove] at ho
    exact ho.elim
  | idle =>
    rw [hmove] at hcases
    rw [state, hcases.1, hcases.2, hcommitted, hpending]

def Steps {α : Type} (T : FloatText) (call : Call) (wrap : α → Row) (p : DbProg α) (c : Connection catalog) : Prop :=
  Keeps (Answers catalog) Eq (fun c' => (state c).Interrupted (Effect T call) (state c'))
    (fun out c' => Step T (state c) (call, some (out.map wrap)) (state c')) p c

theorem written_steps {α : Type} {call : Call} {change : Change} {audit : Bool}
    {eventType resourceType name namespaceName : String} {detail : Option Json} {g : Tables → α} {wrap : α → Row}
    (hmakes : Makes T call change) (hpossible : Possible (view c.pending) change)
    (hg : ∀ t, wrap (g t) = (view t).row T call) : Steps T call wrap (do
      let _ ← execute (M := catalog) change.statement
      commit
      Services.auditLog T audit eventType resourceType name namespaceName detail
      let t ← select (M := catalog)
      pure (g t)) c := by
  refine .bind (execute_alone .before ?_ fun _ => .raised .before)
  intro a t ht
  have heffect : Effect T call (state c).current (view t) := by
    obtain ⟨hfits, id, now, happly⟩ := run_change ht hpossible
    exact ⟨change, id, now, hmakes, hfits, happly⟩
  refine .bind (commit_alone (.pending heffect) ?_ fun _ => .raised (.pending heffect))
  have hkept : ∀ c' : Connection catalog, state c' = ⟨view t, view t⟩ →
      (state c).Interrupted (Effect T call) (state c') := by
    intro c' hc'
    rw [hc']
    exact .kept heffect
  apply Keeps.bind
  refine (Keeps.within (J := fun c' => state c' = ⟨view t, view t⟩)
    (fun o w r w' ho hm hA => auditing_state ho hm hA) hkept auditLog_auditing rfl).mono ?_
  rintro (e | ⟨⟩) c' hc'
  · exact .raised (hkept c' hc')
  · refine .bind (select_alone (hkept c' hc') ?_ fun _ => .raised (hkept c' hc'))
    have hrow : wrap (g c'.pending) = (view t).row T call :=
      (hg c'.pending).trans (congrArg (Registry.row T · call) (Durable.mk.inj hc').2)
    change Step T (state c) (call, some (.ok (wrap (g c'.pending)))) (state c')
    rw [hrow, hc']
    exact .performed heffect

theorem get_eq (t : Tables) (name namespaceName : String) :
    (t.providers.rows.find? (fun r => r.name = name && r.namespaceName = namespaceName)) =
      (view t).providers (name, namespaceName) := by
  rw [named_eq]
  rfl

theorem mapGet_eq (t : Tables) (name namespaceName : String) :
    (t.identityMaps.rows.find? (fun r => r.name = name && r.namespaceName = namespaceName)) =
      (view t).maps (name, namespaceName) := by
  rw [mapNamed_eq]
  rfl

section Reads

variable {I : Connection catalog → Prop} {name namespaceName : String}

theorem get_alone {Q : Except DbError (Option ProviderService.Provider) → Connection catalog → Prop} (hI : I c)
    (hok : Q (.ok (((view c.pending).providers (name, namespaceName)).map (ProviderService.rowToDict T))) c.advance)
    (herr : ∀ e, Q (.error e) c.advance) :
    Keeps (Answers catalog) Eq I Q (ProviderService.get T name namespaceName) c := by
  rw [← get_eq c.pending name namespaceName] at hok
  exact .bind (select_alone hI hok herr)

theorem current_alone {Q : Except DbError ProviderService.Provider → Connection catalog → Prop} (hI : I c)
    (hok : ∀ r, (view c.pending).providers (name, namespaceName) = some r →
      Q (.ok (ProviderService.rowToDict T r)) c.advance) (herr : ∀ e, Q (.error e) c.advance) :
    Keeps (Answers catalog) Eq I Q (ProviderService.current T name namespaceName) c := by
  rw [ProviderService.current]
  refine .bind (get_alone hI ?_ herr)
  cases hrow : (view c.pending).providers (name, namespaceName) with
  | none => exact herr _
  | some r => exact hok r hrow

end Reads

theorem change_steps {call : Call} {change : ProviderChange} {eventType name namespaceName : String}
    {detail : Option Json} {r : ProviderRow} (hr : (view c.pending).providers (name, namespaceName) = some r)
    (hmakes : ∀ now, Makes T call (.changeProvider change now name namespaceName))
    (hrow : ∀ m : Registry,
      m.row T call = .provider ((m.providers (name, namespaceName)).map (ProviderService.rowToDict T))) :
    Steps T call .provider ((ProviderService.mk true).change T change eventType name namespaceName detail) c := by
  rw [ProviderService.change, ProviderService.auditLog, ProviderService.get]
  refine .bind (sense_alone .before ?_)
  intro ambient
  have hpossible : (view c.pending).providers (name, namespaceName) ≠ none :=
    fun hnone => Option.some_ne_none r (hr.symm.trans hnone)
  refine written_steps (c := c.advance) (hmakes _) hpossible ?_
  intro t
  rw [hrow, get_eq]

theorem call_steps (call : Call) : Steps T call (rowOf call) (call.program T) c := by
  cases call with
  | registerProvider v =>
    change Steps T _ _ ((ProviderService.mk true).register T v) c
    rw [ProviderService.register, ProviderService.auditLog, ProviderService.get]
    refine written_steps (.registerProvider v) trivial ?_
    intro t
    rw [get_eq]
    rfl
  | updateProvider name namespaceName kwargs =>
    refine .bind (current_alone .before ?_ fun _ => .raised .before)
    intro r hr
    change Keeps _ _ _ _ (if kwargs.sets T = ⟨none, none, none, none, none, none⟩ then _ else _) c.advance
    split
    · rename_i hsets
      have hstep : Step T (state c) (.updateProvider name namespaceName kwargs, _) (state c) := .unchanged hsets hr
      have hrow : (state c).current.row T (.updateProvider name namespaceName kwargs) =
          .provider (some (ProviderService.rowToDict T r)) :=
        congrArg (fun row : Option ProviderRow => Row.provider (row.map (ProviderService.rowToDict T))) hr
      rw [hrow] at hstep
      exact hstep
    · rename_i hsets
      exact change_steps (c := c.advance) hr (.updateProvider hsets) fun _ => rfl
  | enableProvider name namespaceName =>
    refine .bind (current_alone .before ?_ fun _ => .raised .before)
    intro r hr
    exact change_steps (c := c.advance) hr (.enableProvider name namespaceName) fun _ => rfl
  | disableProvider name namespaceName =>
    refine .bind (current_alone .before ?_ fun _ => .raised .before)
    intro r hr
    exact change_steps (c := c.advance) hr (.disableProvider name namespaceName) fun _ => rfl
  | recordHealth name namespaceName success =>
    refine .bind (current_alone .before ?_ fun _ => .raised .before)
    intro r hr
    exact change_steps (c := c.advance) hr (.recordHealth name namespaceName · success) fun _ => rfl
  | registerMap v =>
    change Steps T _ _ ((IdentityService.mk true).register T v) c
    rw [IdentityService.register, IdentityService.get]
    refine written_steps (.registerMap v) trivial ?_
    intro t
    rw [mapGet_eq]
    rfl

end Calls

section Histories

variable {T : FloatText} {c c' c₀ : Connection catalog} {history : List Entry} {x x₀ : Durable Registry}

/-- The operations of the other services, and the restarts. -/
def Elsewhere : Option (SqlOp catalog) → Prop
  | some (.execute s) => changesRegistry s = false
  | _ => True

/-- The calls of the two services by one caller at a time, any of which may fail or end with
the process anywhere, with what the other services do between them. -/
inductive Serves (T : FloatText) (c₀ : Connection catalog) : List Entry → Connection catalog → Prop
  | start : Serves T c₀ [] c₀
  | elsewhere {c c' : Connection catalog} {history : List Entry} (h : Serves T c₀ history c)
      (hm : Moves Elsewhere c c') : Serves T c₀ history c'
  | call {c c' : Connection catalog} {history : List Entry} {call : Call} {out : Except DbError call.Result}
      (h : Serves T c₀ history c) (hs : Runs (Answers catalog) Eq (call.program T) c out c') :
      Serves T c₀ (history ++ [(call, some (out.map (rowOf call)))]) c'
  | stop {c c' : Connection catalog} {history : List Entry} {call : Call} (h : Serves T c₀ history c)
      (hs : Visits (Answers catalog) Eq (call.program T) c c') : Serves T c₀ (history ++ [(call, none)]) c'.reopen

/-- The histories of a registry that is kept. Others may have it kept as it is, or take it
back to what is kept. -/
inductive Kept (T : FloatText) (x₀ : Durable Registry) : List Entry → Durable Registry → Prop
  | start : Kept T x₀ [] x₀
  | keep {x : Durable Registry} {history : List Entry} (h : Kept T x₀ history x) :
      Kept T x₀ history ⟨x.current, x.current⟩
  | undo {x : Durable Registry} {history : List Entry} (h : Kept T x₀ history x) : Kept T x₀ history x.crash
  | step {x y : Durable Registry} {history : List Entry} {entry : Entry} (h : Kept T x₀ history x)
      (hs : Step T x entry y) : Kept T x₀ (history ++ [entry]) y

theorem Kept.elsewhere (hm : Moves Elsewhere c c') (h : Kept T x₀ history (state c)) :
    Kept T x₀ history (state c') := by
  induction hm with
  | refl => exact h
  | @operation c₁ c₂ o r _ ho hA ih =>
    have hcases := Shared.answer_cases hA
    cases hmove : Shared.move o r with
    | write s =>
      rw [hmove] at hcases
      obtain ⟨hsame, a, hrun⟩ := hcases
      have hs : changesRegistry s = false := by
        rw [execute_of_write hmove] at ho
        exact ho
      have hview : view c₂.pending = view c₁.pending := run_view hs hrun
      rw [state, hsame, hview]
      exact ih
    | publish =>
      rw [hmove] at hcases
      rw [state, hcases.1, hcases.2]
      exact ih.keep
    | undo =>
      rw [hmove] at hcases
      rw [state, hcases.1, hcases.2]
      exact ih.undo
    | idle =>
      rw [hmove] at hcases
      rw [state, hcases.1, hcases.2]
      exact ih
  | restart _ _ ih => exact ih.undo

theorem Step.interrupted {call : Call} {out : Except DbError Row} {y : Durable Registry}
    (h : Step T x (call, some out) y) : x.Interrupted (Effect T call) y := by
  cases h with
  | performed h => exact .kept h
  | unchanged => exact .before
  | raised h => exact h

theorem serves_kept (h : Serves T c₀ history c) : Kept T (state c₀) history (state c) := by
  induction h with
  | start => exact .start
  | elsewhere _ hm ih => exact ih.elsewhere hm
  | @call c c' history call out _ hs ih =>
    have hstep := (call_steps (T := T) (c := c) call).runs (fun _ _ _ _ h => h) (fun _ _ h => h)
      (fun _ _ h hI => h ▸ hI) hs
    exact ih.step hstep
  | @stop c c' history call _ hs ih =>
    have hinterrupted : (state c).Interrupted (Effect T call) (state c') := by
      refine (call_steps (T := T) (c := c) call).visits (fun _ _ h hI => h ▸ hI) ?_ hs
      exact fun out c' hstep => hstep.interrupted
    exact ih.step (.stopped hinterrupted)

end Histories

section Names

variable {T : FloatText} {history : List Entry} {x x₀ y : Durable Registry} {m m' : Registry} {call : Call}
  {k : Bool × String × String}

def registration : Entry → Option (Bool × String × String)
  | (.registerProvider v, some (.ok _)) => some (false, v.name, v.namespaceName)
  | (.registerMap v, some (.ok _)) => some (true, v.name, v.namespaceName)
  | _ => none

def registrations (history : List Entry) : List (Bool × String × String) := history.filterMap registration

def Taken (k : Bool × String × String) (m : Registry) : Prop :=
  if k.1 then m.maps k.2 ≠ none else m.providers k.2 ≠ none

theorem update_ne_none {κ ρ : Type} [DecidableEq κ] {f : κ → Option ρ} {k k' : κ} {r : ρ} (h : f k ≠ none) :
    Function.update f k' (some r) k ≠ none := by
  rw [Function.update_apply]
  split
  · exact Option.some_ne_none r
  · exact h

theorem effect_taken (h : Effect T call m m') (hk : Taken k m) : Taken k m' := by
  obtain ⟨change, id, now, -, -, happly⟩ := h
  obtain ⟨isMap, k⟩ := k
  cases change with
  | registerProvider v =>
    obtain ⟨-, happly⟩ := Option.ite_none_right_eq_some.mp happly
    obtain rfl := Option.some.inj happly
    cases isMap with
    | true => exact hk
    | false => exact update_ne_none hk
  | changeProvider change now name namespaceName =>
    obtain ⟨r, -, rfl⟩ := Option.map_eq_some_iff.mp happly
    cases isMap with
    | true => exact hk
    | false => exact update_ne_none hk
  | registerMap v =>
    obtain ⟨-, happly⟩ := Option.ite_none_right_eq_some.mp happly
    obtain rfl := Option.some.inj happly
    cases isMap with
    | true => exact update_ne_none hk
    | false => exact hk

theorem effect_registration {out : Option (Except DbError Row)} (h : Effect T call m m')
    (hk : registration (call, out) = some k) : ¬ Taken k m ∧ Taken k m' := by
  obtain ⟨change, id, now, hmakes, -, happly⟩ := h
  cases hmakes with
  | registerProvider v =>
    obtain ⟨hfree, happly⟩ := Option.ite_none_right_eq_some.mp happly
    obtain rfl := Option.some.inj happly
    obtain rfl : k = (false, v.name, v.namespaceName) := by
      obtain _ | _ | _ := out <;> cases hk
      rfl
    refine ⟨fun htaken => htaken hfree, ?_⟩
    change Function.update m.providers _ _ _ ≠ none
    simp
  | registerMap v =>
    obtain ⟨hfree, happly⟩ := Option.ite_none_right_eq_some.mp happly
    obtain rfl := Option.some.inj happly
    obtain rfl : k = (true, v.name, v.namespaceName) := by
      obtain _ | _ | _ := out <;> cases hk
      rfl
    refine ⟨fun htaken => htaken hfree, ?_⟩
    change Function.update m.maps _ _ _ ≠ none
    simp
  | _ => cases hk

theorem step_registration {entry : Entry} (h : Step T x entry y) :
    (∀ k, x.Both (Taken k) → y.Both (Taken k)) ∧
      ∀ k, registration entry = some k → ¬ x.Both (Taken k) ∧ y.Both (Taken k) := by
  have hinterrupted : ∀ {call y}, x.Interrupted (Effect T call) y → ∀ k, x.Both (Taken k) → y.Both (Taken k) :=
    fun hy k hk => hk.interrupted (fun _ _ => effect_taken) hy
  cases h with
  | performed heffect =>
    refine ⟨hinterrupted (.kept heffect), ?_⟩
    intro k hk
    have hfree := effect_registration heffect hk
    exact ⟨fun hboth => hfree.1 hboth.2, hfree.2, hfree.2⟩
  | unchanged => exact ⟨fun _ => id, fun k hk => by cases hk⟩
  | @raised call e _ hy =>
    refine ⟨hinterrupted hy, ?_⟩
    intro k hk
    cases call <;> cases hk
  | @stopped call y hy =>
    refine ⟨fun k hk => (hinterrupted hy k hk).crash, ?_⟩
    intro k hk
    cases call <;> cases hk

/-- No name is given twice, nor one that was there from the beginning. -/
theorem Kept.once (h : Kept T x₀ history x) :
    (registrations history).Nodup ∧ (∀ k ∈ registrations history, ¬ x₀.Both (Taken k)) ∧
      ∀ k, x₀.Both (Taken k) ∨ k ∈ registrations history → x.Both (Taken k) := by
  induction h with
  | start => exact ⟨List.nodup_nil, List.forall_mem_nil _, fun k hk => hk.resolve_right List.not_mem_nil⟩
  | keep _ ih => exact ⟨ih.1, ih.2.1, fun k hk => ⟨(ih.2.2 k hk).2, (ih.2.2 k hk).2⟩⟩
  | undo _ ih => exact ⟨ih.1, ih.2.1, fun k hk => (ih.2.2 k hk).crash⟩
  | @step x y history entry _ hs ih =>
    obtain ⟨hnodup, hfresh, htaken⟩ := ih
    obtain ⟨hstay, hnew⟩ := step_registration hs
    cases hentry : registration entry with
    | none =>
      have hsame : registrations (history ++ [entry]) = registrations history := by
        simp [registrations, hentry]
      rw [hsame]
      exact ⟨hnodup, hfresh, fun k hk => hstay k (htaken k hk)⟩
    | some k =>
      have hsnoc : registrations (history ++ [entry]) = registrations history ++ [k] := by
        simp [registrations, hentry]
      obtain ⟨hfree, hgiven⟩ := hnew k hentry
      rw [hsnoc]
      refine ⟨?_, ?_, ?_⟩
      · rw [List.nodup_append]
        refine ⟨hnodup, List.nodup_singleton k, ?_⟩
        intro k₁ hk₁ k₂ hk₂ heq
        rw [List.mem_singleton.mp hk₂] at heq
        exact hfree (htaken k (.inr (heq ▸ hk₁)))
      · rw [List.forall_mem_append, List.forall_mem_singleton]
        exact ⟨hfresh, fun hboth => hfree (htaken k (.inl hboth))⟩
      · intro k' hk'
        rw [List.mem_append, List.mem_singleton, ← or_assoc] at hk'
        obtain hk' | rfl := hk'
        · exact hstay k' (htaken k' hk')
        · exact hgiven

end Names

section Outcomes

variable {T : FloatText} {c : Connection catalog}

def ProviderNotFound (name namespaceName : String) : DbError :=
  .valueError s!"Provider '{name}' not found in namespace '{namespaceName}'"

def overflow (change : Change) : Option DbError :=
  if ∀ n ∈ change.statement.integers, Storable n then none else some (.overflowError tooLarge)

/-- What a call raises by itself. -/
def refusal (T : FloatText) (m : Registry) : Call → Option DbError
  | .registerProvider v =>
    (overflow (.registerProvider v)).or
      (if m.providers (v.name, v.namespaceName) = none then none
      else some (.integrityError "UNIQUE constraint failed: providers.name, providers.namespace"))
  | .updateProvider name namespaceName kwargs =>
    if m.providers (name, namespaceName) = none then some (ProviderNotFound name namespaceName)
    else overflow (.changeProvider (.update (kwargs.sets T)) "" name namespaceName)
  | .enableProvider name namespaceName | .disableProvider name namespaceName | .recordHealth name namespaceName _ =>
    if m.providers (name, namespaceName) = none then some (ProviderNotFound name namespaceName) else none
  | .registerMap v =>
    if m.maps (v.name, v.namespaceName) = none then none
    else some (.integrityError "UNIQUE constraint failed: identity_maps.name, identity_maps.namespace")

variable {α β : Type}

theorem exec_written {s : Statement} {t : Tables} (h : s.run c.reading c.pending = .ok t) {audit : Bool}
    {eventType resourceType name namespaceName : String} {detail : Option Json} (g : Tables → α) :
    ((Connection.handler catalog).exec (do
      let _ ← execute (M := catalog) s
      commit
      Services.auditLog T audit eventType resourceType name namespaceName detail
      let t ← select (M := catalog)
      pure (g t)) c).1.isOk := by
  have hexecute : (Connection.handler catalog).exec (execute (M := catalog) s) c = (.ok t, (c.working t).advance) :=
    exec_execute_ok h
  obtain ⟨c₁, haudit, -⟩ := @exec_auditLog T audit eventType resourceType name namespaceName detail
    ((c.working t).advance.settled t).advance
  have hexec := (Handler.exec_bind (fun _ => do
    commit
    Services.auditLog T audit eventType resourceType name namespaceName detail
    let t ← select (M := catalog)
    pure (g t)) hexecute).trans ((Handler.exec_bind _ exec_commit).trans (Handler.exec_bind _ haudit))
  rw [hexec]
  rfl

theorem exec_refused {s : Statement} {e : DbError} (h : s.run c.reading c.pending = .error e) (f : Tables → DbProg α) :
    ((Connection.handler catalog).exec (do
      let t ← execute (M := catalog) s
      f t) c).1 = .error e := by
  exact congrArg Prod.fst (Handler.exec_bind_error f (exec_execute_error h))

theorem exec_get (name namespaceName : String) :
    (Connection.handler catalog).exec (ProviderService.get T name namespaceName) c =
      (.ok (((view c.pending).providers (name, namespaceName)).map (ProviderService.rowToDict T)), c.advance) := by
  rw [← get_eq c.pending name namespaceName]
  rfl

theorem exec_current_none {name namespaceName : String}
    (h : (view c.pending).providers (name, namespaceName) = none) (f : ProviderService.Provider → DbProg α) :
    ((Connection.handler catalog).exec (do
      let p ← ProviderService.current T name namespaceName
      f p) c).1 = .error (ProviderNotFound name namespaceName) := by
  have hcurrent : (Connection.handler catalog).exec (ProviderService.current T name namespaceName) c =
      (.error (ProviderNotFound name namespaceName), c.advance) := by
    rw [ProviderService.current, Handler.exec_bind _ (exec_get name namespaceName), h]
    rfl
  rw [Handler.exec_bind_error _ hcurrent]

theorem exec_current_some {name namespaceName : String} {r : ProviderRow}
    (h : (view c.pending).providers (name, namespaceName) = some r) (f : ProviderService.Provider → DbProg α) :
    (Connection.handler catalog).exec (do
      let p ← ProviderService.current T name namespaceName
      f p) c = (Connection.handler catalog).exec (f (ProviderService.rowToDict T r)) c.advance := by
  have hcurrent : (Connection.handler catalog).exec (ProviderService.current T name namespaceName) c =
      (.ok (ProviderService.rowToDict T r), c.advance) := by
    rw [ProviderService.current, Handler.exec_bind _ (exec_get name namespaceName), h]
    rfl
  rw [Handler.exec_bind _ hcurrent]

/-- A call raises what is refused, and returns where nothing is. -/
def Refuses (refused : Option DbError) (out : Except DbError α) : Prop :=
  (∀ e, refused = some e → out = .error e) ∧ (refused = none → out.isOk)

theorem Refuses.ok {out : Except DbError α} (h : out.isOk) : Refuses none out := ⟨fun _ he => (by cases he), fun _ => h⟩

theorem Refuses.error {out : Except DbError α} {e : DbError} (h : out = .error e) : Refuses (some e) out :=
  ⟨fun _ he => Option.some.inj he ▸ h, fun he => (by cases he)⟩

theorem overflow_of_fits {change : Change} (h : Fits change) : overflow change = none := if_pos h

theorem overflow_of_not_fits {change : Change} (h : ¬ Fits change) :
    overflow change = some (.overflowError tooLarge) := if_neg h

theorem refuses_bound (change : Change) {f : Tables → DbProg α} {refused : Option DbError}
    (h : Fits change → Refuses refused ((Connection.handler catalog).exec (do
      let t ← execute (M := catalog) change.statement
      f t) c).1) :
    Refuses ((overflow change).or refused) ((Connection.handler catalog).exec (do
      let t ← execute (M := catalog) change.statement
      f t) c).1 := by
  by_cases hfits : Fits change
  · rw [overflow_of_fits hfits]
    exact h hfits
  · rw [overflow_of_not_fits hfits]
    apply Refuses.error
    have hbind : bindIntegers change.statement.integers = .error (.overflowError tooLarge) := if_neg hfits
    refine exec_refused ?_ f
    change (bindIntegers change.statement.integers >>= fun _ => _) = _
    rw [hbind]
    rfl

theorem exec_change {change : ProviderChange} {eventType name namespaceName : String} {detail : Option Json}
    {refused : Option DbError} (hrefused : ∀ now, overflow (.changeProvider change now name namespaceName) = refused) :
    Refuses refused ((Connection.handler catalog).exec
      ((ProviderService.mk true).change T change eventType name namespaceName detail) c).1 := by
  rw [ProviderService.change, Handler.exec_bind _ exec_sense, ← hrefused c.reading.now.strftime,
    ← Option.or_none (o := overflow _)]
  refine refuses_bound (.changeProvider change c.reading.now.strftime name namespaceName) (c := c.advance) ?_
  intro hfits
  exact .ok (exec_written (c := c.advance) (Statement.run_ok.mpr ⟨hfits, rfl⟩) _)

theorem exec_about {name namespaceName : String} {f : ProviderService.Provider → DbProg α} {refused : Option DbError}
    (h : ∀ r, Refuses refused ((Connection.handler catalog).exec (f (ProviderService.rowToDict T r)) c.advance).1) :
    Refuses (if (view c.pending).providers (name, namespaceName) = none
      then some (ProviderNotFound name namespaceName) else refused)
      ((Connection.handler catalog).exec (do
        let p ← ProviderService.current T name namespaceName
        f p) c).1 := by
  cases hrow : (view c.pending).providers (name, namespaceName) with
  | none =>
    rw [if_pos rfl]
    exact .error (exec_current_none hrow f)
  | some r =>
    rw [if_neg (Option.some_ne_none r), exec_current_some hrow]
    exact h r

theorem refuses_unique {s : Statement} {free : Prop} [Decidable free] {message : String} {f : Tables → DbProg α}
    (hfree : free → ∃ t, s.run c.reading c.pending = .ok t) (htaken : ¬ free →
      s.run c.reading c.pending = .error (.integrityError message))
    (hok : ∀ t, s.run c.reading c.pending = .ok t → ((Connection.handler catalog).exec (do
      let t ← execute (M := catalog) s
      f t) c).1.isOk) :
    Refuses (if free then none else some (.integrityError message)) ((Connection.handler catalog).exec (do
      let t ← execute (M := catalog) s
      f t) c).1 := by
  split
  · rename_i h
    obtain ⟨t, ht⟩ := hfree h
    exact .ok (hok t ht)
  · rename_i h
    exact .error (exec_refused (htaken h) f)

theorem run_bound (change : Change) {e : DbError} {a : Ambient} {t : Tables} (hfits : Fits change)
    (h : change.statement.effect a t = .error e) : change.statement.run a t = .error e := by
  rw [Statement.run, bindIntegers_ok (u := ()).mpr hfits]
  exact h

theorem run_taken {columns : String} {clash : Bool} (hclash : clash ≠ false) (t : Tables) :
    (do unique columns clash; pure t : Except DbError Tables) =
      .error (.integrityError s!"UNIQUE constraint failed: {columns}") := by
  obtain rfl : clash = true := by simpa using hclash
  rfl

/-- Where nothing fails, a call raises what the registry refuses and nothing else. -/
theorem exec_outcome (call : Call) :
    Refuses (refusal T (view c.pending) call) ((Connection.handler catalog).exec (call.program T) c).1 := by
  cases call with
  | registerProvider v =>
    apply refuses_bound (.registerProvider v)
    intro hfits
    apply refuses_unique
    · exact fun hfree => ⟨_, Statement.run_ok.mpr ⟨hfits,
        congrArg (· >>= _) (unique_ok (u := ()).mpr (free_iff.mpr hfree))⟩⟩
    · exact fun htaken => run_bound (.registerProvider v) hfits (run_taken (fun hfree => htaken (free_iff.mp hfree)) _)
    · exact fun t ht => exec_written ht _
  | registerMap v =>
    apply refuses_unique
    · exact fun hfree => ⟨_, Statement.run_ok.mpr ⟨List.forall_mem_nil _,
        congrArg (· >>= _) (unique_ok (u := ()).mpr (map_free_iff.mpr hfree))⟩⟩
    · exact fun htaken => run_bound (.registerMap v) (List.forall_mem_nil _)
        (run_taken (fun hfree => htaken (map_free_iff.mp hfree)) _)
    · exact fun t ht => exec_written ht _
  | updateProvider name namespaceName kwargs =>
    apply exec_about
    intro r
    dsimp only
    split
    · rename_i hsets
      rw [hsets]
      exact .ok rfl
    · exact exec_change fun _ => rfl
  | enableProvider name namespaceName =>
    exact exec_about fun _ => exec_change fun _ => overflow_of_fits (List.forall_mem_nil _)
  | disableProvider name namespaceName =>
    exact exec_about fun _ => exec_change fun _ => overflow_of_fits (List.forall_mem_nil _)
  | recordHealth name namespaceName success =>
    refine exec_about fun _ => exec_change fun _ => ?_
    cases success <;> exact overflow_of_fits (List.forall_mem_nil _)

end Outcomes

section Refinement

variable {T : FloatText} {c c₀ : Connection catalog} {history : List Entry}

theorem Serves.moves (h : Serves T c₀ history c) : Moves Any c₀ c := by
  induction h with
  | start => exact .refl
  | elsewhere _ hm ih => exact ih.trans hm.any
  | call _ hs ih => exact ih.trans (.of_runs hs)
  | stop _ hs ih => exact .restart (ih.trans (.of_visits hs)) trivial

theorem Serves.unique (h₀ : Unique c₀.committed) (hclosed : c₀.transaction = none) (h : Serves T c₀ history c) :
    Unique c.pending := by
  have hpending : Unique c₀.pending := by
    rw [Connection.pending_of_none hclosed]
    exact h₀
  exact (h.moves.invariant (fun s a t t' hu hrun => hu.run hrun) h₀ hpending).2

/-- The provider and the identity service refine a registry that is kept. Whatever fails,
wherever the process stops and whatever the other services do between the calls: every
history of theirs is one of such a registry. Where nothing fails, a call raises exactly
what the registry refuses, and what is read is what the registry has: `get` the row of a
name, and `list` the rows that its filters accept, each once and in the order of their
names, with their number. -/
theorem registry_refines (h₀ : Unique c₀.committed) (hclosed : c₀.transaction = none) (h : Serves T c₀ history c) :
    Kept T (state c₀) history (state c) ∧
      (∀ call e, ((Connection.handler catalog).exec (call.program T) c).1 = .error e ↔
        refusal T (view c.pending) call = some e) ∧
      (∀ name namespaceName,
        ((Connection.handler catalog).exec (ProviderService.get T name namespaceName) c).1 =
            .ok (((view c.pending).providers (name, namespaceName)).map (ProviderService.rowToDict T)) ∧
          ((Connection.handler catalog).exec (IdentityService.get name namespaceName) c).1 =
            .ok ((view c.pending).maps (name, namespaceName))) ∧
      (∀ namespaceName providerType limit offset, Storable limit → Storable offset → ∃ rows,
        Lists providerKey (fun r => toLex (r.name, r.namespaceName)) (view c.pending).providers (fun r =>
            namespaceName.all (· = r.namespaceName) && providerType.all (· = r.providerType)) rows ∧
          ((Connection.handler catalog).exec (ProviderService.list T namespaceName providerType limit offset) c).1 =
            .ok ((page limit offset rows).map (ProviderService.rowToDict T), rows.length)) ∧
      ∀ namespaceName limit offset, Storable limit → Storable offset → ∃ rows,
        Lists mapKey (fun r => toLex (r.name, r.namespaceName)) (view c.pending).maps
            (fun r => namespaceName.all (· = r.namespaceName)) rows ∧
          ((Connection.handler catalog).exec (IdentityService.list namespaceName limit offset) c).1 =
            .ok (page limit offset rows, rows.length) := by
  have hunique := h.unique h₀ hclosed
  refine ⟨serves_kept h, ?_, ?_, ?_, ?_⟩
  · intro call e
    obtain ⟨hrefused, haccepted⟩ := exec_outcome (T := T) (c := c) call
    constructor
    · intro herror
      cases hrefusal : refusal T (view c.pending) call with
      | some e' =>
        rw [hrefused e' hrefusal] at herror
        exact congrArg some (Except.error.inj herror)
      | none =>
        have hok := haccepted hrefusal
        rw [herror] at hok
        cases hok
    · exact hrefused e
  · intro name namespaceName
    refine ⟨congrArg Prod.fst (exec_get name namespaceName), ?_⟩
    rw [← mapGet_eq c.pending name namespaceName]
    rfl
  · intro namespaceName providerType limit offset hlimit hoffset
    refine ⟨_, hunique.providers.lists _ _, ?_⟩
    rw [List.length_insertionSort, ProviderService.list, bindIntegers_pair hlimit hoffset]
    rfl
  · intro namespaceName limit offset hlimit hoffset
    refine ⟨_, hunique.maps.lists _ _, ?_⟩
    rw [List.length_insertionSort, IdentityService.list, bindIntegers_pair hlimit hoffset]
    rfl

/-- However often registrations are tried, fail half-way or are stopped: of all those under
one name at most one returns, none returns for a name that was taken from the beginning,
and the name of one that has returned stays taken, restarts included. -/
theorem registered_once (hclosed : c₀.transaction = none) (h : Serves T c₀ history c) :
    (registrations history).Nodup ∧
      ∀ k ∈ registrations history, ¬ Taken k (view c₀.committed) ∧ Taken k (view c.committed) ∧
        Taken k (view c.pending) := by
  obtain ⟨hnodup, hfresh, htaken⟩ := (serves_kept h).once
  refine ⟨hnodup, ?_⟩
  intro k hk
  refine ⟨?_, htaken k (.inr hk)⟩
  intro htaken₀
  apply hfresh k hk
  refine ⟨htaken₀, ?_⟩
  change Taken k (view c₀.pending)
  rw [Connection.pending_of_none hclosed]
  exact htaken₀

end Refinement

section Sample

def sampleCall : Call := .registerProvider sampleProvider

def sampleOutcome : Except DbError sampleCall.Result × Connection catalog :=
  (Connection.handler catalog).exec (sampleCall.program samplePackages.floatText) (sampleConnection .empty)

theorem sample_serves : Serves samplePackages.floatText (sampleConnection .empty)
    [(sampleCall, some (sampleOutcome.1.map (rowOf sampleCall)))] sampleOutcome.2.reopen :=
  .elsewhere (.call .start (.of_exec (fun _ => rfl) rfl)) (.restart .refl trivial)

theorem sampleConnection_unique : Unique (sampleConnection .empty).committed := ⟨List.nodup_nil, List.nodup_nil⟩

theorem registry_refines_sample :
    ((Connection.handler catalog).exec (sampleCall.program samplePackages.floatText) sampleOutcome.2.reopen).1 =
      .error (.integrityError "UNIQUE constraint failed: providers.name, providers.namespace") :=
  ((registry_refines sampleConnection_unique rfl sample_serves).2.1 sampleCall _).mpr rfl

theorem registered_once_sample :
    (registrations [(sampleCall, some (sampleOutcome.1.map (rowOf sampleCall)))]).Nodup ∧
      Taken (false, "prices", "default") (view sampleOutcome.2.reopen.pending) :=
  have h := registered_once rfl sample_serves
  ⟨h.1, (h.2 (false, "prices", "default") (List.mem_singleton_self _)).2.2⟩

end Sample

end ContextqlServer.Db.Registries
