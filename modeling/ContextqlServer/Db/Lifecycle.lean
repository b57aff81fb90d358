import ContextqlServer.Db.CatalogViews

namespace ContextqlServer.Db.Lifecycle

open ContextqlServer.Lib.Effect ContextqlServer.Lib.JsonText ContextqlServer.Lib.Python
open ContextqlServer.Lib.Sql
open ContextqlServer.Db.Schema ContextqlServer.Db.Statements ContextqlServer.Db.Services
open ContextqlServer.Db.RestCatalog ContextqlServer.Db.RestCatalog.CatalogService

section Names

/-- The name and the namespace that a qualified name stands for. -/
def resolve (q : String) : String × String :=
  if '.' ∈ q.toList then
    (.ofList (q.toList.dropWhile (· ≠ '.')).tail, .ofList (q.toList.takeWhile (· ≠ '.')))
  else (q, "default")

theorem identifier_noDot {s : String} (h : identifier s = true) : '.' ∉ s.toList := by
  rw [identifier] at h
  cases hs : s.toList with
  | nil => exact List.not_mem_nil
  | cons c cs =>
    rw [hs, Bool.and_eq_true, List.all_eq_true] at h
    rw [List.mem_cons, not_or]
    constructor
    · rintro rfl
      exact absurd h.1 (by decide)
    · intro hmem
      refine absurd (h.2 '.' ?_) (by decide)
      rw [beforeNewline]
      split
      · rename_i hlast
        have hsplit := List.dropLast_append_getLast? '\n' hlast
        rw [← hsplit, List.mem_append, List.mem_singleton] at hmem
        exact hmem.resolve_right (by decide)
      · exact hmem

theorem qualified_ok {name namespaceName q : String} (h : qualified name namespaceName = .ok q) :
    identifier name = true ∧ identifier namespaceName = true ∧
      q = if namespaceName = "default" then name else s!"{namespaceName}.{name}" := by
  rw [qualified] at h
  split at h
  · cases h
  · rename_i hidentifier
    obtain rfl := Except.ok.inj h
    simpa using hidentifier

theorem resolve_qualified {name namespaceName q : String} (h : qualified name namespaceName = .ok q) :
    resolve q = (name, namespaceName) := by
  obtain ⟨hname, hnamespace, rfl⟩ := qualified_ok h
  rw [resolve]
  split
  · rename_i hdefault
    rw [if_neg (identifier_noDot hname), hdefault]
  · have htext : (s!"{namespaceName}.{name}").toList = namespaceName.toList ++ '.' :: name.toList := by
      simp [toString]
    rw [htext, if_pos (by simp)]
    have hbefore : ∀ c ∈ namespaceName.toList, decide (c ≠ '.') = true := by
      intro c hc
      rw [decide_eq_true_eq]
      rintro rfl
      exact identifier_noDot hnamespace hc
    rw [List.dropWhile_append_of_pos hbefore, List.takeWhile_append_of_pos hbefore]
    simp

end Names

/-- What a reader sees of the latest version of a context. -/
structure View where
  version : Int
  definition : String × Option String
  description : Option String
  tags : Option String
  score : Int × Option String × Option String
  lifecycleState : String
  deriving DecidableEq

def viewOf (r : ContextRow) : View where
  version := r.version
  definition := (r.definitionText, r.definitionSql)
  description := r.description
  tags := r.tags
  score := (r.hasScore, r.scoreColumn, r.scoreExpression)
  lifecycleState := r.lifecycleState

def view (name namespaceName : String) (c : Connection catalog) : Option View :=
  (latestNamed c.pending name namespaceName).map viewOf

/-- The context that a statement is about. -/
def target : Ddl → String
  | .createContext q _ _ _ _ _ | .setDefinition q _ | .setDescription q _ | .setTags q _ | .setScore q _
  | .dropScore q | .setState q _ | .validateContext q | .dropContext q | .refreshContext q => q

inductive IsAlteration : Ddl → Prop
  | setDefinition (q definitionText : String) : IsAlteration (.setDefinition q definitionText)
  | setDescription (q description : String) : IsAlteration (.setDescription q description)
  | setTags (q : String) (tags : List String) : IsAlteration (.setTags q tags)
  | setScore (q scoreColumn : String) : IsAlteration (.setScore q scoreColumn)
  | dropScore (q : String) : IsAlteration (.dropScore q)

/-- What is relied on of the engine: a statement goes through whole or is rejected, and is
about one context; an `ALTER` of a property makes a new version in the same state, and
`SET STATE` keeps the definition. -/
structure Lawful (E : Engine) (name namespaceName : String) : Prop where
  rejects : ∀ {ddl c e c'}, E.execute ddl c = (.error e, c') → view name namespaceName c' = view name namespaceName c
  elsewhere : ∀ {ddl c r c'}, resolve (target ddl) ≠ (name, namespaceName) → E.execute ddl c = (r, c') →
    view name namespaceName c' = view name namespaceName c
  alters : ∀ {ddl c c' v}, resolve (target ddl) = (name, namespaceName) → IsAlteration ddl →
    E.execute ddl c = (.ok (), c') → view name namespaceName c = some v →
    ∃ v', view name namespaceName c' = some v' ∧ v.version < v'.version ∧ v'.lifecycleState = v.lifecycleState
  setsState : ∀ {q state c c' v}, resolve q = (name, namespaceName) → E.execute (.setState q state) c = (.ok (), c') →
    view name namespaceName c = some v →
    ∃ v', view name namespaceName c' = some v' ∧ v'.lifecycleState = state ∧ v'.definition = v.definition
  validates : ∀ {q c c'}, E.execute (.validateContext q) c = (.ok (), c') →
    view name namespaceName c' = view name namespaceName c
  drops : ∀ {q c c'}, resolve q = (name, namespaceName) → E.execute (.dropContext q) c = (.ok (), c') →
    view name namespaceName c' = none
  absent : ∀ {ddl c r c'}, (∀ q entityKey scoreColumn description tags definitionText,
      ddl ≠ .createContext q entityKey scoreColumn description tags definitionText) →
    E.execute ddl c = (r, c') → view name namespaceName c = none → view name namespaceName c' = none

/-- A reader sees the rows of the contexts alone. -/
theorem latestNamed_contexts {t t' : Tables} {name namespaceName : String} (h : t'.contexts = t.contexts) :
    latestNamed t' name namespaceName = latestNamed t name namespaceName := by
  unfold latestNamed
  rw [h]

theorem view_contexts {c c' : Connection catalog} {name namespaceName : String}
    (h : c'.pending.contexts = c.pending.contexts) : view name namespaceName c' = view name namespaceName c := by
  rw [view, view, latestNamed_contexts h]

theorem contexts_log {T : FloatText} {E : Engine} {c : Connection catalog} (e : AuditService.Event) :
    ((handler T E).perform (.log e) c).2.pending.contexts = c.pending.contexts := by
  obtain ⟨eventType, resourceType, resourceName, detail, actor, namespaceName, traceId⟩ := e
  cases traceId <;> rfl

theorem view_log {T : FloatText} {E : Engine} {c : Connection catalog} {name namespaceName : String}
    (e : AuditService.Event) :
    view name namespaceName ((handler T E).perform (.log e) c).2 = view name namespaceName c :=
  view_contexts (contexts_log e)

section Sends

variable {T : FloatText} {self : CatalogService} {D : Ddl → Prop} {name namespaceName q : String} {u : ContextUpdate}

def statements (q : String) (u : ContextUpdate) : List Ddl := alterations q u ++ [.setState q "draft"]

theorem alteration_of_mem {ddl : Ddl} (h : ddl ∈ alterations q u) : IsAlteration ddl ∧ target ddl = q := by
  obtain ⟨definitionText, entityKey, hasScore, scoreColumn, description, tags, classification⟩ := u
  simp only [alterations, List.mem_append] at h
  obtain ((h | h) | h) | h := h
  · cases definitionText with
    | none => cases h
    | some d => rw [List.mem_singleton.mp h]; exact ⟨.setDefinition .., rfl⟩
  · cases description with
    | none => cases h
    | some d => rw [List.mem_singleton.mp h]; exact ⟨.setDescription .., rfl⟩
  · cases tags with
    | none => cases h
    | some d => rw [List.mem_singleton.mp h]; exact ⟨.setTags .., rfl⟩
  · cases scoreColumn with
    | none => cases h
    | some s =>
      rw [List.mem_singleton.mp h]
      cases truthy s with
      | none => exact ⟨.dropScore .., rfl⟩
      | some column => exact ⟨.setScore .., rfl⟩

theorem target_of_mem {ddl : Ddl} (h : ddl ∈ statements q u) : target ddl = q := by
  obtain h | h := List.mem_append.mp h
  · exact (alteration_of_mem h).2
  · rw [List.mem_singleton.mp h]
    rfl

/-- A program sends statements in `D` alone. -/
abbrev Sends {α : Type} (D : Ddl → Prop) (p : ServiceProg α) : Prop :=
  p.Only fun o => ∀ ddl, o = ServiceOp.execute ddl → D ddl

theorem sends_read : Sends D RestCatalog.read := .perform nofun

theorem sends_get : Sends D (CatalogService.get T name namespaceName) := sends_read.bind fun _ => trivial

theorem sends_list {f : Filters} {limit offset : Int} : Sends D (CatalogService.list T f limit offset) := by
  apply sends_read.bind
  intro t
  have hbind : Sends D (bindPage limit offset) := by
    rw [bindPage]
    split <;> trivial
  exact hbind.bind fun _ => sends_read.bind fun _ => trivial

theorem sends_current : Sends D (CatalogService.current T name namespaceName) := by
  apply sends_get.bind
  intro x
  cases x <;> trivial

theorem sends_requireEngine (purpose : String) : Sends D (self.requireEngine purpose) := by
  rw [CatalogService.requireEngine]
  split <;> trivial

theorem sends_auditLog (eventType resourceName namespaceName : String) (detail : Option Json) :
    Sends D (self.auditLog eventType resourceName namespaceName detail) := by
  rw [CatalogService.auditLog]
  split
  · exact .perform nofun
  · trivial

theorem sends_execute {ddl : Ddl} (h : D ddl) : Sends D (RestCatalog.execute ddl) := by
  apply Prog.Only.perform
  rintro _ ⟨⟩
  exact h

theorem sends_executeAll {ddls : List Ddl} (h : ∀ ddl ∈ ddls, D ddl) : Sends D (CatalogService.executeAll ddls) := by
  induction ddls with
  | nil => trivial
  | cons ddl ddls ih =>
    apply (sends_execute (h ddl List.mem_cons_self)).bind
    exact fun _ => ih fun d hd => h d (List.mem_cons_of_mem _ hd)

/-- The end of a call: the audit record, and the context as it is now. -/
theorem sends_report (eventType : String) (detail : Option Json) :
    Sends D (self.auditLog eventType name namespaceName detail >>= fun _ => CatalogService.get T name namespaceName) :=
  (sends_auditLog ..).bind fun _ => sends_get

theorem sends_transition {eventType : String} {ddls : String → List Ddl} (h : ∀ q, ∀ ddl ∈ ddls q, D ddl) :
    Sends D (self.transition T name namespaceName eventType ddls) := by
  rw [CatalogService.transition]
  apply sends_current.bind
  intro context
  dsimp only
  split
  · apply Prog.Only.ofExcept.bind
    intro q
    exact (sends_executeAll (h q)).bind fun _ => sends_report ..
  · exact sends_report ..

theorem sends_create {body : ContextCreate}
    (hcreate : ∀ q entityKey scoreColumn description tags definitionText,
      D (.createContext q entityKey scoreColumn description tags definitionText))
    (hstate : ∀ q, D (.setState q "draft")) : Sends D (self.create T body) := by
  apply (sends_requireEngine _).bind
  intro _
  apply Prog.Only.ofExcept.bind
  intro q
  apply Prog.Only.ofExcept_bind
  intro ddl hddl
  obtain ⟨rfl, -⟩ := createStatement_ok hddl
  apply (sends_execute (hcreate ..)).bind
  intro _
  exact (sends_execute (hstate q)).bind fun _ => sends_report ..

theorem sends_update (h : ∀ q, qualified name namespaceName = .ok q → ∀ ddl ∈ statements q u, D ddl) :
    Sends D (self.update T name namespaceName u) := by
  rw [CatalogService.update]
  apply sends_current.bind
  intro _
  apply (sends_requireEngine _).bind
  intro _
  apply Prog.Only.ofExcept_bind
  intro q hq
  dsimp only
  split
  · trivial
  · apply (sends_executeAll fun ddl hddl => h q hq ddl (List.mem_append_left _ hddl)).bind
    intro _
    apply (sends_execute (h q hq _ (List.mem_append_right _ (List.mem_singleton_self _)))).bind
    intro _
    exact sends_get.bind fun _ => sends_report ..

end Sends

end ContextqlServer.Db.Lifecycle
