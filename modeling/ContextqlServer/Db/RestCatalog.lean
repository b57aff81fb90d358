import ContextqlServer.Db.Services

namespace ContextqlServer.Db.RestCatalog

open ContextqlServer.Lib.Effect ContextqlServer.Lib.JsonText ContextqlServer.Lib.Python
open ContextqlServer.Lib.Sql
open ContextqlServer.Db.Schema ContextqlServer.Db.Statements ContextqlServer.Db.Services

inductive ServiceError where
  | valueError (message : String)
  | runtimeError (message : String)
  | attributeError (message : String)
  | overflowError (message : String)
  | http (statusCode : Nat) (detail : String)
  | engine (message : String)
  deriving DecidableEq

section Texts

def isIdentifierStart (c : Char) : Bool := ('A' ≤ c && c ≤ 'Z') || ('a' ≤ c && c ≤ 'z') || c = '_'

def isIdentifierPart (c : Char) : Bool := isIdentifierStart c || ('0' ≤ c && c ≤ '9')

/-- `$` also matches before a newline that ends the string. -/
def beforeNewline (cs : List Char) : List Char :=
  if cs.getLast? = some '\n' then cs.dropLast else cs

/-- `identifier.match(s)` -/
def identifier (s : String) : Bool :=
  match s.toList with
  | [] => false
  | c :: cs => isIdentifierStart c && (beforeNewline cs).all isIdentifierPart

def qualified (name namespaceName : String) : Except ServiceError String :=
  if !identifier name || !identifier namespaceName then
    .error (.valueError "Context name and namespace must be identifiers")
  else .ok (if namespaceName = "default" then name else s!"{namespaceName}.{name}")

def literal (value : String) : String :=
  "'" ++ .ofList (value.toList.flatMap (fun c => if c = '\'' then ['\'', '\''] else [c])) ++ "'"

/-- `text.rstrip(';')` -/
def rstripSemicolons (text : String) : String := .ofList (text.toList.rdropWhile (· = ';'))

def literals (values : List String) : String := ", ".intercalate (values.map literal)

end Texts

/-- A statement of ContextQL that the service sends to its engine. -/
inductive Ddl where
  | createContext (qualified entityKey : String) (scoreColumn description : Option String)
      (tags : List String) (definitionText : String)
  | setDefinition (qualified definitionText : String)
  | setDescription (qualified description : String)
  | setTags (qualified : String) (tags : List String)
  | setScore (qualified scoreColumn : String)
  | dropScore (qualified : String)
  | setState (qualified state : String)
  | validateContext (qualified : String)
  | dropContext (qualified : String)
  | refreshContext (qualified : String)
  deriving DecidableEq

/-- What the service writes for a statement. -/
def Ddl.text : Ddl → String
  | .createContext q entityKey scoreColumn description tags definitionText =>
    let scoreClause := scoreColumn.elim "" (fun c => s!"\nSCORE {c}")
    let descriptionClause := description.elim "" (fun d => s!"\nDESCRIPTION {literal d}")
    let tagsClause := if tags = [] then "" else s!"\nTAGS ({literals tags})"
    s!"CREATE CONTEXT {q} ON {entityKey}{scoreClause}{descriptionClause}{tagsClause}\nAS {rstripSemicolons definitionText};"
  | .setDefinition q definitionText =>
    s!"ALTER CONTEXT {q} SET DEFINITION AS {rstripSemicolons definitionText};"
  | .setDescription q description => s!"ALTER CONTEXT {q} SET DESCRIPTION {literal description};"
  | .setTags q tags => s!"ALTER CONTEXT {q} SET TAGS ({literals tags});"
  | .setScore q scoreColumn => s!"ALTER CONTEXT {q} SET SCORE {scoreColumn};"
  | .dropScore q => s!"ALTER CONTEXT {q} DROP SCORE;"
  | .setState q state => s!"ALTER CONTEXT {q} SET STATE '{state}';"
  | .validateContext q => s!"VALIDATE CONTEXT {q};"
  | .dropContext q => s!"DROP CONTEXT {q};"
  | .refreshContext q => s!"REFRESH CONTEXT {q};"

section Queries

variable (T : FloatText) (t : Tables)

/-- A row as `_row_to_dict` returns it. -/
structure Context where
  row : ContextRow
  hasScore : Bool
  tags : Option Parsed
  dependencyRefs : Option Parsed
  providerRefs : Option Parsed
  freshnessMetadata : Option Parsed

def rowToDict (r : ContextRow) : Context where
  row := r
  hasScore := r.hasScore ≠ 0
  tags := r.tags.map (parsed T)
  dependencyRefs := r.dependencyRefs.map (parsed T)
  providerRefs := r.providerRefs.map (parsed T)
  freshnessMetadata := r.freshnessMetadata.map (parsed T)

/-- The row that `get` reads: the highest version of a name that is not dropped. -/
def latestNamed (name namespaceName : String) : Option ContextRow :=
  (orderBy (fun r => OrderDual.toDual r.version)
    (t.contexts.rows.filter (fun r => named name namespaceName r && r.droppedAt.isNone))).head?

/-- The filters of `list`, each where it is given. -/
structure Filters where
  namespaceName : Option String
  lifecycleState : Option String

def Filters.accepts (f : Filters) (r : ContextRow) : Bool :=
  r.droppedAt.isNone && f.namespaceName.all (· = r.namespaceName) &&
    f.lifecycleState.all (· = r.lifecycleState)

/-- `MAX(version)` of a name among the rows that a filter accepts. -/
def maxVersion (f : Filters) (name namespaceName : String) : Option Int :=
  ((t.contexts.rows.filter (fun r => f.accepts r && named name namespaceName r)).map
    (fun r => r.version)).max?

/-- The rows joined to the highest version of their name. The filter picks that
version and not the rows. -/
def joined (f : Filters) : List ContextRow :=
  t.contexts.rows.filter (fun r => maxVersion t f r.name r.namespaceName = some r.version)

end Queries

inductive ServiceOp where
  /-- A query of the connection. -/
  | read
  | execute (ddl : Ddl)
  | log (e : AuditService.Event)

abbrev serviceSig : Sig where
  Op := ServiceOp
  Res
    | .read => Tables
    | .execute _ | .log _ => Unit

abbrev ServiceProg := Prog serviceSig ServiceError

def read : ServiceProg Tables := Prog.perform (S := serviceSig) .read

/-- The parameters of `LIMIT ? OFFSET ?` are bound. -/
def bindPage (limit offset : Int) : ServiceProg Unit := do
  if ¬ (Storable limit ∧ Storable offset) then throw (.overflowError tooLarge)

theorem bindPage_ok {limit offset : Int} (hlimit : Storable limit) (hoffset : Storable offset) :
    bindPage limit offset = pure () := if_neg (not_not_intro ⟨hlimit, hoffset⟩)

def execute (ddl : Ddl) : ServiceProg Unit := Prog.perform (S := serviceSig) (.execute ddl)

def log (e : AuditService.Event) : ServiceProg Unit := Prog.perform (S := serviceSig) (.log e)

/-- The engine of the `contextql` package, on the connection that it shares. It raises
what it raises. -/
structure Engine where
  execute : Ddl → Connection catalog → Except ServiceError Unit × Connection catalog

/-- The engine may reject any statement before it does anything. -/
def handler (T : FloatText) (E : Engine) : Handler serviceSig ServiceError (Connection catalog) where
  perform
    | .read, c => (.ok c.pending, c.advance)
    | .execute ddl, c => E.execute ddl c
    | .log e, c => (.ok (), ((Connection.handler catalog).exec (AuditService.log T e) c).2)
  fault
    | .execute _ => some id
    | .read | .log _ => none

structure CatalogService where
  engine : Bool
  audit : Bool

namespace CatalogService

variable (T : FloatText) (self : CatalogService)

def auditLog (eventType resourceName namespaceName : String) (detail : Option Json) :
    ServiceProg Unit := do
  if self.audit then
    log ⟨eventType, some "context", some resourceName, detail, "system", namespaceName, none⟩

def requireEngine (purpose : String) : ServiceProg Unit := do
  if !self.engine then throw (.runtimeError s!"Engine is required for context {purpose}")

def get (name namespaceName : String) : ServiceProg (Option Context) := do
  let t ← read
  pure ((latestNamed t name namespaceName).map (rowToDict T))

def list (f : Filters) (limit offset : Int) : ServiceProg (List Context × Nat) := do
  let t ← read
  let total := (joined t f).length
  bindPage limit offset
  let t ← read
  let rows := page limit offset (orderByName (fun r => r.name) (fun r => r.namespaceName) (joined t f))
  pure (rows.map (rowToDict T), total)

def current (name namespaceName : String) : ServiceProg Context := do
  match ← get T name namespaceName with
  | some context => pure context
  | none =>
    throw (.valueError s!"Context '{name}' not found in namespace '{namespaceName}'")

/-- The arguments of `create`; `classification` is not used. -/
structure ContextCreate where
  name : String
  definitionText : String
  entityKey : String
  namespaceName : String
  hasScore : Bool
  scoreColumn : Option String
  description : Option String
  tags : Option (List String)
  classification : String

/-- A text that is there and not empty. -/
def truthy (value : Option String) : Option String := value.filter (· ≠ "")

def createStatement (q : String) (body : ContextCreate) : Except ServiceError Ddl := do
  let scoreColumn ← if body.hasScore then
      match truthy body.scoreColumn with
      | some c => pure (some c)
      | none => throw (.valueError "score_column is required when has_score is true")
    else pure none
  pure (.createContext q body.entityKey scoreColumn (truthy body.description) (body.tags.getD [])
    body.definitionText)

/-- What a `create` sends. -/
theorem createStatement_ok {q : String} {body : ContextCreate} {ddl : Ddl} (h : createStatement q body = .ok ddl) :
    ddl = .createContext q body.entityKey (if body.hasScore then truthy body.scoreColumn else none)
        (truthy body.description) (body.tags.getD []) body.definitionText ∧
      (body.hasScore = true → (truthy body.scoreColumn).isSome = true) := by
  rw [createStatement] at h
  split at h
  · rename_i hscore
    rw [if_pos hscore]
    cases hcolumn : truthy body.scoreColumn with
    | none =>
      rw [hcolumn] at h
      cases h
    | some column =>
      rw [hcolumn] at h
      exact ⟨(Except.ok.inj h).symm, fun _ => rfl⟩
  · rename_i hscore
    rw [if_neg hscore]
    exact ⟨(Except.ok.inj h).symm, fun hhas => absurd hhas hscore⟩

def create (body : ContextCreate) : ServiceProg (Option Context) := do
  self.requireEngine "creation"
  let q ← Prog.ofExcept (qualified body.name body.namespaceName)
  let ddl ← Prog.ofExcept (createStatement q body)
  execute ddl
  execute (.setState q "draft")
  self.auditLog "context.created" body.name body.namespaceName (some (.obj [("version", .int 1)]))
  get T body.name body.namespaceName

/-- The keyword arguments of `update`, those that are present. It does not use
`entity_key`, `has_score` and `classification`. -/
structure ContextUpdate where
  definitionText : Option (Option String)
  entityKey : Option (Option String)
  hasScore : Option (Option Bool)
  scoreColumn : Option (Option String)
  description : Option (Option String)
  tags : Option (Option (List String))
  classification : Option (Option String)

/-- The statements of an update before the one that sets the state. -/
def alterations (q : String) (u : ContextUpdate) : List Ddl :=
  (u.definitionText.elim [] (fun d => [.setDefinition q (d.getD "")])) ++
    (u.description.elim [] (fun d => [.setDescription q (d.getD "")])) ++
    (u.tags.elim [] (fun tags => [.setTags q (tags.getD [])])) ++
    (u.scoreColumn.elim [] (fun s => [(truthy s).elim (.dropScore q) (.setScore q)]))

def executeAll : List Ddl → ServiceProg Unit
  | [] => pure ()
  | ddl :: ddls => do
    execute ddl
    executeAll ddls

def update (name namespaceName : String) (u : ContextUpdate) : ServiceProg (Option Context) := do
  let _ ← current T name namespaceName
  self.requireEngine "updates"
  let q ← Prog.ofExcept (qualified name namespaceName)
  -- `None.rstrip` is the one failure of the texts, and it comes before any statement.
  if u.definitionText = some none then
    throw (.attributeError "'NoneType' object has no attribute 'rstrip'")
  executeAll (alterations q u)
  execute (.setState q "draft")
  let updated ← get T name namespaceName
  let version : Json := updated.elim .null (fun context => .int context.row.version)
  self.auditLog "context.updated" name namespaceName (some (.obj [("version", version)]))
  get T name namespaceName

def delete (name namespaceName : String) : ServiceProg Bool := do
  match ← get T name namespaceName with
  | none => pure false
  | some context =>
    if context.row.lifecycleState ≠ "draft" then
      throw (.valueError s!"Cannot delete context in '{context.row.lifecycleState}' state; only 'draft' contexts may be deleted")
    self.requireEngine "deletion"
    let q ← Prog.ofExcept (qualified name namespaceName)
    execute (.dropContext q)
    self.auditLog "context.deleted" name namespaceName none
    pure true

/-- A call that takes a context to another state, through the statements that it
sends where there is an engine. -/
def transition (name namespaceName eventType : String) (statements : String → List Ddl) :
    ServiceProg (Option Context) := do
  let context ← current T name namespaceName
  if self.engine then
    let q ← Prog.ofExcept (qualified name namespaceName)
    executeAll (statements q)
  self.auditLog eventType name namespaceName
    (some (.obj [("version", .int context.row.version)]))
  get T name namespaceName

def validate (name namespaceName : String) : ServiceProg (Option Context) :=
  self.transition T name namespaceName "context.validated"
    (fun q => [.validateContext q, .setState q "validated"])

def activate (name namespaceName : String) : ServiceProg (Option Context) :=
  self.transition T name namespaceName "context.activated" (fun q => [.setState q "active"])

def retire (name namespaceName : String) : ServiceProg (Option Context) :=
  self.transition T name namespaceName "context.retired" (fun q => [.setState q "retired"])

end CatalogService

/-- A context that a route has to find. -/
def existing (T : FloatText) (name namespaceName : String) : ServiceProg Context := do
  match ← CatalogService.get T name namespaceName with
  | some context => pure context
  | none => throw (.http 404 s!"Context '{name}' not found")

/-- The route checks the state, and the service checks it again. -/
def deleteContext (T : FloatText) (self : CatalogService) (name namespaceName : String) :
    ServiceProg Unit := do
  let context ← existing T name namespaceName
  if context.row.lifecycleState ≠ "draft" then
    throw (.http 400 s!"Cannot delete context in '{context.row.lifecycleState}' state; only draft contexts can be deleted")
  let _ ← self.delete T name namespaceName

end ContextqlServer.Db.RestCatalog
