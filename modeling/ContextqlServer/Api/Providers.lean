import ContextqlServer.Db.Services

namespace ContextqlServer.Api.Providers

open ContextqlServer.Lib.Effect ContextqlServer.Lib.JsonText ContextqlServer.Lib.Python
open ContextqlServer.Lib.Sql
open ContextqlServer.Db.Schema ContextqlServer.Db.Statements ContextqlServer.Db.Services

section Models

inductive ProviderType where
  | mcp
  | remote
  deriving DecidableEq

def ProviderType.text : ProviderType → String
  | .mcp => "MCP"
  | .remote => "REMOTE"

/-- The body of a `POST`, with its defaults filled in. -/
structure ProviderCreate where
  name : String
  providerType : ProviderType
  namespaceName : String
  endpoint : Option String
  timeoutMs : Int
  entityKeyType : Option String
  trustTier : String
  deriving DecidableEq

/-- The body of a `PUT`. A field that is not set is `none`, one that is set to null `some none`. -/
structure ProviderUpdate where
  endpoint : Option (Option String)
  timeoutMs : Option (Option Int)
  entityKeyType : Option (Option String)
  trustTier : Option (Option String)
  deriving DecidableEq

structure ProviderResponse where
  id : Nat
  name : String
  namespaceName : String
  providerType : String
  endpoint : Option String
  credentialsRef : Option String
  timeoutMs : Int
  healthState : String
  entityKeyType : Option String
  resourceShape : Option String
  trustTier : String
  enabled : Bool
  registeredAt : String
  updatedAt : String
  lastSuccessAt : Option String
  lastFailureAt : Option String

structure ProviderListResponse where
  providers : List ProviderResponse
  total : Nat

def textOrNull : Option Parsed → Option (Option String)
  | none | some (.json .null) => some none
  | some (.text s) | some (.json (.str s)) => some (some s)
  | some (.json _) => none

/-- The response of a dictionary that satisfies the model. -/
def ProviderResponse.validate (d : ProviderService.Provider) : Option ProviderResponse := do
  let timeoutMs ← d.row.timeoutMs
  let healthState ← d.row.healthState
  let resourceShape ← textOrNull d.resourceShape
  let trustTier ← d.row.trustTier
  pure { d.row with timeoutMs, healthState, resourceShape, trustTier, enabled := d.enabled }

end Models

/-- `str(exc)` -/
def exceptionText : DbError → String
  | .integrityError m | .operationalError m | .valueError m | .typeError m | .overflowError m | .external m => m
  | .keyError key => quoted key

/-- What a request function ends with, where it raises nothing else. -/
inductive Reply (α : Type) where
  | returned (a : α)
  | httpException (statusCode : Nat) (detail : String)

section Requests

variable (T : FloatText) (service : ProviderService)

def ProviderCreate.modelDump (body : ProviderCreate) : ProviderValues where
  name := body.name
  namespaceName := body.namespaceName
  providerType := body.providerType.text
  endpoint := body.endpoint
  timeoutMs := body.timeoutMs
  entityKeyType := body.entityKeyType
  trustTier := body.trustTier

def ProviderUpdate.modelDump (body : ProviderUpdate) : ProviderService.Arguments where
  endpoint := body.endpoint
  timeoutMs := body.timeoutMs
  entityKeyType := body.entityKeyType
  trustTier := body.trustTier
  credentialsRef := none
  resourceShape := none

def notFound (name : String) : String := s!"Provider '{name}' not found"

def registerProvider (body : ProviderCreate) : DbProg (Reply (Option ProviderService.Provider)) :=
  tryCatch (do
    let p ← service.register T body.modelDump
    pure (.returned p))
  fun exc => pure (.httpException 400 (exceptionText exc))

/-- A request about a provider that has to be there. -/
def existing (name namespaceName : String) (k : DbProg (Reply (Option ProviderService.Provider))) :
    DbProg (Reply (Option ProviderService.Provider)) := do
  match ← ProviderService.get T name namespaceName with
  | none => pure (.httpException 404 (notFound name))
  | some _ => k

def updateProvider (name : String) (body : ProviderUpdate) (namespaceName : String) :
    DbProg (Reply (Option ProviderService.Provider)) :=
  existing T name namespaceName (tryCatch (do
    let p ← service.update T name namespaceName body.modelDump
    pure (.returned p))
  fun exc =>
    match exc with
    | .valueError m => pure (.httpException 400 m)
    | exc => throw exc)

def enableProvider (name namespaceName : String) : DbProg (Reply (Option ProviderService.Provider)) :=
  existing T name namespaceName (do
    let p ← service.enable T name namespaceName
    pure (.returned p))

def disableProvider (name namespaceName : String) : DbProg (Reply (Option ProviderService.Provider)) :=
  existing T name namespaceName (do
    let p ← service.disable T name namespaceName
    pure (.returned p))

/-- Both `GET /providers/{name}` and its health read the row. -/
def describeProvider (name namespaceName : String) : DbProg (Reply ProviderService.Provider) := do
  match ← ProviderService.get T name namespaceName with
  | none => pure (.httpException 404 (notFound name))
  | some p => pure (.returned p)

/-- The response is built in the request function: a provider that does not satisfy its
model makes it raise. -/
def listProviders (namespaceName providerType : Option String) (limit offset : Int) :
    DbProg ProviderListResponse := do
  let (providers, total) ← ProviderService.list T namespaceName providerType limit offset
  match providers.mapM ProviderResponse.validate with
  | some providers => pure ⟨providers, total⟩
  | none => throw (.valueError "validation error for ProviderListResponse")

end Requests

/-- A request of the provider API, or a call of `record_health`. -/
inductive Request where
  | register (body : ProviderCreate)
  | update (name : String) (body : ProviderUpdate) (namespaceName : String)
  | enable (name namespaceName : String)
  | disable (name namespaceName : String)
  | recordHealth (name namespaceName : String) (success : Bool)

def Request.program (T : FloatText) (service : ProviderService) :
    Request → DbProg (Reply (Option ProviderService.Provider))
  | .register body => registerProvider T service body
  | .update name body namespaceName => updateProvider T service name body namespaceName
  | .enable name namespaceName => enableProvider T service name namespaceName
  | .disable name namespaceName => disableProvider T service name namespaceName
  | .recordHealth name namespaceName success => do
    let p ← service.recordHealth T name namespaceName success
    pure (.returned p)

end ContextqlServer.Api.Providers
