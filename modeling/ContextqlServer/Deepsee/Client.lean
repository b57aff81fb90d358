import ContextqlServer.Deepsee.MockService

namespace ContextqlServer.Deepsee.Client

open ContextqlServer.Lib.Mapping ContextqlServer.Lib.Python ContextqlServer.Deepsee.Models
open ContextqlServer.Deepsee.MockService

def parseIso : WireTime → Except Exn Timestamp
  | .iso t => .ok t
  | .other _ message => .error (.valueError message)

/-- The validating client, with the credential resolved for the request. What its clock shows
when a response comes is an argument `now` of the fetch. Retries are left to the surroundings: a
failure that outlasts them is a fault of the operation. -/
structure DeepSeeClient where
  bitMap64 : BitMap64
  token : Option String
  maxPayloadBytes : Nat
  maxDataAge : Option Int

namespace DeepSeeClient

variable (c : DeepSeeClient)

/-- Times and ages are shown in microseconds in the message. -/
def validateFreshness (now : Timestamp) (dataAsOf : WireTime) : Except Exn Unit :=
  match c.maxDataAge with
  | none => .ok ()
  | some bound => do
    let asOf ← parseIso dataAsOf
    let age := now - asOf
    if age > bound then
      .error (.deepSee ⟨.staleData, ⟨"STALE_DATA", "data_as_of " ++ toString asOf ++ " is " ++
        toString age ++ " old, exceeding the configured staleness bound of " ++ toString bound ++ ".",
        false, none⟩⟩)
    else .ok ()

def validateKeyType (entityKeyType : String) : Except Exn Unit :=
  if entityKeyType ≠ supportedEntityKeyType then
    .error (contractError ("Unsupported entity key type " ++ quoted entityKeyType ++ "; only " ++
      quoted supportedEntityKeyType ++ " keys are supported (plan design decision 11)."))
  else .ok ()

def validateBitmapPayload (payload : List UInt8) (encoding : Option String) : Except Exn Unit :=
  if payload.length > c.maxPayloadBytes then
    .error (contractError ("Membership bitmap payload of " ++ toString payload.length ++
      " bytes exceeds the " ++ toString c.maxPayloadBytes ++ "-byte limit; refusing to decode."))
  else if encoding ≠ some supportedBitmapEncoding then
    .error (contractError ("Unsupported bitmap encoding " ++ (encoding.map quoted).getD "None" ++
      "; expected " ++ quoted supportedBitmapEncoding ++ "."))
  else .ok ()

def validateEntityIds : Option (List Int) → Except Exn Unit
  | none => .error (contractError "Snapshot page carries neither entity_ids nor a bitmap.")
  | some ids =>
    match ids.find? (· < 0) with
    | some i => .error (contractError ("Entity ID " ++ toString i ++
        " is not a non-negative integer; only INT64 keys are supported."))
    | none => .ok ()

/-- Fetch one validated page of the full membership snapshot. -/
def fetchSnapshot (now : Timestamp) (s : MockDeepSeeService) (cursor : Option String) :
    Except Exn SnapshotPage := do
  let page ← s.snapshot c.bitMap64 cursor c.token
  c.validateFreshness now page.dataAsOf
  validateKeyType page.entityKeyType
  match page.membershipBitmap with
  | some payload => c.validateBitmapPayload payload page.bitmapEncoding
  | none => validateEntityIds page.entityIds
  return page

/-- Fetch one page of change events after `sinceWatermark`. -/
def fetchChanges (now : Timestamp) (s : MockDeepSeeService) (sinceWatermark : String)
    (cursor : Option String) : Except Exn ChangeBatch := do
  let batch ← s.changes sinceWatermark cursor c.token
  c.validateFreshness now batch.dataAsOf
  return batch

def decodeMembershipBitmap (page : SnapshotPage) : Except Exn (Finset Int) :=
  match page.membershipBitmap with
  | none => .error (contractError "Snapshot page carries no bitmap payload.")
  | some payload => do
    c.validateBitmapPayload payload page.bitmapEncoding
    match c.bitMap64.deserialize payload with
    | some members => return members
    | none => .error (contractError "Malformed roaring64 bitmap payload")

end DeepSeeClient

end ContextqlServer.Deepsee.Client
