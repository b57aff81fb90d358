import ContextqlServer.Deepsee.Models

namespace ContextqlServer.Deepsee.MockService

open ContextqlServer.Lib.Mapping ContextqlServer.Lib.Python ContextqlServer.Deepsee.Models

def baseTime : Timestamp := 1782864000 * second

def staleDataAsOf : Timestamp := 946684800 * second

/-- The deterministic stand-in for a DeepSee endpoint. A queued failure is not
part of the state: it is an operation that the surroundings make fail. -/
structure MockDeepSeeService where
  members : Dict Int Float64
  pageSize : Nat
  requireAuth : Bool
  bitmapSnapshot : Bool
  malformedBitmap : Bool
  invalidKeyType : Bool
  staleDataAsOf : Bool
  duplicateDelivery : Bool
  outOfOrder : Bool
  redeliverFromStart : Bool
  events : List ChangeEvent
  seq : Nat

def evidenceRef (entityId : Int) : String := "deepsee://case/" ++ toString entityId

def eventIdOf (seq : Nat) : String := "evt-" ++ zpad 8 seq

def watermarkOf (seq : Nat) : String := zpad 12 seq

def malformedPayload : List UInt8 := "this-is-not-a-roaring64-bitmap".toUTF8.data.toList

namespace MockDeepSeeService

variable (s : MockDeepSeeService)

def recordEvent (entityId : Int) (changeType : ChangeType) (score : Option Float64) :
    ChangeEvent × MockDeepSeeService :=
  let seq := s.seq + 1
  let event : ChangeEvent :=
    { eventId := eventIdOf seq
      entityId
      changeType
      score
      effectiveAt := .iso (baseTime + seq * second)
      watermark := watermarkOf seq }
  (event, { s with seq, events := s.events ++ [event] })

def addMember (entityId : Int) (score : Float64) : ChangeEvent × MockDeepSeeService :=
  recordEvent { s with members := s.members.insert entityId score } entityId .added (some score)

def removeMember (entityId : Int) : ChangeEvent × MockDeepSeeService :=
  recordEvent { s with members := s.members.erase entityId } entityId .removed none

def changeScore (entityId : Int) (score : Float64) : Except Exn (ChangeEvent × MockDeepSeeService) :=
  if entityId ∈ s.members then
    .ok (recordEvent { s with members := s.members.insert entityId score } entityId .scoreChanged
      (some score))
  else
    .error (.valueError ("Entity " ++ toString entityId ++ " is not a current member."))

def enterCall (token : Option String) : Except Exn Unit :=
  if s.requireAuth && (token.getD "").isEmpty then
    .error (.deepSee ⟨.auth, ⟨"AUTH_FAILED", "Missing or invalid DeepSee credential.", false, none⟩⟩)
  else .ok ()

def watermark : String := watermarkOf s.seq

def dataAsOf : WireTime :=
  .iso (if s.staleDataAsOf then MockService.staleDataAsOf else baseTime + s.seq * second)

def entityKeyType : String := if s.invalidKeyType then "STRING" else supportedEntityKeyType

def bitmapPayload (B : BitMap64) : Except Exn (List UInt8) :=
  if s.malformedBitmap then .ok malformedPayload
  else B.serialize <$> B.ofIds (sorted s.members.keys)

def bitmapSnapshotPage (B : BitMap64) : Except Exn SnapshotPage := do
  let payload ← s.bitmapPayload B
  return {
    entityKeyType := s.entityKeyType
    dataAsOf := s.dataAsOf
    watermark := s.watermark
    entityIds := none
    membershipBitmap := some payload
    bitmapEncoding := some supportedBitmapEncoding
    scores := s.members
    evidenceRefs := collect (fun i => some (evidenceRef i)) (sorted s.members.keys)
    nextCursor := none }

/-- `int(cursor) if cursor is not None else 0`. -/
def offsetOf : Option String → Except Exn Int
  | some cursor => intOf cursor
  | none => .ok 0

def nextCursorOf (offset : Int) (has_more : Bool) : Option String :=
  if has_more then some (toString (offset + s.pageSize)) else none

def snapshot (B : BitMap64) (cursor token : Option String) : Except Exn SnapshotPage := do
  s.enterCall token
  if s.bitmapSnapshot then s.bitmapSnapshotPage B
  else
    let ordered := sorted s.members.keys
    let offset ← offsetOf cursor
    let pageIds := slice ordered offset (offset + s.pageSize)
    let has_more := decide (offset + s.pageSize < ordered.length)
    return {
      entityKeyType := s.entityKeyType
      dataAsOf := s.dataAsOf
      watermark := s.watermark
      entityIds := some pageIds
      membershipBitmap := none
      bitmapEncoding := none
      scores := collect s.members.lookup pageIds
      evidenceRefs := collect (fun i => some (evidenceRef i)) pageIds
      nextCursor := s.nextCursorOf offset has_more }

/-- The change feed since a watermark, as the delivery flags lay it out. -/
def pending (since : Int) : Except Exn (List ChangeEvent) := do
  let pending ←
    if s.redeliverFromStart then pure s.events
    else s.events.filterM (fun e => do return decide ((← intOf e.watermark) > since))
  let pending := if s.outOfOrder then pending.reverse else pending
  return if s.duplicateDelivery then pending.flatMap (fun event => [event, event]) else pending

/-- One page of change events after `sinceWatermark`. -/
def changes (sinceWatermark : String) (cursor token : Option String) : Except Exn ChangeBatch := do
  s.enterCall token
  let since ← intOf sinceWatermark
  let pending ← s.pending since
  let offset ← offsetOf cursor
  let page := slice pending offset (offset + s.pageSize)
  let has_more := decide (offset + s.pageSize < pending.length)
  return {
    events := page
    dataAsOf := s.dataAsOf
    watermark := s.watermark
    nextCursor := s.nextCursorOf offset has_more }

end MockDeepSeeService

/-- What the code relies on in the bitmap package: a bitmap reads back as it was
written, and the malformed payload is refused. -/
structure Lawful (B : BitMap64) : Prop where
  roundTrips : B.RoundTrips
  rejects : B.deserialize malformedPayload = none

end ContextqlServer.Deepsee.MockService
