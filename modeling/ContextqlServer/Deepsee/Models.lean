import ContextqlServer.Lib.Mapping
import ContextqlServer.Lib.Python

namespace ContextqlServer.Deepsee.Models

open ContextqlServer.Lib.Mapping ContextqlServer.Lib.Python

/-- A point of time in microseconds since 1970, UTC. -/
abbrev Timestamp := Int

def second : Timestamp := 1000000

/-- The text of a time on the wire: the ISO text of a point of time, or any other text, with
the message of the `ValueError` that `datetime.fromisoformat` raises on it. -/
inductive WireTime where
  | iso (t : Timestamp)
  | other (text message : String)
  deriving DecidableEq

def supportedEntityKeyType : String := "INT64"

def supportedBitmapEncoding : String := "roaring64"

inductive ChangeType where
  | added
  | removed
  | scoreChanged
  deriving DecidableEq

structure ChangeEvent where
  eventId : String
  entityId : Int
  changeType : ChangeType
  score : Option Float64
  effectiveAt : WireTime
  watermark : String
  deriving DecidableEq

/-- One page of a full membership snapshot: entity ids, or one serialized bitmap. -/
structure SnapshotPage where
  entityKeyType : String
  dataAsOf : WireTime
  watermark : String
  entityIds : Option (List Int)
  membershipBitmap : Option (List UInt8)
  bitmapEncoding : Option String
  scores : Dict Int Float64
  evidenceRefs : Dict Int String
  nextCursor : Option String

structure ChangeBatch where
  events : List ChangeEvent
  dataAsOf : WireTime
  watermark : String
  nextCursor : Option String

structure ErrorEnvelope where
  code : String
  message : String
  retryable : Bool
  retryAfterMs : Option Nat
  deriving DecidableEq

/-- The classes of connector errors; `timeout` and `rateLimit` are retryable, the
last four terminal, and `staleData` is a contract error. -/
inductive ErrorClass where
  | retryable
  | timeout
  | rateLimit
  | terminal
  | auth
  | contract
  | staleData
  deriving DecidableEq

structure DeepSeeError where
  errorClass : ErrorClass
  envelope : ErrorEnvelope
  deriving DecidableEq

/-- What a connector call may raise: its own errors, those of the built-ins it
uses, and those of code outside the repository. -/
inductive Exn where
  | deepSee (e : DeepSeeError)
  | valueError (message : String)
  | overflowError (message : String)
  | indexError (message : String)
  | keyError (key : String)
  | typeError (message : String)
  | external (message : String)
  deriving DecidableEq

def contractError (message : String) : Exn :=
  .deepSee ⟨.contract, ⟨"CONTRACT_VIOLATION", message, false, none⟩⟩

/-- `int(text)` as the code calls it. -/
def intOf (s : String) : Except Exn Int :=
  match int s with
  | some n => .ok n
  | none => .error (.valueError ("invalid literal for int() with base 10: " ++ quoted s))

@[simp] theorem intOf_zpad (width n : Nat) : intOf (zpad width n) = .ok (n : Int) := by
  simp [intOf]

theorem intOf_toString (n : Nat) : intOf (toString (n : Int)) = .ok (n : Int) := by
  rw [intOf, int_toString]

/-- The 64-bit roaring bitmaps of the `pyroaring` package, which take unsigned 64-bit
values and nothing else. `encode` gives the message of an `OverflowError` where it fails. -/
structure BitMap64 where
  encode : List Int → Except String (Finset Int)
  encode_ok : ∀ ids s, encode ids = .ok s ↔ (∀ i ∈ ids, 0 ≤ i ∧ i < 2 ^ 64) ∧ s = ids.toFinset
  serialize : Finset Int → List UInt8
  deserialize : List UInt8 → Option (Finset Int)

/-- A bitmap of 64-bit values reads back as it was written. -/
def BitMap64.RoundTrips (B : BitMap64) : Prop :=
  ∀ s : Finset Int, (∀ i ∈ s, 0 ≤ i ∧ i < 2 ^ 64) → B.deserialize (B.serialize s) = some s

/-- `BitMap64(ids)` -/
def BitMap64.ofIds (B : BitMap64) (ids : List Int) : Except Exn (Finset Int) :=
  match B.encode ids with
  | .ok s => .ok s
  | .error message => .error (.overflowError message)

theorem BitMap64.ofIds_eq_ok {B : BitMap64} {ids : List Int} {s : Finset Int} :
    B.ofIds ids = .ok s ↔ (∀ i ∈ ids, 0 ≤ i ∧ i < 2 ^ 64) ∧ s = ids.toFinset := by
  rw [← B.encode_ok, ofIds]
  cases B.encode ids <;> simp

theorem BitMap64.ofIds_overflows {B : BitMap64} {ids : List Int} (h : ¬ ∀ i ∈ ids, 0 ≤ i ∧ i < 2 ^ 64) :
    ∃ message, B.ofIds ids = .error (.overflowError message) := by
  cases hids : B.encode ids with
  | ok s => exact absurd ((B.encode_ok ids s).mp hids).1 h
  | error message => exact ⟨message, by rw [ofIds, hids]⟩

end ContextqlServer.Deepsee.Models
