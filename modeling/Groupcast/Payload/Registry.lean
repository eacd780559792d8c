import Groupcast.KindTable
import Groupcast.Nesting
import Groupcast.Payload.Basic

/-!
# Reading payloads

A payload is read by its kind: the registry gives a blank payload, which is then refilled.
-/

namespace Groupcast

variable {π : Type} [CustomPayload π]

/-- The blank payloads that readers start from. -/
structure PayloadRegistry (π : Type) where
  payloads : KindTable UInt8 (Payload π)

namespace PayloadRegistry

/-- The registry of the built-in kinds. -/
def builtin : PayloadRegistry π :=
  ⟨⟨[(Payload.bytesKind, .bytes View.empty), (Payload.compositeKind, .composite [])]⟩⟩

instance : Inhabited (PayloadRegistry π) := ⟨builtin⟩

/-- Registers a payload of the application. -/
def add (r : PayloadRegistry π) (kind : UInt8) (blank : π) :
    Except RegistryError Unit × PayloadRegistry π :=
  let (outcome, payloads) := r.payloads.insertAboveReserved "payload" kind (.custom blank)
  (outcome, ⟨payloads⟩)

def contains (r : PayloadRegistry π) (kind : UInt8) : Bool :=
  r.payloads.contains kind

/-- The blank payload of a kind. -/
def blank (r : PayloadRegistry π) (kind : UInt8) : Except DecodeError (Payload π) :=
  match r.payloads.get? kind with
  | none => .error (.unknownPayloadKind kind)
  | some blank => .ok blank

/-- How many kinds the table holds. -/
def summary (r : PayloadRegistry π) : String :=
  s!"PayloadRegistry \x7b payloads: {r.payloads.size} \x7d"

end PayloadRegistry

namespace Payload

/-- Refills a payload, given the reading of the payloads that lie in it, if any may. -/
def refill (inner : Option (Reading (Payload π))) : Payload π → Reading (Payload π)
  | bytes _ => return bytes (← View.reading)
  | composite _ =>
    match inner with
    | none => .fail tooDeep
    | some inner => do
      let count ← Reading.u16
      return composite (← Reading.times count.toNat inner)
  | custom s => return custom (← CustomPayload.refill s)

/-- A payload behind its kind, in which composites may nest `levels` deep. -/
def readingWithin (r : PayloadRegistry π) : (levels : Nat) → Reading (Payload π)
  | 0 => do
    let blank ← Reading.ofExcept (r.blank (← Reading.u8))
    blank.refill none
  | levels + 1 => do
    let blank ← Reading.ofExcept (r.blank (← Reading.u8))
    blank.refill (some (readingWithin r levels))

/-- A payload behind its kind. -/
def reading (r : PayloadRegistry π) : Reading (Payload π) :=
  readingWithin r maxNesting

/-- The payload that a byte string encodes. -/
def deserialize (r : PayloadRegistry π) (wire : Bytes) : Except DecodeError (Payload π) :=
  (reading r).runExactly wire

end Payload

end Groupcast
