import Groupcast.Dialect

/-!
# Bodies of the catalogue

A counter, which is a number, and a wrapper, which holds at most one message. Both keep the kind
under which they were registered.
-/

namespace Groupcast.Catalogue

inductive Custom where
  | counter (kind : UInt8) (value : UInt64)
  | wrap (kind : UInt8)
deriving DecidableEq, Repr

namespace Custom

def kind : Custom → UInt8
  | counter kind _ => kind
  | wrap kind => kind

/-- Payload bytes: 8 for a counter, and for a wrapper those of its message. -/
def length : Custom → List (Except EncodeError Nat) → Nat
  | counter _ _, _ => 8
  | wrap _, [.ok n] => n
  | wrap _, _ => 0

/-- Bytes of the encoding. A message that cannot be sized counts for its kind only. -/
def size : Custom → List (Except EncodeError Nat) → Nat
  | counter _ _, _ => 8
  | wrap _, [size] => 1 + size.toOption.getD 0
  | wrap _, _ => 0

def emit : Custom → List Emission → Emission
  | counter _ value, _ => Emission.piece (Bytes.bigEndian 8 value.toNat)
  | wrap _, held => Emission.concat held

def refill : Custom → BodyScript Custom
  | counter kind _ => .ofReading Reading.u64 fun value => .done (counter kind value)
  | wrap kind => .message (.done (wrap kind))

/-- A counter without payload is 0, a wrapper without payload holds nothing. -/
def copy (withPayload : Bool) : Custom → Custom × Bool
  | counter kind value => (counter kind (if withPayload then value else 0), false)
  | wrap kind => (wrap kind, withPayload)

instance : CustomBody Custom where
  kind := kind
  length := length
  size := size
  emit := emit
  refill := refill
  copy := copy

end Custom

end Groupcast.Catalogue
