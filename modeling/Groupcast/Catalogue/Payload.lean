import Groupcast.Payload.Registry

/-!
# Payloads of the catalogue

A counter, whose data is its number, and a blob, which is a view. Both keep the kind under which
they were registered.
-/

namespace Groupcast.Catalogue

inductive Datum where
  | counter (kind : UInt8) (value : UInt32)
  | blob (kind : UInt8) (view : View)
deriving DecidableEq

namespace Datum

def kind : Datum → UInt8
  | counter kind _ => kind
  | blob kind _ => kind

def size : Datum → Nat
  | counter _ _ => 4
  | blob _ view => view.length

def wireSize : Datum → Nat
  | counter _ _ => 4
  | blob _ view => view.wireSize

def array : Datum → Option View
  | counter _ _ => none
  | blob _ view => some view

def data : Datum → Bytes
  | counter _ value => Bytes.bigEndian 4 value.toNat
  | blob _ view => view.data

def emit : Datum → Emission
  | counter _ value => Emission.piece (Bytes.bigEndian 4 value.toNat)
  | blob _ view => view.emit

def refill : Datum → Reading Datum
  | counter kind _ => return counter kind (← Reading.u32)
  | blob kind _ => return blob kind (← View.reading)

def copy : Datum → Datum
  | counter kind value => counter kind value
  | blob kind view => blob kind view.copy

instance : CustomPayload Datum where
  kind := kind
  size := size
  wireSize := wireSize
  array := array
  data := data
  emit := emit
  refill := refill
  copy := copy

end Datum

/-- Registers both payloads, under 40 and 41. -/
def addPayloads (r : PayloadRegistry Datum) : Except RegistryError (PayloadRegistry Datum) := do
  let r ← accepted (r.add 40 (.counter 40 0))
  accepted (r.add 41 (.blob 41 View.empty))

end Groupcast.Catalogue
