import Groupcast.Message.Basic

/-!
# Sizes of messages

How many payload bytes a message carries and how many bytes it takes on the wire, computed without
writing it. Only the packing of an object can fail.
-/

namespace Groupcast

variable {D : Dialect}

/-- Bytes in an optional view. -/
def View.optionalLength : Option View → Nat
  | none => 0
  | some view => view.length

/-- The sum of some numbers, or the first error among them. -/
def sumSizes (extra : Nat) (sizes : List (Except EncodeError Nat)) : Except EncodeError Nat :=
  sizes.foldlM (fun sum size => size.map (sum + extra + ·)) 0

namespace Parcel

/-- Payload bytes of a parcel. -/
def length : Option (Parcel D) → Except EncodeError Nat
  | none => .ok 0
  | some (.record r) => .ok (Streamable.size r)
  | some p => p.packed?.map fun bytes => (bytes.getD []).length

/-- Bytes that a parcel takes on the wire. -/
def wireSize : Option (Parcel D) → Except EncodeError Nat
  | none => .ok (1 + 4)
  | some (.record r) => .ok (1 + (2 + Streamable.size r))
  | some p => p.packed?.map fun bytes => 1 + (4 + (bytes.getD []).length)

end Parcel

/-! ## Payload bytes -/

mutual

/-- Payload bytes of a message, without lengths and markers. -/
def Message.length : Message D → Except EncodeError Nat
  | .mk _ body => body.length

/-- Payload bytes of a body, without lengths and markers. -/
def Body.length : Body D → Except EncodeError Nat
  | .empty => .ok 0
  | .bytes view => .ok (View.optionalLength view)
  | .buffer view _ => .ok (View.optionalLength view)
  | .directBuffer view _ => .ok (View.optionalLength view)
  | .composite children => sumSizes 0 (lengths children)
  | .object r => .ok (r.elim 0 Streamable.size)
  | .serializable parcel => Parcel.length parcel
  | .excerpt _ window => .ok window.length
  | .received view => .ok view.length
  | .custom s held => .ok (CustomBody.length s (lengths held))

/-- `Message.length` of each message. -/
def lengths : List (Message D) → List (Except EncodeError Nat)
  | [] => []
  | m :: ms => m.length :: lengths ms

end

/-- Whether the body carries any payload. -/
def Body.hasPayload : Body D → Bool
  | .empty => false
  | .bytes view => view.isSome
  | .buffer view _ => view.isSome
  | .directBuffer view _ => view.isSome
  | .composite children => !children.isEmpty
  | .object r => r.isSome
  | .serializable parcel => parcel.isSome
  | .excerpt _ _ => true
  | .received _ => true
  | .custom s held => CustomBody.hasPayload s (lengths held)

/-! ## Bytes on the wire -/

namespace Envelope

/-- The addresses that a transport which knows the sender writes: both, unless the message's own
source is missing or is that sender. Without a known sender both are written. -/
def addressesFor (e : Envelope D) (sender : Option Address) : Option Address × Option Address :=
  if sender.isNone || (e.src.isSome && e.src != sender) then (e.dest, e.src) else (none, none)

/-- Bytes that an envelope takes on the wire when the sender is known and some layers' headers are
left out. -/
def wireSizeFor (e : Envelope D) (sender : Option Address) (excluded : List HeaderId) : Nat :=
  let (dest, src) := e.addressesFor sender
  2 + 1 + Address.wireSize dest + Address.wireSize src + e.headers.wireSize excluded

/-- Bytes that an envelope takes on the wire. -/
def wireSize (e : Envelope D) : Nat :=
  2 + 1 + Address.wireSize e.dest + Address.wireSize e.src + e.headers.wireSize []

end Envelope

/-- Bytes that a buffer body takes on the wire: a length, and a flag and the bytes if present. -/
def View.bufferWireSize : Option View → Nat
  | none => 4
  | some view => 4 + (1 + view.length)

mutual

/-- Bytes that a message takes on the wire, its kind not counted. -/
def Message.wireSize : Message D → Except EncodeError Nat
  | .mk e body => body.wireSize.map (e.wireSize + ·)

/-- Bytes that a body takes on the wire. -/
def Body.wireSize : Body D → Except EncodeError Nat
  | .empty => .ok 0
  | .bytes view => .ok (4 + View.optionalLength view)
  | .buffer view _ => .ok (View.bufferWireSize view)
  | .directBuffer view _ => .ok (View.bufferWireSize view)
  | .composite children => (sumSizes 1 (wireSizes children)).map (4 + ·)
  | .object r => .ok (1 + r.elim 0 fun r => 2 + Streamable.size r)
  | .serializable parcel => Parcel.wireSize parcel
  | .excerpt _ window => .ok (4 + window.length)
  | .received view => .ok view.wireSize
  | .custom s held => .ok (CustomBody.size s (wireSizes held))

/-- `Message.wireSize` of each message. -/
def wireSizes : List (Message D) → List (Except EncodeError Nat)
  | [] => []
  | m :: ms => m.wireSize :: wireSizes ms

end

namespace Message

/-- Bytes that a message takes on the wire when the sender is known and some layers' headers are
left out, its kind not counted. -/
def wireSizeFor (m : Message D) (sender : Option Address) (excluded : List HeaderId) :
    Except EncodeError Nat :=
  m.body.wireSize.map (m.envelope.wireSizeFor sender excluded + ·)

/-- Bytes that a message takes on the wire, its kind counted. -/
def encodedSize (m : Message D) : Except EncodeError Nat :=
  m.wireSize.map (1 + ·)

end Message

end Groupcast
