import Groupcast.Message.Size

/-!
# Writing messages

What a message writes to a sink, piece by piece. A message is its kind, its envelope and its body;
a composite body writes its children in a row, and an excerpt writes the whole message through a
clip.
-/

namespace Groupcast

variable {D : Dialect}

namespace Envelope

/-- The flags, the addresses and the headers. -/
def emitWith (e : Envelope D) (dest src : Option Address) (excluded : List HeaderId) : Emission :=
  Emission.piece (Bytes.bigEndian 2 e.flags.toNat)
    ++ Emission.piece (Bytes.bigEndian 1 e.transient.toNat)
    ++ Address.emit dest ++ Address.emit src ++ e.headers.emit excluded

def emit (e : Envelope D) : Emission :=
  e.emitWith e.dest e.src []

/-- The envelope as a transport writes it that knows the sender, without the headers of the
excluded layers. -/
def emitFor (e : Envelope D) (sender : Option Address) (excluded : List HeaderId) : Emission :=
  let (dest, src) := e.addressesFor sender
  e.emitWith dest src excluded

end Envelope

/-! ## Buffers -/

/-- Length of the pieces in which a direct buffer of `n` bytes is written. -/
def transferLength (n : Nat) : Nat :=
  max (n / 10) 128

/-- The pieces in which a direct buffer is written. -/
def transferPieces (bytes : Bytes) : List Bytes :=
  (Window.tile 0 bytes.length (transferLength bytes.length)).map (·.cut bytes)

/-- A buffer body: the length, the wish about its memory and the bytes, or the length -1. -/
def View.emitBuffer (view : Option View) (wish inPieces : Bool) : Emission :=
  match view with
  | none => Emission.absent
  | some view =>
    Emission.length view.length ++ Emission.flag wish
      ++ if inPieces then Emission.ofPieces (transferPieces view.data)
        else Emission.piece view.data

/-! ## Objects -/

/-- A record behind its kind. -/
def Record.emitTagged (r : Record D) : Emission :=
  Emission.u16 (Streamable.kind r) ++ Emission.ofPieces (Streamable.pieces r)

/-- A parcel: whether it is in its own encoding, and that or the packed bytes behind their
length. -/
def Parcel.emit : Option (Parcel D) → Emission
  | none => Emission.flag false ++ Emission.absent
  | some (.record r) => Emission.flag true ++ r.emitTagged
  | some p =>
    Emission.flag false ++
      match p.packed? with
      | .error error => Emission.fail error
      | .ok none => Emission.absent
      | .ok (some bytes) => Emission.length bytes.length ++ Emission.piece bytes

/-! ## Messages -/

mutual

/-- A message, its kind included. -/
def Message.emit : Message D → Emission
  | .mk e body => Emission.byte body.kind ++ (e.emit ++ body.emit)

/-- A body. -/
def Body.emit : Body D → Emission
  | .empty => Emission.empty
  | .bytes none => Emission.absent
  | .bytes (some view) => view.emit
  | .buffer view direct => View.emitBuffer view direct direct
  | .directBuffer view heap => View.emitBuffer view heap true
  | .composite children => Emission.length children.length ++ Emission.concat (emissions children)
  | .object none => Emission.flag false
  | .object (some r) => Emission.flag true ++ r.emitTagged
  | .serializable parcel => Parcel.emit parcel
  | .excerpt whole window => Emission.length window.length ++ whole.emit.window window
  | .received view => view.emit
  | .custom s held => CustomBody.emit s (emissions held)

/-- `Message.emit` of each message. -/
def emissions : List (Message D) → List Emission
  | [] => []
  | m :: ms => m.emit :: emissions ms

end

theorem emissions_eq_map (ms : List (Message D)) : emissions ms = ms.map Message.emit := by
  induction ms with
  | nil => rfl
  | cons m ms ih => simp [emissions, ih]

namespace Message

/-- A message without its kind. -/
def emitUntagged (m : Message D) : Emission :=
  m.envelope.emit ++ m.body.emit

/-- A message without its kind, as a transport writes it that knows the sender, without the headers
of the excluded layers. -/
def emitFor (m : Message D) (sender : Option Address) (excluded : List HeaderId) : Emission :=
  m.envelope.emitFor sender excluded ++ m.body.emit

/-- The bytes of a message, its kind included. A message that cannot be sized is not written. -/
def encode (m : Message D) : Except EncodeError Bytes := do
  let _ ← m.wireSize
  m.emit.result

end Message

end Groupcast
