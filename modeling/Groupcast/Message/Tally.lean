import Groupcast.Message.Writing
import Groupcast.Tally

/-!
# Sizes of messages in words

The sizes of messages as they are added up, one addition after another. The window of an excerpt
counts with its length, whatever that is: it is checked only when the excerpt is written, and a
message is sized before it is written.
-/

namespace Groupcast

variable {D : Dialect}

/-! ## Parts -/

/-- Adds up the headers, leaving out the excluded layers. -/
def HeaderMap.tally [Streamable α] (m : HeaderMap α) (excluded : List HeaderId) : Tally :=
  4 + (m.retained excluded).foldl
    (fun size entry => size + (2 + 2 + .number (Streamable.size entry.2))) 0

namespace Envelope

/-- Adds up an envelope with the given addresses. -/
def tallyWith (e : Envelope D) (dest src : Option Address) (excluded : List HeaderId) : Tally :=
  2 + 1 + .number (Address.wireSize dest) + .number (Address.wireSize src)
    + e.headers.tally excluded

end Envelope

/-- Adds up a buffer body. -/
def View.bufferTally : Option View → Tally
  | none => 4 + 0
  | some view => 4 + (1 + .number view.length)

namespace Parcel

/-- The packed bytes of a parcel, if it has any. -/
def packedTally (p : Parcel D) : Tally :=
  match p.packed? with
  | .error error => .refuse error
  | .ok bytes => .number (bytes.getD []).length

/-- Counts the payload bytes of a parcel. -/
def lengthTally : Option (Parcel D) → Tally
  | none => 0
  | some (.record r) => .number (Streamable.size r)
  | some p => p.packedTally

/-- Adds up what a parcel takes on the wire. -/
def wireTally : Option (Parcel D) → Tally
  | none => 1 + (4 + 0)
  | some (.record r) => 1 + (2 + .number (Streamable.size r))
  | some p => 1 + (4 + p.packedTally)

end Parcel

/-! ## Messages -/

mutual

/-- Adds up the payload bytes of a message. -/
def Message.lengthTally : Message D → Tally
  | .mk _ body => body.lengthTally

/-- Adds up the payload bytes of a body. -/
def Body.lengthTally : Body D → Tally
  | .empty => 0
  | .bytes view => .number (View.optionalLength view)
  | .buffer view _ => .number (View.optionalLength view)
  | .directBuffer view _ => .number (View.optionalLength view)
  | .composite children => (lengthTallies children).foldl (fun sum child => sum + child) 0
  | .object r => .number (r.elim 0 Streamable.size)
  | .serializable parcel => Parcel.lengthTally parcel
  | .excerpt _ window => .number window.length
  | .received view => .number view.length
  | .custom s held => .number (CustomBody.length s (lengths held))

/-- `Message.lengthTally` of each message. -/
def lengthTallies : List (Message D) → List Tally
  | [] => []
  | m :: ms => m.lengthTally :: lengthTallies ms

end

mutual

/-- Adds up what a message takes on the wire, its kind not counted. -/
def Message.wireTally : Message D → Tally
  | .mk e body => e.tallyWith e.dest e.src [] + body.wireTally

/-- Adds up what a body takes on the wire. What an application says of its own bodies is taken as
it is. -/
def Body.wireTally : Body D → Tally
  | .empty => 0
  | .bytes view => 4 + .number (View.optionalLength view)
  | .buffer view _ => View.bufferTally view
  | .directBuffer view _ => View.bufferTally view
  | .composite children => (wireTallies children).foldl (fun size child => size + 1 + child) 4
  | .object none => 1 + 0
  | .object (some r) => 1 + (2 + .number (Streamable.size r))
  | .serializable parcel => Parcel.wireTally parcel
  | .excerpt _ window => 4 + .number window.length
  | .received view => 4 + .number view.length
  | .custom s held => .number (CustomBody.size s (wireSizes held))

/-- `Message.wireTally` of each message. -/
def wireTallies : List (Message D) → List Tally
  | [] => []
  | m :: ms => m.wireTally :: wireTallies ms

end

namespace Message

/-- Adds up what a message takes on the wire when the sender is known and some layers' headers are
left out. -/
def wireTallyFor (m : Message D) (sender : Option Address) (excluded : List HeaderId) : Tally :=
  let (dest, src) := m.envelope.addressesFor sender
  m.envelope.tallyWith dest src excluded + m.body.wireTally

/-- Adds up what a message takes on the wire, its kind counted. -/
def encodedTally (m : Message D) : Tally :=
  1 + m.wireTally

/-- The bytes of a message, its kind included. Room is made for them ahead, as much as was added
up. -/
def encodeIn (build : Build) (m : Message D) : Except Fault (Except EncodeError Bytes) := do
  match ← m.encodedTally.run build with
  | .error error => return .error error
  | .ok size =>
    makeRoom size
    return m.emit.result

end Message

end Groupcast
