import Groupcast.Message.Basic

/-!
# Changes to messages

Changes to the envelope of a message, and to what its body holds. A change to a body applies to
some kinds of body only and yields nothing for the others.
-/

namespace Groupcast

variable {D : Dialect}

namespace Message

/-! ## Envelopes -/

def setDest (m : Message D) (dest : Option Address) : Message D :=
  m.mapEnvelope fun e => { e with dest }

def setSrc (m : Message D) (src : Option Address) : Message D :=
  m.mapEnvelope fun e => { e with src }

def mapFlags (m : Message D) (f : Flags → Flags) : Message D :=
  m.mapEnvelope fun e => { e with flags := f e.flags }

def mapTransient (m : Message D) (f : TransientFlags → TransientFlags) : Message D :=
  m.mapEnvelope fun e => { e with transient := f e.transient }

def mapHeaders (m : Message D) (f : HeaderMap (Record D) → HeaderMap (Record D)) : Message D :=
  m.mapEnvelope fun e => { e with headers := f e.headers }

/-- The header of a layer. -/
def header? (m : Message D) (layer : HeaderId) : Option (Record D) :=
  m.envelope.headers.get? layer

/-! ## Composites -/

/-- The messages in a composite, in order. -/
def children? (m : Message D) : Option (List (Message D)) :=
  match m.body with
  | .composite children => some children
  | _ => none

/-- How many messages a composite holds. -/
def count (m : Message D) : Nat :=
  (m.children?.getD []).length

/-- A composite with one more message at the end. -/
def addLast? (m child : Message D) : Option (Message D) :=
  m.children?.map fun children => m.setBody (.composite (children ++ [child]))

/-- A composite with one more message in front. -/
def addFirst? (m child : Message D) : Option (Message D) :=
  m.children?.map fun children => m.setBody (.composite (child :: children))

/-- The last message of a composite, if any, and the composite without it. -/
def removeLast? (m : Message D) : Option (Option (Message D) × Message D) :=
  m.children?.map fun children =>
    (children.getLast?, m.setBody (.composite children.dropLast))

/-- The first message of a composite, if any, and the composite without it. -/
def removeFirst? (m : Message D) : Option (Option (Message D) × Message D) :=
  m.children?.map fun children => (children.head?, m.setBody (.composite children.tail))

/-- A composite in which another message stands at a place. -/
def setChild? (m : Message D) (i : Nat) (child : Message D) : Option (Message D) :=
  m.children?.map fun children => m.setBody (.composite (children.set i child))

end Message

namespace Body

/-! ## Buffers and objects -/

/-- A buffer body with another buffer or none. -/
def setBuffer? (b : Body D) (view : Option View) : Option (Body D) :=
  match b with
  | buffer _ direct => some (buffer view direct)
  | directBuffer _ heap => some (directBuffer view heap)
  | _ => none

/-- An object body with another object or none. -/
def setRecord? (b : Body D) (record : Option (Record D)) : Option (Body D) :=
  match b with
  | object _ => some (object record)
  | _ => none

/-- The parcel of a serializable body. -/
def parcel? : Body D → Option (Option (Parcel D))
  | serializable parcel => some parcel
  | _ => none

/-- The record that an object or serializable body holds in its own encoding. -/
def record? : Body D → Option (Record D)
  | object record => record
  | serializable (some (.record record)) => some record
  | _ => none

end Body

end Groupcast
