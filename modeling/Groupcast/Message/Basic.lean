import Groupcast.Address
import Groupcast.Flags
import Groupcast.Fragment.Tag
import Groupcast.HeaderMap
import Groupcast.View
import Groupcast.Window

/-!
# Messages

A message is an envelope (addresses, flags and headers) around a body. Bodies come in eight
built-in kinds and those that the dialect adds; some hold further messages.
-/

namespace Groupcast

/-- The built-in kinds of body. -/
inductive BodyKind where
  | bytes | buffer | empty | object | composite | fragment | directBuffer | serializable
deriving DecidableEq, Repr

namespace BodyKind

/-- Every built-in kind, in the order of their numbers. -/
def all : List BodyKind :=
  [.bytes, .buffer, .empty, .object, .composite, .fragment, .directBuffer, .serializable]

/-- The number written ahead of a message. -/
def toByte : BodyKind → UInt8
  | .bytes => 0
  | .buffer => 1
  | .empty => 2
  | .object => 3
  | .composite => 4
  | .fragment => 5
  | .directBuffer => 6
  | .serializable => 7

def ofByte? (kind : UInt8) : Option BodyKind :=
  all.find? (·.toByte = kind)

/-- The name shown in diagnostics. -/
def name : BodyKind → String
  | .bytes => "bytes"
  | .buffer => "nio"
  | .empty => "empty"
  | .object => "object"
  | .composite => "composite"
  | .fragment => "fragment"
  | .directBuffer => "nio-direct"
  | .serializable => "serializable"

end BodyKind

/-- What goes with every body. -/
structure Envelope (D : Dialect) where
  dest : Option Address
  src : Option Address
  flags : Flags
  transient : TransientFlags
  headers : HeaderMap (Record D)

/-- An envelope without addresses, flags or headers. -/
def Envelope.blank {D : Dialect} : Envelope D :=
  ⟨none, none, FlagSet.empty, FlagSet.empty, HeaderMap.empty⟩

/-- An object that is sent either in its own encoding or packed. -/
inductive Parcel (D : Dialect) where
  | record (record : Record D)
  /-- An object that is packed when it is written. -/
  | object (object : D.Object)
  /-- Packed bytes, as received. -/
  | packed (bytes : Bytes)

mutual

/-- A unit of group communication. -/
inductive Message (D : Dialect) where
  | mk (envelope : Envelope D) (body : Body D)

/-- The payload of a message. -/
inductive Body (D : Dialect) where
  | empty
  /-- Bytes, or none, which is not the same as no bytes. -/
  | bytes (view : Option View)
  /-- A buffer that is kept on the heap or in direct memory. -/
  | buffer (view : Option View) (direct : Bool)
  /-- A buffer in direct memory, with the wish that receivers keep theirs on the heap. -/
  | directBuffer (view : Option View) (heap : Bool)
  | composite (children : List (Message D))
  | object (record : Option (Record D))
  | serializable (parcel : Option (Parcel D))
  /-- A window of the encoding of another message, not yet cut out. -/
  | excerpt (whole : Message D) (window : Window)
  /-- A window of the encoding of another message, as received. -/
  | received (view : View)
  /-- A body of the application and the messages that it holds. -/
  | custom (state : D.Custom) (held : List (Message D))

end

namespace Message

variable {D : Dialect}

def envelope : Message D → Envelope D
  | mk e _ => e

def body : Message D → Body D
  | mk _ b => b

/-- A message around a body, without addresses, flags or headers. -/
def ofBody (body : Body D) : Message D :=
  mk .blank body

instance : Inhabited (Message D) := ⟨ofBody .empty⟩

def setBody (m : Message D) (body : Body D) : Message D :=
  mk m.envelope body

def mapEnvelope (m : Message D) (f : Envelope D → Envelope D) : Message D :=
  mk (f m.envelope) m.body

end Message

namespace Body

variable {D : Dialect}

instance : Inhabited (Body D) := ⟨.empty⟩

/-- The built-in kind of a body, if it is not the application's. -/
def builtin? : Body D → Option BodyKind
  | empty => some .empty
  | bytes _ => some .bytes
  | buffer _ _ => some .buffer
  | directBuffer _ _ => some .directBuffer
  | composite _ => some .composite
  | object _ => some .object
  | serializable _ => some .serializable
  | excerpt _ _ => some .fragment
  | received _ => some .fragment
  | custom _ _ => none

/-- The number written ahead of the message. -/
def kind : Body D → UInt8
  | custom s _ => CustomBody.kind s
  | b => b.builtin?.elim 0 BodyKind.toByte

/-- The name shown in diagnostics. -/
def name (b : Body D) : String :=
  b.builtin?.elim "custom" BodyKind.name

/-- The body of a built-in kind that has no payload. -/
def blank : BodyKind → Body D
  | .bytes => bytes none
  | .buffer => buffer none false
  | .empty => empty
  | .object => object none
  | .composite => composite []
  | .fragment => received View.empty
  | .directBuffer => directBuffer none false
  | .serializable => serializable none

/-- The buffer behind a body, if it has one. Bodies that never have one refuse. -/
def array : Body D → Except UnsupportedOperation (Option View)
  | bytes view => .ok view
  | buffer view false => .ok view
  | received view => .ok (some view)
  | b => .error ⟨"array", b.name⟩

/-- Whether there is a buffer behind the body. -/
def hasArray (b : Body D) : Bool :=
  match b.array with
  | .ok (some _) => true
  | _ => false

/-- The body with another buffer behind it. -/
def setArray (b : Body D) (view : View) : Except UnsupportedOperation (Body D) :=
  match b with
  | bytes _ => .ok (bytes (some view))
  | buffer _ false => .ok (buffer (some view) false)
  | _ => .error ⟨"set_array", b.name⟩

end Body

namespace Message

variable {D : Dialect}

/-- The number written ahead of the message. -/
def kind (m : Message D) : UInt8 := m.body.kind

end Message

namespace Parcel

variable {D : Dialect}

/-- The packed form of an object, or none if it is sent in its own encoding. -/
def packed? : Parcel D → Except EncodeError (Option Bytes)
  | record _ => .ok none
  | object x => (Packable.pack x).mapError .object |>.map some
  | packed bytes => .ok (some bytes)

end Parcel

end Groupcast
