import Groupcast.Dialect

/-!
# Fragment tags

Each fragment of a message carries a tag in its headers: which message it belongs to, its place in
that message and how many places there are.
-/

namespace Groupcast

/-- The header of a fragment. -/
structure FragmentTag where
  /-- The message that the fragment is part of. -/
  id : UInt64
  /-- The fragment's place, from 0. -/
  index : UInt32
  /-- How many fragments the message has. -/
  count : UInt32
  /-- Whether the fragments together hold an encoded message and not bare bytes. -/
  needsDecoding : Bool
deriving DecidableEq, Repr

namespace FragmentTag

/-- The kind under which every registry knows fragment tags. -/
def kind : UInt16 := 52

/-- Bytes of an encoded tag. -/
def size : Nat := 8 + 4 + 4 + 1

def blank : FragmentTag := ⟨0, 0, 0, false⟩

instance : Inhabited FragmentTag := ⟨blank⟩

/-- The place after a given one, unless that is the last place a tag can name. -/
def nextIndex? (index : UInt32) : Option UInt32 :=
  if index.toNat + 1 < UInt32.size then some (index + 1) else none

/-- Whether the fragment has the last place. -/
def isLast (t : FragmentTag) : Bool :=
  t.count.toNat ≤ min (t.index.toNat + 1) (UInt32.size - 1)

/-- Whether the fragment has the first place. -/
def isFirst (t : FragmentTag) : Bool :=
  t.index == 0

instance : Streamable FragmentTag where
  kind _ := kind
  size _ := size
  pieces t := [Bytes.bigEndian 8 t.id.toNat, Bytes.bigEndian 4 t.index.toNat,
    Bytes.bigEndian 4 t.count.toNat, [if t.needsDecoding then 1 else 0]]
  refill _ := do
    return ⟨← Reading.u64, ← Reading.u32, ← Reading.u32, ← Reading.flag⟩

end FragmentTag

/-- A self-describing value: a fragment tag or one of the application's. -/
inductive Record (D : Dialect) where
  | tag (tag : FragmentTag)
  | item (item : D.Item)

namespace Record

variable {D : Dialect}

/-- The fragment tag that the record is, if it is one. -/
def tag? : Record D → Option FragmentTag
  | tag t => some t
  | item _ => none

instance : Streamable (Record D) where
  kind
    | tag t => Streamable.kind t
    | item x => Streamable.kind x
  size
    | tag t => Streamable.size t
    | item x => Streamable.size x
  pieces
    | tag t => Streamable.pieces t
    | item x => Streamable.pieces x
  refill
    | tag t => tag <$> Streamable.refill t
    | item x => item <$> Streamable.refill x

end Record

end Groupcast
