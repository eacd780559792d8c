import Groupcast.HeaderMap

/-!
# Headers in a row of slots

A header map lies in memory as a row of slots, each with a layer and its header, that is searched
from the front. Nothing in the type of such a row keeps the layers apart. A slot that is changed or
taken out gives back the header that was in it.

`HeaderOperation` lists what a caller may do with the headers in hand, to either form.
-/

namespace Groupcast

/-- Layers and their headers in a row. -/
abbrev Slots (α : Type) := List (HeaderId × α)

namespace Slots

/-- Puts a header in the first slot of its layer, or in a new one at the end. -/
def put : Slots α → HeaderId → α → Slots α × Option α
  | [], id, header => ([(id, header)], none)
  | (layer, old) :: slots, id, header =>
    if layer = id then ((layer, header) :: slots, some old)
    else
      let (slots, replaced) := put slots id header
      ((layer, old) :: slots, replaced)

/-- Takes out the first slot of a layer. -/
def remove : Slots α → HeaderId → Slots α × Option α
  | [], _ => ([], none)
  | (layer, old) :: slots, id =>
    if layer = id then (slots, some old)
    else
      let (slots, removed) := remove slots id
      ((layer, old) :: slots, removed)

/-- The slots of the layers numbered `first` or more. -/
def startingFrom (slots : Slots α) (first : HeaderId) : Slots α :=
  slots.filter (first ≤ ·.1)

section Wire

variable [Streamable α]

/-- Reads `n` headers into slots, given the blank header of each kind. -/
def readingInto (blank : UInt16 → Except DecodeError α) : Nat → Slots α → Reading (Slots α)
  | 0, slots => pure slots
  | n + 1, slots => do
    let id ← Reading.u16
    let kind ← Reading.u16
    let header ← Reading.ofExcept (blank kind)
    let header ← Streamable.refill header
    readingInto blank n (put slots id header).1

/-- Reads slots, given the blank header of each kind. -/
def reading (blank : UInt16 → Except DecodeError α) : Reading (Slots α) := do
  let count ← Reading.u32
  readingInto blank count.toNat []

end Wire

end Slots

/-! ## Operations -/

/-- What a caller may do with the headers in hand. -/
inductive HeaderOperation (α : Type) where
  | put (id : HeaderId) (header : α)
  | remove (id : HeaderId)
  /-- Goes on with a copy. -/
  | copy
  /-- Goes on with a copy of the headers of the layers numbered `first` or more. -/
  | copyFrom (first : HeaderId)
  /-- Goes on with the headers read from an input, given the blank header of each kind. An input
  that is refused leaves those in hand. -/
  | read (blank : UInt16 → Except DecodeError α) (source : Bytes)

section Operations

variable [Streamable α]

/-- The slots after an operation, and the header that it gives back, if any. -/
def Slots.step (slots : Slots α) : HeaderOperation α → Slots α × Option α
  | .put id header => slots.put id header
  | .remove id => slots.remove id
  | .copy => (slots, none)
  | .copyFrom first => (slots.startingFrom first, none)
  | .read blank source =>
    match ((Slots.reading blank).run source).1 with
    | .ok found => (found, none)
    | .error _ => (slots, none)

/-- The map after an operation. -/
def HeaderMap.step (m : HeaderMap α) : HeaderOperation α → HeaderMap α
  | .put id header => m.put id header
  | .remove id => m.erase id
  | .copy => m
  | .copyFrom first => m.startingFrom first
  | .read blank source =>
    match ((reading blank).run source).1 with
    | .ok found => found
    | .error _ => m

/-- The slots after some operations, from none. -/
def Slots.after (history : List (HeaderOperation α)) : Slots α :=
  history.foldl (fun slots operation => (slots.step operation).1) []

/-- The map after some operations, from an empty one. -/
def HeaderMap.after (history : List (HeaderOperation α)) : HeaderMap α :=
  history.foldl step empty

end Operations

end Groupcast
