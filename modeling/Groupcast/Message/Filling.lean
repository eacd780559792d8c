import Groupcast.Filling
import Groupcast.Message.Reader

/-!
# Bodies filled in place

The steps by which a body is read into: what is read, and where in between the fields of the body
are set. The messages that lie in it are built beside it, each around a blank body that is filled
in the same way.
-/

namespace Groupcast

variable {D : Dialect}

namespace Body

/-- A buffer body with another wish about memory. -/
def setWish (wish : Bool) : Body D → Body D
  | buffer view _ => buffer view wish
  | directBuffer view _ => directBuffer view wish
  | b => b

/-- A buffer body with a buffer attached. -/
def attach (view : View) : Body D → Body D
  | buffer _ direct => buffer (some view) direct
  | directBuffer _ heap => directBuffer (some view) heap
  | b => b

/-- Fills a buffer body, if there is a buffer. -/
def fillBuffer : Filling (Body D) Unit := do
  match ← View.readingBuffer with
  | none => return
  | some (wish, view) =>
    Filling.modify (setWish wish)
    Filling.modify (attach view)

/-- Fills a fragment body, with nothing if there is no view. -/
def fillFragment : Filling (Body D) Unit := do
  let view ← View.readingOptional
  Filling.assign (received (view.getD View.empty))

/-- Fills a body in which composites may nest `levels` deep, given the reading of a message that
lies in it. -/
def fill (r : Registry D) (message : (levels : Nat) → Reading (Message D)) (levels : Nat) :
    Body D → Filling (Body D) Unit
  | .empty => return
  | .bytes _ => do
    let view ← View.readingOptional
    Filling.assign (.bytes view)
  | .buffer _ _ => fillBuffer
  | .directBuffer _ _ => fillBuffer
  | .composite _ =>
    match levels with
    | 0 => .fail tooDeep
    | levels + 1 => do
      let count ← Reading.length
      let children ← Reading.times count (message levels)
      Filling.assign (.composite children)
  | .object _ => do
    if ← Reading.flag then
      let record ← Record.reading r
      Filling.assign (.object (some record))
  | .serializable _ => do
    let parcel ← Parcel.reading r
    Filling.assign (.serializable parcel)
  | .excerpt _ _ => fillFragment
  | .received _ => fillFragment
  | .custom s _ => do
    let (s, held) ← (CustomBody.refill s).reading (message maxNesting)
    Filling.assign (.custom s held)

end Body

namespace Message

/-- A message whose kind has been read, its body filled in place. -/
def fillingOfKind (r : Registry D) (message : (levels : Nat) → Reading (Message D)) (kind : UInt8)
    (levels : Nat) : Reading (Message D) := do
  let blank ← Reading.ofExcept (r.body kind)
  let envelope ← Envelope.reading r
  return mk envelope (← (blank.fill r message levels).readingFrom blank)

/-- A message in which composites may nest `levels` deep, its bodies filled in place. -/
def filling (r : Registry D) : (fuel levels : Nat) → Reading (Message D)
  | 0, _ => .fail (.truncated 1 0)
  | fuel + 1, levels => do
    let kind ← Reading.u8
    fillingOfKind r (filling r fuel) kind levels

end Message

/-- Reads into a body in place. Nothing is put back if that fails. -/
def Body.readInPlace [Source σ] (r : Registry D) (b : Body D) (source : σ) :
    Except DecodeError Unit × Body D × σ :=
  (b.fill r (Message.filling r (Source.available source)) maxNesting).run b source

end Groupcast
