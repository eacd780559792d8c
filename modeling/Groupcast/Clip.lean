import Groupcast.Octets
import Groupcast.Window

/-!
# Clipping a sequence of writes to a window

A clip stands between a writer and its sink. It counts every byte written and passes on those whose
position lies in its window, so one window of an encoding is produced without keeping the rest.
Positions are 64-bit: they stop at the largest one.
-/

namespace Groupcast

/-- The largest 64-bit position. -/
def maxPosition : Nat := UInt64.size - 1

/-- The state of a clip. -/
structure Clip where
  /-- The first position passed on. -/
  offset : Nat
  /-- The first position past the window. -/
  stop : Nat
  /-- Bytes written so far. -/
  position : Nat
  /-- Bytes passed on so far. -/
  forwarded : Nat
deriving DecidableEq, Repr

namespace Clip

/-- A clip to a window, before any write. -/
def ofWindow (w : Window) : Clip :=
  ⟨w.offset, min w.stop maxPosition, 0, 0⟩

/-- The part of the next write that lies in the window. -/
def kept (c : Clip) (piece : Bytes) : Bytes :=
  (piece.drop (c.offset - c.position)).take (c.stop - max c.offset c.position)

/-- The clip after a write. -/
def advance (c : Clip) (piece : Bytes) : Clip :=
  { c with
    position := min (c.position + piece.length) maxPosition
    forwarded := c.forwarded + (c.kept piece).length }

/-- What one write becomes: a write of the part in the window, or none if that is empty. -/
def write (c : Clip) (piece : Bytes) : Clip × Option Bytes :=
  let part := c.kept piece
  (c.advance piece, if part.isEmpty then none else some part)

/-- What a sequence of writes becomes. -/
def writeAll : Clip → List Bytes → Clip × List Bytes
  | c, [] => (c, [])
  | c, piece :: pieces =>
    let (c, part) := c.write piece
    let (c, parts) := c.writeAll pieces
    (c, part.toList ++ parts)

/-- One write through a stack of clips, the outermost first: each passes what it keeps to the
next. The result holds what reaches the sink, if anything does. -/
def writeThrough : List Clip → Bytes → List Clip × Option Bytes
  | [], piece => ([], some piece)
  | c :: inner, piece =>
    match c.write piece with
    | (c, none) => (c :: inner, none)
    | (c, some part) =>
      let (inner, reached) := writeThrough inner part
      (c :: inner, reached)

/-- A sequence of writes through a stack of clips: what reaches the sink, the outermost clip after
each write, and the clips at the end. -/
def writeAllThrough : List Clip → List Bytes → List Bytes × List Clip × List Clip
  | clips, [] => ([], [], clips)
  | clips, piece :: pieces =>
    let (clips, reached) := writeThrough clips piece
    let (parts, outermost, last) := writeAllThrough clips pieces
    (reached.toList ++ parts, clips.head?.toList ++ outermost, last)

end Clip

end Groupcast
