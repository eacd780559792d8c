import Groupcast.Emission
import Groupcast.Reading

/-!
# Views of buffers

A view shows a window of a buffer. Views are equal when buffer and window are, not when they show
the same bytes.
-/

namespace Groupcast

/-- The window `[offset, offset + length)` of a buffer. -/
structure View where
  buffer : Bytes
  offset : Nat
  length : Nat
  fits : offset + length ≤ buffer.length
deriving DecidableEq

namespace View

/-- The view of a whole buffer. -/
def whole (buffer : Bytes) : View :=
  ⟨buffer, 0, buffer.length, by simp⟩

/-- The view of nothing. -/
def empty : View := whole []

instance : Inhabited View := ⟨empty⟩

/-- The view of part of a buffer, if the part lies inside it. -/
def slice (buffer : Bytes) (offset length : Nat) : Except RangeError View :=
  if fits : offset + length ≤ buffer.length then .ok ⟨buffer, offset, length, fits⟩
  else .error ⟨offset, length, buffer.length⟩

/-- The bytes shown. -/
def data (v : View) : Bytes :=
  (v.buffer.drop v.offset).take v.length

def isEmpty (v : View) : Bool :=
  v.length == 0

/-- A view of the same bytes that keeps no others: the view itself if it shows its whole buffer. -/
def copy (v : View) : View :=
  if v.offset = 0 ∧ v.length = v.buffer.length then v else whole v.data

/-- Bytes that the view takes on the wire. -/
def wireSize (v : View) : Nat :=
  4 + v.length

/-- The length, then the bytes. -/
def emit (v : View) : Emission :=
  Emission.length v.length ++ Emission.piece v.data

/-- Bytes behind their length, as a whole buffer. -/
def reading : Reading View := do
  return whole (← Reading.bytes (← Reading.length))

@[simp] theorem length_data (v : View) : v.data.length = v.length := by
  have := v.fits
  simp [data]
  omega

@[simp] theorem data_whole (buffer : Bytes) : (whole buffer).data = buffer := by
  simp [data, whole]

end View

end Groupcast
