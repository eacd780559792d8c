import Groupcast.HeaderMap
import Groupcast.Fragment.Tag

/-!
# Fragment sizes

How long the windows are into which messages are split, and under which layer's number fragments
carry their tag. A configuration can be derived from the size of a transport frame.
-/

namespace Groupcast

/-- Bytes that a fragment adds to its window: the kind, an envelope with both addresses and the tag
as its only header, and the length of the window. -/
def fragmentOverhead : Nat :=
  1 + (2 + 1 + 2 * (1 + 16) + 4) + (2 + 2 + FragmentTag.size) + 4

/-- Bytes kept free in a frame for headers that other layers add. -/
def headerAllowance : Nat := 32

/-- How messages are split. -/
structure FragmentConfig where
  /-- The greatest length of a window. -/
  windowLength : Nat
  /-- The layer whose header the tag is. -/
  layer : HeaderId
  windowLength_pos : 0 < windowLength

namespace FragmentConfig

/-- Windows of 60 000 bytes, tagged in layer 36. -/
def standard : FragmentConfig := ⟨60000, 36, by decide⟩

instance : Inhabited FragmentConfig := ⟨standard⟩

/-- The configuration whose fragments fit a frame, if the frame has room for any window. -/
def ofFrame (frame : Nat) (layer : HeaderId) : Option FragmentConfig :=
  let taken := fragmentOverhead + headerAllowance
  if room : taken < frame then some ⟨frame - taken, layer, by omega⟩ else none

/-- The greatest size of a fragment, headers of other layers not counted. -/
def ceiling (c : FragmentConfig) : Nat :=
  c.windowLength + fragmentOverhead

end FragmentConfig

end Groupcast
