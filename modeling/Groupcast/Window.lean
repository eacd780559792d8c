/-!
# Windows of a byte string

A window is a range of positions. `Window.tile` cuts a range into consecutive windows of bounded
length, all but the last as long as the bound.
-/

namespace Groupcast

/-- The positions `[offset, offset + length)`. -/
structure Window where
  offset : Nat
  length : Nat
deriving DecidableEq, Repr

namespace Window

/-- The first position past the window. -/
def stop (w : Window) : Nat :=
  w.offset + w.length

def isEmpty (w : Window) : Bool :=
  w.length == 0

/-- The part of a list that lies in the window. -/
def cut (w : Window) (items : List α) : List α :=
  (items.drop w.offset).take w.length

/-- How many windows of at most `most` positions cover `total` positions. -/
def count (total most : Nat) : Nat :=
  (total + most - 1) / most

/-- Consecutive windows of at most `most` positions that cover `[base, base + total)`. -/
def tile (base total most : Nat) : List Window :=
  (List.range (count total most)).map fun i => ⟨base + i * most, min most (total - i * most)⟩

@[simp] theorem length_tile (base total most : Nat) :
    (tile base total most).length = count total most := by
  simp [tile]

end Window

end Groupcast
