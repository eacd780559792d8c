import Mathlib.Algebra.GroupWithZero.Nat
import Groupcast.Octets

/-!
# Numbers that are read back

A number that was spelled in a fixed width is read back, reduced to the width.
-/

namespace Groupcast.Bytes

/-- Reading what was written gives the number back, reduced to the width. -/
theorem ofBigEndian_bigEndian (width n : Nat) :
    ofBigEndian (bigEndian width n) = n % 256 ^ width := by
  induction width generalizing n with
  | zero => simp [bigEndian, ofBigEndian, Nat.mod_one]
  | succ width ih =>
    calc ofBigEndian (bigEndian (width + 1) n)
        = n / 256 % 256 ^ width * 256 + n % 256 := by
          simp [bigEndian, ofBigEndian_append_singleton, ih]
      _ = n % (256 * 256 ^ width) := by rw [Nat.mod_mul]; omega
      _ = n % 256 ^ (width + 1) := by rw [Nat.pow_succ']

/-- Reading what was written gives the number back when it fits the width. -/
theorem ofBigEndian_bigEndian_of_lt {width n : Nat} (hfits : n < 256 ^ width) :
    ofBigEndian (bigEndian width n) = n := by
  rw [ofBigEndian_bigEndian, Nat.mod_eq_of_lt hfits]

end Groupcast.Bytes
