/-!
# Bytes and fixed-width numbers

Everything on the wire is a byte string, and every integer there has a fixed width, its most
significant byte first. `Bytes.bigEndian` spells a number and `Bytes.ofBigEndian` reads it back;
`bigEndian_ofBigEndian` writes back any byte string that was read.
-/

namespace Groupcast

/-- A byte string. -/
abbrev Bytes := List UInt8

namespace Bytes

/-- The low `width` bytes of a number, most significant first. -/
def bigEndian : (width n : Nat) → Bytes
  | 0, _ => []
  | width + 1, n => bigEndian width (n / 256) ++ [UInt8.ofNat n]

/-- The number that a byte string spells, most significant byte first. -/
def ofBigEndian (bytes : Bytes) : Nat :=
  bytes.foldl (fun n byte => n * 256 + byte.toNat) 0

/-- The low `width` bytes of a number, least significant first. -/
def littleEndian (width n : Nat) : Bytes :=
  (bigEndian width n).reverse

/-- The number that a byte string spells, least significant byte first. -/
def ofLittleEndian (bytes : Bytes) : Nat :=
  ofBigEndian bytes.reverse

/-- The first `n` bytes and the rest, when there are that many. -/
def split? (n : Nat) (bytes : Bytes) : Option (Bytes × Bytes) :=
  let front := bytes.take n
  if front.length = n then some (front, bytes.drop n) else none

/-! ## Laws -/

@[simp] theorem length_bigEndian (width n : Nat) : (bigEndian width n).length = width := by
  induction width generalizing n with
  | zero => rfl
  | succ width ih => simp [bigEndian, ih]

theorem ofBigEndian_append_singleton (bytes : Bytes) (byte : UInt8) :
    ofBigEndian (bytes ++ [byte]) = ofBigEndian bytes * 256 + byte.toNat := by
  simp [ofBigEndian, List.foldl_append]

/-- A byte string is what its number is written as, at its own length. -/
theorem bigEndian_ofBigEndian (bytes : Bytes) :
    bigEndian bytes.length (ofBigEndian bytes) = bytes := by
  suffices spelled : ∀ back : Bytes,
      bigEndian back.reverse.length (ofBigEndian back.reverse) = back.reverse by
    simpa using spelled bytes.reverse
  intro back
  induction back with
  | nil => rfl
  | cons byte back ih =>
    have small : byte.toNat < 256 := byte.toNat_lt
    have high : (ofBigEndian back.reverse * 256 + byte.toNat) / 256
        = ofBigEndian back.reverse := by omega
    have low : UInt8.ofNat (ofBigEndian back.reverse * 256 + byte.toNat) = byte := by
      apply UInt8.toNat_inj.mp
      simp only [UInt8.toNat_ofNat']
      omega
    rw [List.reverse_cons, ofBigEndian_append_singleton, List.length_append,
      List.length_singleton, bigEndian, high, ih, low]

theorem split?_eq (n : Nat) (bytes : Bytes) :
    split? n bytes = if n ≤ bytes.length then some (bytes.take n, bytes.drop n) else none := by
  simp only [split?, List.length_take]
  by_cases h : n ≤ bytes.length
  · simp [h]
  · have short : min n bytes.length ≠ n := by omega
    simp [h, short]

/-- Splitting at the length of the front gives front and rest back. -/
@[simp] theorem split?_append (front rest : Bytes) :
    split? front.length (front ++ rest) = some (front, rest) := by
  simp [split?_eq]

end Bytes

end Groupcast
