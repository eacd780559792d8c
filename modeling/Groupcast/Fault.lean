/-!
# Faults

An error is told to the caller; a fault stops the program. Sums are computed in 64-bit words, and a
program is built so that it stops at a sum that is no word or so that it goes on with what is left
of it. Room for bytes is asked for ahead, and there is never room for more than `maxRoom` of them.
-/

namespace Groupcast

/-- What stops a program. -/
inductive Fault where
  /-- A sum that is no word. -/
  | overflow
  /-- Room for more bytes than there can be room for. -/
  | noRoom
  /-- An advance past the end of a chain. -/
  | overrun
  /-- A batch without fragments. -/
  | emptyBatch
  /-- A loop that gets nowhere. -/
  | stuck
deriving DecidableEq, Repr

/-- The text that a fault shows; a loop that gets nowhere shows none. -/
def Fault.message : Fault → String
  | overflow => "attempt to add with overflow"
  | noRoom => "capacity overflow"
  | overrun => "cannot advance past the end of the chain"
  | emptyBatch => "fragment batches must not be empty"
  | stuck => ""

/-- How a program is built. -/
inductive Build where
  /-- It stops at a sum that is no word, and where what it asserts does not hold. -/
  | checked
  /-- The low 64 bits of a sum stay, and nothing is asserted. -/
  | unchecked
deriving DecidableEq, Repr

namespace Build

/-- The word that a number becomes. -/
def word : Build → Nat → Except Fault Nat
  | checked, n => if n < UInt64.size then .ok n else .error .overflow
  | unchecked, n => .ok (n % UInt64.size)

/-- Stops a checked program where something does not hold. -/
def assert (holds : Bool) (fault : Fault) : Build → Except Fault Unit
  | checked => if holds then .ok () else .error fault
  | unchecked => .ok ()

theorem word_of_lt (build : Build) {n : Nat} (h : n < UInt64.size) : build.word n = .ok n := by
  cases build with
  | checked => exact if_pos h
  | unchecked => exact congrArg Except.ok (Nat.mod_eq_of_lt h)

theorem word_checked_of_not_lt {n : Nat} (h : ¬ n < UInt64.size) :
    checked.word n = .error .overflow :=
  if_neg h

/-- What holds stops no program. -/
theorem assert_true (build : Build) (fault : Fault) : build.assert true fault = .ok () := by
  cases build <;> rfl

end Build

/-- The largest number of bytes for which there can be room. -/
def maxRoom : Nat := 0x7fffffffffffffff

/-- Makes room for some bytes. -/
def makeRoom (size : Nat) : Except Fault Unit :=
  if size ≤ maxRoom then .ok () else .error .noRoom

theorem makeRoom_of_le {size : Nat} (h : size ≤ maxRoom) : makeRoom size = .ok () :=
  if_pos h

theorem makeRoom_of_lt {size : Nat} (h : maxRoom < size) : makeRoom size = .error .noRoom :=
  if_neg (Nat.not_le.mpr h)

end Groupcast
