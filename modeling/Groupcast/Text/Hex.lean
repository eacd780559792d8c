import Groupcast.Octets

/-!
# Hexadecimal text

Numbers and byte strings in hexadecimal, written in lower case and read in either.
-/

namespace Groupcast.Hex

/-- A number in at least `width` digits. -/
def ofNat (width n : Nat) : String :=
  String.ofList ((Nat.toDigits 16 n).leftpad width '0')

/-- A byte string in two digits per byte. -/
def ofBytes (bytes : Bytes) : String :=
  String.ofList (bytes.flatMap fun b => (Nat.toDigits 16 b.toNat).leftpad 2 '0')

/-- The value of a digit. -/
def digit? (c : Char) : Option Nat :=
  if '0' ≤ c ∧ c ≤ '9' then some (c.toNat - '0'.toNat)
  else if 'a' ≤ c ∧ c ≤ 'f' then some (c.toNat - 'a'.toNat + 10)
  else if 'A' ≤ c ∧ c ≤ 'F' then some (c.toNat - 'A'.toNat + 10)
  else none

/-- The number that some digits spell. -/
def toNat? (text : String) : Option Nat :=
  text.toList.foldlM (fun n c => (digit? c).map (16 * n + ·)) 0

/-- The bytes that pairs of digits spell, given those before in reverse. -/
def pairs? (before : Bytes) : List Char → Option Bytes
  | [] => some before.reverse
  | [_] => none
  | high :: low :: rest => do
    pairs? (UInt8.ofNat (16 * (← digit? high) + (← digit? low)) :: before) rest

/-- The byte string that some digits spell. -/
def toBytes? (text : String) : Option Bytes :=
  pairs? [] text.toList

end Groupcast.Hex
