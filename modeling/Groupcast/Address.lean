import Groupcast.Emission
import Groupcast.Reading
import Groupcast.Text.Hex

/-!
# Addresses

The identity of a group member: a 128-bit number that messages only carry and compare.
-/

namespace Groupcast

structure Address where
  value : BitVec 128
deriving DecidableEq

namespace Address

def ofNat (n : Nat) : Address := ⟨BitVec.ofNat 128 n⟩

def toNat (a : Address) : Nat := a.value.toNat

instance : Ord Address := ⟨fun a b => compare a.toNat b.toNat⟩

/-- The number in 32 hexadecimal digits. -/
def text (a : Address) : String :=
  Hex.ofNat 32 a.toNat

/-- The address that some hexadecimal digits spell. -/
def ofText? (text : String) : Option Address :=
  (Hex.toNat? text).map ofNat

/-- Bytes that an optional address takes on the wire. -/
def wireSize : Option Address → Nat
  | none => 1
  | some _ => 1 + 16

/-- A flag that says whether there is an address, and the address. -/
def emit : Option Address → Emission
  | none => Emission.flag false
  | some a => Emission.flag true ++ Emission.piece (Bytes.bigEndian 16 a.toNat)

/-- An optional address. -/
def reading : Reading (Option Address) := do
  if ← Reading.flag then return some (ofNat (← Reading.natural 16)) else return none

end Address

end Groupcast
