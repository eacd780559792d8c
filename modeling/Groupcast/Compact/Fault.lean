import Groupcast.Text.Utf8
import Groupcast.Text.Quoted

/-!
# Faults of the compact encoding

What can go wrong between a value and its compact form, and how a diagnostic shows it.
-/

namespace Groupcast.Compact

/-- Widths of integers. -/
inductive Width where
  | w8 | w16 | w32 | w64 | w128
deriving DecidableEq, Repr

/-- Bytes of an integer of this width. -/
def Width.bytes : Width → Nat
  | .w8 => 1
  | .w16 => 2
  | .w32 => 4
  | .w64 => 8
  | .w128 => 16

/-- Bits of an integer of this width. -/
def Width.bits (w : Width) : Nat :=
  8 * w.bytes

/-- The type of integer that a reader expects, or that a marker byte announces. -/
inductive IntegerType where
  | unsigned (width : Width)
  | signed (width : Width)
  /-- The type of sizes, which has the width of the machine. -/
  | unsignedSize
  | signedSize
  /-- A marker that announces no type. -/
  | reserved
deriving DecidableEq, Repr

def IntegerType.name : IntegerType → String
  | .unsigned w => s!"U{w.bits}"
  | .signed w => s!"I{w.bits}"
  | .unsignedSize => "Usize"
  | .signedSize => "Isize"
  | .reserved => "Reserved"

/-- The same type of integer, with a sign. -/
def IntegerType.withSign : IntegerType → IntegerType
  | .unsigned w => .signed w
  | .unsignedSize => .signedSize
  | t => t

/-- Why a compact form cannot be read. -/
inductive DecodeFault where
  /-- The input ends this many bytes early. -/
  | unexpectedEnd (additional : Nat)
  | integerType (expected found : IntegerType)
  | boolean (byte : UInt8)
  /-- The four bytes set aside for a character, zero where none was read. -/
  | character (bytes : Bytes)
  | text (fault : Utf8.Fault)
  /-- A tag past the last alternative of a type. -/
  | alternative (typeName : String) (last found : Nat)
deriving DecidableEq, Repr

/-- Why a value has no compact form. -/
inductive EncodeFault where
  | refused (reason : String)
deriving DecidableEq, Repr

/-- A fault of the unsigned form in which a signed integer is written. -/
def DecodeFault.withSign : DecodeFault → DecodeFault
  | .integerType expected found => .integerType expected.withSign found.withSign
  | fault => fault

/-- How the length of a broken sequence is shown. -/
def brokenText : Option Nat → String
  | none => "None"
  | some n => s!"Some({n})"

def DecodeFault.message : DecodeFault → String
  | .unexpectedEnd additional => s!"UnexpectedEnd \x7b additional: {additional} \x7d"
  | .integerType expected found =>
    s!"InvalidIntegerType \x7b expected: {expected.name}, found: {found.name} \x7d"
  | .boolean byte => s!"InvalidBooleanValue({byte.toNat})"
  | .character bytes =>
    let shown := ", ".intercalate (bytes.map fun byte => s!"{byte.toNat}")
    s!"InvalidCharEncoding([{shown}])"
  | .text fault =>
    let valid := fault.validUpTo
    let length := brokenText fault.broken
    s!"Utf8 \x7b inner: Utf8Error \x7b valid_up_to: {valid}, error_len: {length} \x7d \x7d"
  | .alternative typeName last found =>
    let name := Quoted.quote typeName
    let allowed := s!"Range \x7b min: 0, max: {last} \x7d"
    s!"UnexpectedVariant \x7b type_name: {name}, allowed: {allowed}, found: {found} \x7d"

def EncodeFault.message : EncodeFault → String
  | .refused reason => let text := Quoted.quote reason; s!"OtherString({text})"

end Groupcast.Compact
