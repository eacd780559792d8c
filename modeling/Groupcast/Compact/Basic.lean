import Groupcast.Compact.Fault

/-!
# The compact encoding

A form for values that come without a wire format of their own. It is driven by the shape of the
value, which is not itself written:

* bytes stand for themselves; wider integers below 251 take one byte, larger ones a marker byte and
  then the fewest of 2, 4, 8 or 16 bytes that hold them, least significant first;
* signed integers are folded into unsigned ones (0, -1, 1, -2, …) first;
* text and lists start with their length, an optional value with a byte 0 or 1.

`encode` writes a value and `decode` reads one and leaves what follows it. A reader also accepts
integers in a longer form than needed.
-/

namespace Groupcast.Compact

/-- The shape of a value. -/
inductive Shape where
  | unsigned (width : Width)
  | signed (width : Width)
  | boolean
  | character
  | text
  | bytes
  | list (element : Shape)
  /-- A value that may be absent; the name is shown when its tag is neither 0 nor 1. -/
  | optional (typeName : String) (element : Shape)
  | pair (first second : Shape)

/-- The values of a shape. -/
@[reducible] def Shape.Value : Shape → Type
  | .unsigned w => BitVec w.bits
  | .signed w => BitVec w.bits
  | .boolean => Bool
  | .character => Char
  | .text => String
  | .bytes => Bytes
  | .list s => List s.Value
  | .optional _ s => Option s.Value
  | .pair a b => a.Value × b.Value

/-! ## Integers -/

/-- The largest integer that is its own marker. -/
def lastSingle : UInt8 := 250

/-- The marker byte of a width. Single bytes have none. -/
def Width.marker? : Width → Option UInt8
  | .w8 => none
  | .w16 => some 0xfb
  | .w32 => some 0xfc
  | .w64 => some 0xfd
  | .w128 => some 0xfe

/-- The width that a marker byte announces. -/
def Width.ofMarker? (marker : UInt8) : Option Width :=
  [Width.w16, .w32, .w64, .w128].find? (·.marker? = some marker)

/-- An integer in the fewest bytes. -/
def spell (n : Nat) : Bytes :=
  if n ≤ lastSingle.toNat then [UInt8.ofNat n]
  else if n < UInt16.size then 0xfb :: Bytes.littleEndian 2 n
  else if n < UInt32.size then 0xfc :: Bytes.littleEndian 4 n
  else if n < UInt64.size then 0xfd :: Bytes.littleEndian 8 n
  else 0xfe :: Bytes.littleEndian 16 n

/-- Folds the integers into the naturals, by distance from zero. -/
def fold (z : Int) : Nat :=
  if 0 ≤ z then 2 * z.toNat else 2 * (-z).toNat - 1

/-- Undoes `fold`. -/
def unfold (n : Nat) : Int :=
  if n % 2 = 0 then (n / 2 : Nat) else -((n / 2 : Nat) : Int) - 1

/-! ## Writing -/

/-- The compact form of a value. -/
def encode : (s : Shape) → s.Value → Bytes
  | .unsigned .w8, n => [UInt8.ofBitVec n]
  | .unsigned _, n => spell n.toNat
  | .signed .w8, n => [UInt8.ofBitVec n]
  | .signed _, n => spell (fold n.toInt)
  | .boolean, b => [if b then 1 else 0]
  | .character, c => Utf8.encode [c]
  | .text, t => let bytes := Utf8.ofString t; spell bytes.length ++ bytes
  | .bytes, bytes => spell (List.length bytes) ++ bytes
  | .list s, vs => spell (List.length vs) ++ List.flatMap (encode s) vs
  | .optional _ _, none => [0]
  | .optional _ s, some v => 1 :: encode s v
  | .pair a b, (v, w) => encode a v ++ encode b w

/-! ## Reading -/

/-- A reader of compact forms: it takes bytes from the front of its input. -/
abbrev Decoder := StateT Bytes (Except DecodeFault)

namespace Decoder

/-- The next `n` bytes. -/
def take (n : Nat) : Decoder Bytes := fun input =>
  match input.split? n with
  | some (front, rest) => .ok (front, rest)
  | none => .error (.unexpectedEnd (n - input.length))

def byte : Decoder UInt8 := do
  return (← take 1).headD 0

/-- The type named when an integer is too wide or its marker is unknown. With a whole integer at
hand, a 64-bit reader names the 32-bit type and a 128-bit reader the type of sizes. -/
def expectedType (w : Width) (atHand : Nat) : IntegerType :=
  if atHand ≤ w.bytes then .unsigned w
  else match w with
    | .w64 => .unsigned .w32
    | .w128 => .unsignedSize
    | _ => .unsigned w

/-- An integer wider than a byte, in any form that fits the width. -/
def natural (w : Width) : Decoder Nat := do
  let expected := expectedType w (← get).length
  let marker ← byte
  if marker ≤ lastSingle then
    return marker.toNat
  match Width.ofMarker? marker with
  | none => throw (.integerType expected .reserved)
  | some found =>
    if found.bytes ≤ w.bytes then
      return Bytes.ofLittleEndian (← take found.bytes)
    else
      throw (.integerType expected (.unsigned found))

/-- Runs a reader, showing its faults as those of a signed type. -/
def withSign (read : Decoder α) : Decoder α := fun input =>
  (read input).mapError DecodeFault.withSign

/-- A value read `n` times, given the values read before in reverse. -/
def repeated (read : Decoder α) : Nat → List α → Decoder (List α)
  | 0, done => pure done.reverse
  | n + 1, done => do repeated read n ((← read) :: done)

/-- Bytes behind their length. -/
def bytes : Decoder Bytes := do
  take (← natural .w64)

def boolean : Decoder Bool := do
  match ← byte with
  | 0 => return false
  | 1 => return true
  | other => throw (.boolean other)

def character : Decoder Char := do
  let first ← byte
  let width := Utf8.width first
  if width = 0 then throw (.character [first, 0, 0, 0])
  let sequence := first :: (← take (width - 1))
  match Utf8.decode sequence with
  | .ok (c :: _) => return c
  | _ => throw (.character (sequence.rightpad 4 0))

def text : Decoder String := do
  match Utf8.toString (← bytes) with
  | .ok t => return t
  | .error fault => throw (.text fault)

end Decoder

/-- Reads a value of the given shape. -/
def decode : (s : Shape) → Decoder s.Value
  | .unsigned .w8 => do return (← Decoder.byte).toBitVec
  | .unsigned w => do return BitVec.ofNat w.bits (← Decoder.natural w)
  | .signed .w8 => do return (← Decoder.byte).toBitVec
  | .signed w => do return BitVec.ofInt w.bits (unfold (← Decoder.withSign (Decoder.natural w)))
  | .boolean => Decoder.boolean
  | .character => Decoder.character
  | .text => Decoder.text
  | .bytes => Decoder.bytes
  | .list s => do Decoder.repeated (decode s) (← Decoder.natural .w64) []
  | .optional name s => do
    match ← Decoder.byte with
    | 0 => return none
    | 1 => return some (← decode s)
    | other => throw (.alternative name 1 other.toNat)
  | .pair a b => do return (← decode a, ← decode b)

/-- The value at the front of a byte string; what follows it is ignored. -/
def decodeFront (s : Shape) (bytes : Bytes) : Except DecodeFault s.Value :=
  (decode s bytes).map Prod.fst

end Groupcast.Compact
