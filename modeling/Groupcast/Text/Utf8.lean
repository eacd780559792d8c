import Groupcast.Octets

/-!
# UTF-8

Text travels as UTF-8. `Utf8.encode` spells characters and `Utf8.decode` reads them back, refusing
overlong forms, surrogates and values above the last character. A refusal says how much of the
front is good text and how many bytes form the broken sequence.
-/

namespace Groupcast.Utf8

/-- Where a byte string stops being UTF-8. -/
structure Fault where
  /-- Length of the longest front that is text. -/
  validUpTo : Nat
  /-- Bytes of the sequence that can start no character, or `none` if the input ends inside one. -/
  broken : Option Nat
deriving DecidableEq, Repr

/-- The bytes of a text. -/
def encode (chars : List Char) : Bytes :=
  chars.flatMap String.utf8EncodeChar

/-- The bytes of a string. -/
def ofString (text : String) : Bytes :=
  encode text.toList

/-- Length of the sequence that a first byte announces, or 0 if no character starts with it. -/
def width (first : UInt8) : Nat :=
  if first < 0x80 then 1
  else if first < 0xC2 then 0
  else if first < 0xE0 then 2
  else if first < 0xF0 then 3
  else if first < 0xF5 then 4
  else 0

/-- A character of which some bytes have been read. -/
structure Pending where
  /-- Value of the payload bits read so far. -/
  code : Nat
  /-- Bytes read. -/
  seen : Nat
  /-- Bytes still to come. -/
  missing : Nat
  /-- Least next byte that keeps the sequence well formed. -/
  low : UInt8
  /-- Greatest next byte that keeps the sequence well formed. -/
  high : UInt8

/-- The state after a first byte that announces more bytes. The bounds on the second byte shut out
overlong forms, surrogates and values past the last character. -/
def Pending.start (first : UInt8) : Option Pending :=
  match width first with
  | 2 => some ⟨first.toNat - 0xC0, 1, 1, 0x80, 0xBF⟩
  | 3 => some ⟨first.toNat - 0xE0, 1, 2, if first = 0xE0 then 0xA0 else 0x80,
      if first = 0xED then 0x9F else 0xBF⟩
  | 4 => some ⟨first.toNat - 0xF0, 1, 3, if first = 0xF0 then 0x90 else 0x80,
      if first = 0xF4 then 0x8F else 0xBF⟩
  | _ => none

/-- Reads characters, given the length of the text already read and the character begun. -/
def decodeFrom (valid : Nat) : Option Pending → Bytes → Except Fault (List Char)
  | none, [] => .ok []
  | some _, [] => .error ⟨valid, none⟩
  | none, byte :: rest =>
    if byte < 0x80 then (Char.ofNat byte.toNat :: ·) <$> decodeFrom (valid + 1) none rest
    else match Pending.start byte with
      | none => .error ⟨valid, some 1⟩
      | some pending => decodeFrom valid (some pending) rest
  | some pending, byte :: rest =>
    if pending.low ≤ byte ∧ byte ≤ pending.high then
      let code := pending.code * 64 + (byte.toNat - 0x80)
      if pending.missing = 1 then
        (Char.ofNat code :: ·) <$> decodeFrom (valid + pending.seen + 1) none rest
      else
        decodeFrom valid (some ⟨code, pending.seen + 1, pending.missing - 1, 0x80, 0xBF⟩) rest
    else .error ⟨valid, some pending.seen⟩

/-- The characters of a UTF-8 byte string. -/
def decode (bytes : Bytes) : Except Fault (List Char) :=
  decodeFrom 0 none bytes

/-- The string that a UTF-8 byte string spells. -/
def toString (bytes : Bytes) : Except Fault String :=
  String.ofList <$> decode bytes

end Groupcast.Utf8
