import Groupcast.Error
import Groupcast.Octets
import Groupcast.Clip

/-!
# Emissions

What writing a value does to a sink: the pieces written, one per call, and whether writing broke
off with an error. Emissions are joined with `++`; nothing follows a failure, and the pieces
before it stay.
-/

namespace Groupcast

/-- The writes of an encoder, in order, and the error that ended them, if any. -/
structure Emission where
  pieces : List Bytes
  failure : Option EncodeError
deriving DecidableEq, Repr

namespace Emission

/-- No writes. -/
def empty : Emission := ⟨[], none⟩

/-- Successful writes. -/
def ofPieces (pieces : List Bytes) : Emission := ⟨pieces, none⟩

/-- A single write. -/
def piece (bytes : Bytes) : Emission := ⟨[bytes], none⟩

def fail (error : EncodeError) : Emission := ⟨[], some error⟩

/-- The writes of `a`, and after them those of `b` unless `a` failed. -/
def append (a b : Emission) : Emission :=
  match a.failure with
  | some _ => a
  | none => ⟨a.pieces ++ b.pieces, b.failure⟩

instance : Append Emission := ⟨append⟩

/-- Emissions one after another, up to the first failure. -/
def concat (es : List Emission) : Emission :=
  es.foldr (· ++ ·) empty

/-- Everything written, before a failure too. -/
def bytes (e : Emission) : Bytes :=
  e.pieces.flatten

/-- The bytes of a writing that succeeded. -/
def result (e : Emission) : Except EncodeError Bytes :=
  match e.failure with
  | none => .ok e.bytes
  | some error => .error error

/-- The part of an emission that lies in a window. -/
def clip (w : Window) (e : Emission) : Emission :=
  ⟨((Clip.ofWindow w).writeAll e.pieces).2, e.failure⟩

/-- The part of an emission that lies in a window, which must be as long as the window. An error of
the emission itself comes first. -/
def window (w : Window) (e : Emission) : Emission :=
  let (clip, pieces) := (Clip.ofWindow w).writeAll e.pieces
  match e.failure with
  | some error => ⟨pieces, some error⟩
  | none =>
    if clip.forwarded = w.length then ⟨pieces, none⟩
    else ⟨pieces, some (.windowOutOfRange w clip.forwarded)⟩

/-! ## Fields -/

def byte (b : UInt8) : Emission := piece [b]

def flag (b : Bool) : Emission := byte (if b then 1 else 0)

def u16 (n : UInt16) : Emission := piece (Bytes.bigEndian 2 n.toNat)

def u32 (n : UInt32) : Emission := piece (Bytes.bigEndian 4 n.toNat)

/-- The largest length that a 32-bit length field holds. -/
def maxLength : Nat := 0x7fffffff

/-- A length in a signed 32-bit field. -/
def length (n : Nat) : Emission :=
  if n ≤ maxLength then piece (Bytes.bigEndian 4 n) else fail (.lengthOverflow n)

/-- The length -1, which stands for a missing value. -/
def absent : Emission := piece (Bytes.bigEndian 4 (UInt32.size - 1))

/-! ## Laws -/

theorem append_def (a b : Emission) : a ++ b = a.append b := rfl

@[simp] theorem empty_append (e : Emission) : empty ++ e = e := rfl

@[simp] theorem append_empty (e : Emission) : e ++ empty = e := by
  obtain ⟨pieces, failure⟩ := e
  cases failure <;> simp [append_def, append, empty]

theorem append_assoc (a b c : Emission) : a ++ b ++ c = a ++ (b ++ c) := by
  obtain ⟨pieces, failure⟩ := a
  cases failure with
  | some error => rfl
  | none =>
    obtain ⟨more, failure⟩ := b
    cases failure <;> simp [append_def, append, List.append_assoc]

end Emission

end Groupcast
