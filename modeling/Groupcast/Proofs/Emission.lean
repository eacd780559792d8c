import Groupcast.Emission

/-!
# What a writing yields

`Emission.result` gives the bytes of a writing that succeeded. The lemmas here take a successful
writing apart: a writing of two parts succeeds when both do, and its bytes are theirs in a row.
-/

namespace Groupcast

namespace Emission

/-- A writing succeeds with its bytes exactly when nothing failed. -/
theorem result_eq_ok {e : Emission} {w : Bytes} :
    e.result = .ok w ↔ e.failure = none ∧ e.bytes = w := by
  unfold result
  cases h : e.failure with
  | none => simp
  | some error => simp

/-- A writing fails with the error that ended it. -/
theorem result_eq_error {e : Emission} {error : EncodeError} :
    e.result = .error error ↔ e.failure = some error := by
  unfold result
  cases h : e.failure with
  | none => simp
  | some found => simp

/-- Two writings in a row fail as the first of them that does. -/
theorem failure_append (a b : Emission) : (a ++ b).failure = a.failure.or b.failure := by
  rcases a with ⟨pieces, failure⟩
  cases failure <;> rfl

/-- Two writings in a row succeed when both do. -/
theorem result_append_eq_ok {a b : Emission} {w : Bytes} :
    (a ++ b).result = .ok w ↔ ∃ u v, a.result = .ok u ∧ b.result = .ok v ∧ w = u ++ v := by
  rcases a with ⟨pieces, failure⟩
  simp only [result_eq_ok, append_def, append, bytes]
  cases failure with
  | some error => simp
  | none =>
    -- The first part did not fail, so the second decides.
    constructor
    · rintro ⟨hb, rfl⟩
      exact ⟨pieces.flatten, b.pieces.flatten, ⟨rfl, rfl⟩, ⟨hb, rfl⟩, by simp⟩
    · rintro ⟨u, v, ⟨-, rfl⟩, ⟨hb, rfl⟩, rfl⟩
      exact ⟨hb, by simp⟩

/-- After a writing that succeeds, the rest decides. -/
theorem result_append_eq_ok_of_ok {a b : Emission} {u w : Bytes} (ha : a.result = .ok u) :
    (a ++ b).result = .ok w ↔ ∃ v, b.result = .ok v ∧ w = u ++ v := by
  rw [result_append_eq_ok]
  constructor
  · rintro ⟨u', v, ha', hb, rfl⟩
    rw [ha] at ha'
    cases ha'
    exact ⟨v, hb, rfl⟩
  · rintro ⟨v, hb, rfl⟩
    exact ⟨u, v, ha, hb, rfl⟩

/-- After a writing that succeeds, an error of the rest is that of both. -/
theorem result_append_of_ok_of_error {a b : Emission} {u : Bytes} {error : EncodeError}
    (ha : a.result = .ok u) (hb : b.result = .error error) : (a ++ b).result = .error error := by
  rw [result_eq_error] at hb ⊢
  rw [append_def, append, (result_eq_ok.mp ha).1]
  exact hb

@[simp] theorem result_empty : empty.result = .ok [] := rfl

@[simp] theorem result_ofPieces (pieces : List Bytes) :
    (ofPieces pieces).result = .ok pieces.flatten := rfl

@[simp] theorem result_piece (w : Bytes) : (piece w).result = .ok w := by
  simp [result, piece, bytes]

@[simp] theorem result_fail (error : EncodeError) : (fail error).result = .error error := rfl

@[simp] theorem result_byte (b : UInt8) : (byte b).result = .ok [b] := rfl

@[simp] theorem result_flag (b : Bool) : (flag b).result = .ok [if b then 1 else 0] := rfl

@[simp] theorem result_u16 (n : UInt16) :
    (u16 n).result = .ok (Bytes.bigEndian 2 n.toNat) := result_piece _

@[simp] theorem result_u32 (n : UInt32) :
    (u32 n).result = .ok (Bytes.bigEndian 4 n.toNat) := result_piece _

@[simp] theorem result_absent :
    absent.result = .ok (Bytes.bigEndian 4 (UInt32.size - 1)) := result_piece _

theorem result_absent_eq_ok {w : Bytes} :
    absent.result = .ok w ↔ w = Bytes.bigEndian 4 (UInt32.size - 1) := by
  rw [result_absent]
  constructor
  · intro h
    exact (Except.ok.inj h).symm
  · rintro rfl
    rfl

/-- A length can be written when it fits a signed 32-bit field. -/
theorem result_length_eq_ok {n : Nat} {w : Bytes} :
    (length n).result = .ok w ↔ n ≤ maxLength ∧ w = Bytes.bigEndian 4 n := by
  unfold length
  by_cases h : n ≤ maxLength
  · simp [h, eq_comm]
  · simp [h]

/-- What is written behind its length succeeds when the length fits its field. -/
theorem result_length_append_eq_ok {n : Nat} {a : Emission} {w : Bytes} :
    (length n ++ a).result = .ok w ↔ n ≤ maxLength ∧
      ∃ v, a.result = .ok v ∧ w = Bytes.bigEndian 4 n ++ v := by
  rw [result_append_eq_ok]
  constructor
  · rintro ⟨u, v, hu, hv, rfl⟩
    rcases result_length_eq_ok.mp hu with ⟨hfits, rfl⟩
    exact ⟨hfits, v, hv, rfl⟩
  · rintro ⟨hfits, v, hv, rfl⟩
    exact ⟨_, v, result_length_eq_ok.mpr ⟨hfits, rfl⟩, hv, rfl⟩

/-- A row of writings succeeds when the first does and the others do. -/
theorem result_concat_cons_eq_ok {e : Emission} {es : List Emission} {w : Bytes} :
    (concat (e :: es)).result = .ok w ↔
      ∃ u v, e.result = .ok u ∧ (concat es).result = .ok v ∧ w = u ++ v :=
  result_append_eq_ok

@[simp] theorem concat_nil : concat [] = empty := rfl

end Emission

end Groupcast
