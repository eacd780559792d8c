import Groupcast.Proofs.Reading.Congruence
import Groupcast.Proofs.Reading.Restore

/-!
# Spellings

What a reading takes is all but determined by what it gets. Bytes are kept as they are, and a number
of fixed width has one spelling. Only a truth value has several: every byte but 0 is true, and 1 is
what a writer writes. `Reading.Respells` says of some bytes that they spell what a reading takes,
with 1 for such bytes, and `Reading.Plain` that there is nothing to respell.
-/

namespace Groupcast

/-- Whether a byte is taken as a truth value: all that comes of it is whether it is 0. -/
def TakenAsFlag {γ : Type} (next : Bytes → γ) : Prop :=
  ∃ given : Bool → γ, ∀ byte : UInt8, next [byte] = given (byte != 0)

/-- What may be written for bytes that were taken: the same bytes, or 1 for a byte that is true. -/
def SpelledFor {γ : Type} (next : Bytes → γ) (taken spelled : Bytes) : Prop :=
  spelled = taken ∨ (TakenAsFlag next ∧ spelled = [1] ∧ ∃ byte, byte ≠ 0 ∧ taken = [byte])

theorem TakenAsFlag.comp {γ δ : Type} {next : Bytes → γ} (h : TakenAsFlag next) (f : γ → δ) :
    TakenAsFlag fun bytes => f (next bytes) := by
  rcases h with ⟨given, hgiven⟩
  exact ⟨fun b => f (given b), fun byte => congrArg f (hgiven byte)⟩

section SpelledFor

variable {γ : Type} {next : Bytes → γ} {taken spelled : Bytes} (h : SpelledFor next taken spelled)

include h

theorem SpelledFor.comp {δ : Type} (f : γ → δ) :
    SpelledFor (fun bytes => f (next bytes)) taken spelled :=
  h.imp_right fun ⟨hflag, hbytes⟩ => ⟨hflag.comp f, hbytes⟩

theorem SpelledFor.length_eq : spelled.length = taken.length := by
  rcases h with rfl | ⟨-, rfl, byte, -, rfl⟩
  · rfl
  · rfl

/-- If a truth value is 0 or 1, it is written as it was. -/
theorem SpelledFor.eq_of_plain
    (hplain : ∀ byte, taken = [byte] → TakenAsFlag next → byte = 0 ∨ byte = 1) :
    spelled = taken := by
  rcases h with rfl | ⟨hflag, rfl, byte, hbyte, rfl⟩
  · rfl
  · rcases hplain byte rfl hflag with rfl | rfl
    · exact absurd rfl hbyte
    · rfl

end SpelledFor

namespace Reading

/-! ## Readings that succeed -/

section Run

variable {α β : Type} {source rest : Bytes}

theorem length_le_of_run {a : Reading α} {outcome : Except DecodeError α}
    (h : a.run source = (outcome, rest)) : rest.length ≤ source.length := by
  have hle := length_run_le a source
  rwa [h] at hle

theorem run_take_eq_ok {how : Transfer} {count : Nat} {next : Bytes → Reading α} {value : α}
    (h : (take how count next).run source = (.ok value, rest)) :
    ∃ taken mid, taken.length = count ∧ source = taken ++ mid ∧
      (next taken).run mid = (.ok value, rest) := by
  have hsplit : Source.split? how count source = Bytes.split? count source := rfl
  rw [Bytes.split?_eq] at hsplit
  by_cases hcount : count ≤ source.length
  · simp only [run, hsplit, hcount, if_true] at h
    exact ⟨_, _, List.length_take_of_le hcount, (List.take_append_drop count source).symm, h⟩
  · simp [run, hsplit, hcount] at h

theorem run_bind_eq_ok {a : Reading α} {f : α → Reading β} {y : β}
    (h : (a.bind f).run source = (.ok y, rest)) :
    ∃ x mid, a.run source = (.ok x, mid) ∧ (f x).run mid = (.ok y, rest) := by
  rw [run_bind] at h
  rcases hfirst : a.run source with ⟨error | x, mid⟩
  · rw [hfirst] at h
    cases h
  · rw [hfirst] at h
    exact ⟨x, mid, rfl, h⟩

theorem run_map_eq_ok {f : α → β} {a : Reading α} {y : β} :
    (f <$> a).run source = (.ok y, rest) ↔ ∃ x, a.run source = (.ok x, rest) ∧ f x = y := by
  rw [map_eq_bind, run_bind]
  rcases a.run source with ⟨error | x, mid⟩
  · simp
  · constructor
    · intro h
      cases h
      exact ⟨x, rfl, rfl⟩
    · rintro ⟨x', hx, rfl⟩
      cases hx
      rfl

theorem run_ofExcept_bind_eq_ok {result : Except DecodeError α} {f : α → Reading β} {y : β}
    (h : ((ofExcept result).bind f).run source = (.ok y, rest)) :
    ∃ x, result = .ok x ∧ (f x).run source = (.ok y, rest) := by
  cases result with
  | error error => cases h
  | ok x => exact ⟨x, rfl, h⟩

end Run

/-! ## Respelling -/

/-- Whether some bytes spell what a reading takes from a source. -/
def Respells {α : Type} : Reading α → (source written : Bytes) → Prop
  | done _, _, written => written = []
  | fail _, _, _ => False
  | take _ count next, source, written => ∃ taken rest spelled more, taken.length = count ∧
      source = taken ++ rest ∧ written = spelled ++ more ∧ SpelledFor next taken spelled ∧
        (next taken).Respells rest more
  | ask next, source, written => (next source.length).Respells source written

/-- Whether every byte that a reading takes as a truth value from a source is 0 or 1. -/
def Plain {α : Type} : Reading α → (source : Bytes) → Prop
  | done _, _ => True
  | fail _, _ => True
  | take _ count next, source => ∀ taken rest, taken.length = count → source = taken ++ rest →
      (∀ byte, taken = [byte] → TakenAsFlag next → byte = 0 ∨ byte = 1) ∧ (next taken).Plain rest
  | ask next, source => (next source.length).Plain source

section Respells

variable {α β : Type} {a : Reading α} {f : α → Reading β} {x : α} {source mid rest : Bytes}

/-- A source of zeros and ones has its truth values spelled as they are written. -/
theorem plain_of_le_one (a : Reading α) (h : ∀ byte ∈ source, byte = 0 ∨ byte = 1) :
    a.Plain source := by
  induction a generalizing source with
  | done value => trivial
  | fail error => trivial
  | take how count next ih =>
    rintro taken rest - rfl
    constructor
    · rintro byte rfl -
      exact h byte (List.mem_append_left rest List.mem_cons_self)
    · exact ih taken fun byte hbyte => h byte (List.mem_append_right taken hbyte)
  | ask next ih => exact ih source.length h

/-- If there is nothing to respell in a row of readings, there is nothing in the first of them, nor
in what comes after it. Induction on the first reading. -/
theorem Plain.of_bind (h : (a.bind f).Plain source) :
    a.Plain source ∧ ∀ x mid, a.run source = (.ok x, mid) → (f x).Plain mid := by
  induction a generalizing source with
  | done value =>
    refine ⟨trivial, fun x mid hrun => ?_⟩
    cases hrun
    exact h
  | fail error => exact ⟨trivial, fun x mid hrun => nomatch hrun⟩
  | take how count next ih =>
    refine ⟨fun taken rest hcount hsource => ?_, fun x mid hrun => ?_⟩
    · rcases h taken rest hcount hsource with ⟨hflag, hnext⟩
      exact ⟨fun byte hbyte htaken => hflag byte hbyte (htaken.comp (·.bind f)),
        (ih taken hnext).1⟩
    · rcases run_take_eq_ok hrun with ⟨taken, rest, hcount, hsource, hnext⟩
      exact (ih taken (h taken rest hcount hsource).2).2 x mid hnext
  | ask next ih => exact ih source.length h

/-- Readings in a row are spelled one after the other. Induction on the first reading. -/
theorem Respells.bind {u v : Bytes} (hu : a.Respells source u) (hrun : a.run source = (.ok x, mid))
    (hv : (f x).Respells mid v) : (a.bind f).Respells source (u ++ v) := by
  induction a generalizing source u with
  | done value =>
    obtain rfl : u = [] := hu
    cases hrun
    exact hv
  | fail error => exact hu.elim
  | take how count next ih =>
    rcases hu with ⟨taken, rest, spelled, more, hcount, rfl, rfl, hspelled, hmore⟩
    rw [run_take_append hcount] at hrun
    exact ⟨taken, rest, spelled, more ++ v, hcount, rfl, List.append_assoc _ _ _,
      hspelled.comp (·.bind f), ih taken hmore hrun⟩
  | ask next ih => exact ih source.length hu hrun

theorem respells_done (value : α) (source : Bytes) : (done value).Respells source [] := rfl

theorem Respells.bind_done {u : Bytes} {y : β} (hu : a.Respells source u)
    (hrun : a.run source = (.ok x, mid)) (hf : f x = done y) : (a.bind f).Respells source u := by
  have hnothing : (f x).Respells mid [] := hf ▸ respells_done y mid
  rw [← List.append_nil u]
  exact hu.bind hrun hnothing

theorem Respells.map {u : Bytes} (hu : a.Respells source u) (hrun : a.run source = (.ok x, mid))
    (g : α → β) : (g <$> a).Respells source u :=
  hu.bind_done hrun rfl

/-- A spelling is as long as what was taken, and the same if there is nothing to respell. Induction
on the reading. -/
theorem Respells.exists_taken {written : Bytes} (h : a.Respells source written)
    (hrun : a.run source = (.ok x, rest)) :
    ∃ taken, source = taken ++ rest ∧ written.length = taken.length ∧
      (a.Plain source → written = taken) := by
  induction a generalizing source written with
  | done value =>
    obtain rfl : written = [] := h
    cases hrun
    exact ⟨[], rfl, rfl, fun _ => rfl⟩
  | fail error => exact h.elim
  | take how count next ih =>
    rcases h with ⟨taken, mid, spelled, more, hcount, rfl, rfl, hspelled, hmore⟩
    rw [run_take_append hcount] at hrun
    rcases ih taken hmore hrun with ⟨others, rfl, hlength, hsame⟩
    refine ⟨taken ++ others, (List.append_assoc _ _ _).symm, ?_, fun hplain => ?_⟩
    · rw [List.length_append, List.length_append, hspelled.length_eq, hlength]
    · rcases hplain taken _ hcount rfl with ⟨hflag, hnext⟩
      rw [hspelled.eq_of_plain hflag, hsame hnext]
  | ask next ih => exact ih source.length h hrun

end Respells

/-! ## Fields -/

section Fields

variable {source rest : Bytes}

theorem respells_take {how : Transfer} {count : Nat} {bytes : Bytes}
    (h : (take how count done).run source = (.ok bytes, rest)) :
    bytes.length = count ∧ (take how count done).Respells source bytes := by
  rcases run_take_eq_ok h with ⟨taken, mid, hcount, rfl, hdone⟩
  cases hdone
  exact ⟨hcount, bytes, rest, bytes, [], hcount, rfl, (List.append_nil _).symm, Or.inl rfl, rfl⟩

/-- Bytes are kept as they are. -/
theorem respells_bytes {n : Nat} {bytes : Bytes}
    (h : (Reading.bytes n).run source = (.ok bytes, rest)) :
    bytes.length = n ∧ (Reading.bytes n).Respells source bytes :=
  respells_take h

/-- A number has one spelling of its width. -/
theorem respells_natural {width n : Nat} (h : (natural width).run source = (.ok n, rest)) :
    n < 256 ^ width ∧ (natural width).Respells source (Bytes.bigEndian width n) := by
  rcases run_map_eq_ok.mp h with ⟨bytes, hrun, rfl⟩
  rcases respells_take hrun with ⟨rfl, hbytes⟩
  rw [Bytes.bigEndian_ofBigEndian]
  refine ⟨?_, hbytes.map hrun _⟩
  have hmod := Bytes.ofBigEndian_bigEndian bytes.length (Bytes.ofBigEndian bytes)
  rw [Bytes.bigEndian_ofBigEndian] at hmod
  rw [hmod]
  exact Nat.mod_lt _ (Nat.pow_pos (by decide))

theorem respells_u8 {n : UInt8} (h : u8.run source = (.ok n, rest)) : u8.Respells source [n] := by
  rcases run_map_eq_ok.mp h with ⟨k, hrun, rfl⟩
  have hspelled := (respells_natural hrun).2.map hrun UInt8.ofNat
  rwa [show Bytes.bigEndian 1 k = [UInt8.ofNat k] from rfl] at hspelled

theorem respells_u16 {n : UInt16} (h : u16.run source = (.ok n, rest)) :
    u16.Respells source (Bytes.bigEndian 2 n.toNat) := by
  rcases run_map_eq_ok.mp h with ⟨k, hrun, rfl⟩
  rcases respells_natural hrun with ⟨hk, hspelled⟩
  rw [UInt16.toNat_ofNat_of_lt' hk]
  exact hspelled.map hrun _

theorem respells_u32 {n : UInt32} (h : u32.run source = (.ok n, rest)) :
    u32.Respells source (Bytes.bigEndian 4 n.toNat) := by
  rcases run_map_eq_ok.mp h with ⟨k, hrun, rfl⟩
  rcases respells_natural hrun with ⟨hk, hspelled⟩
  rw [UInt32.toNat_ofNat_of_lt' hk]
  exact hspelled.map hrun _

theorem respells_u64 {n : UInt64} (h : u64.run source = (.ok n, rest)) :
    u64.Respells source (Bytes.bigEndian 8 n.toNat) := by
  rcases run_map_eq_ok.mp h with ⟨k, hrun, rfl⟩
  rcases respells_natural hrun with ⟨hk, hspelled⟩
  rw [UInt64.toNat_ofNat_of_lt' hk]
  exact hspelled.map hrun _

/-- A byte is read off the front. -/
theorem run_u8_eq_ok {n : UInt8} (h : u8.run source = (.ok n, rest)) : source = n :: rest := by
  rcases run_map_eq_ok.mp h with ⟨_, hnumber, rfl⟩
  rcases run_map_eq_ok.mp hnumber with ⟨_, hbytes, rfl⟩
  rcases run_take_eq_ok hbytes with ⟨taken, mid, hcount, rfl, hdone⟩
  cases hdone
  rcases List.length_eq_one_iff.mp hcount with ⟨byte, rfl⟩
  simp [Bytes.ofBigEndian]

theorem takenAsFlag_flag : TakenAsFlag fun bytes =>
    (done (UInt8.ofNat (Bytes.ofBigEndian bytes) != 0) : Reading Bool) :=
  ⟨done, fun byte => by simp [Bytes.ofBigEndian]⟩

/-- A truth value is written as 0 or 1, whatever byte it was. -/
theorem respells_flag {b : Bool} (h : flag.run source = (.ok b, rest)) :
    flag.Respells source [if b then 1 else 0] := by
  rcases run_map_eq_ok.mp h with ⟨byte, hbyte, rfl⟩
  obtain rfl := run_u8_eq_ok hbyte
  refine ⟨[byte], rest, _, [], rfl, rfl, (List.append_nil _).symm, ?_, rfl⟩
  by_cases hzero : byte = 0
  · exact Or.inl (by simp [hzero])
  · exact Or.inr ⟨takenAsFlag_flag, by simp [hzero], byte, hzero, rfl⟩

/-- The spelling of a signed 32-bit number, as an unsigned one. -/
theorem respells_i32 {n : Int32} (h : i32.run source = (.ok n, rest)) :
    ∃ k < UInt32.size, n = Int32.ofNat k ∧ i32.Respells source (Bytes.bigEndian 4 k) := by
  rcases run_map_eq_ok.mp h with ⟨k, hrun, rfl⟩
  rcases respells_natural hrun with ⟨hk, hspelled⟩
  exact ⟨k, hk, rfl, hspelled.map hrun _⟩

/-- What a signed field holds: numbers of the upper half stand for negative ones. -/
theorem toInt_ofNat_of_lt_size {k : Nat} (hk : k < UInt32.size) : (Int32.ofNat k).toInt
    = if k ≤ Emission.maxLength then (k : Int) else (k : Int) - (UInt32.size : Nat) := by
  have hsize : UInt32.size = 4294967296 := rfl
  show (BitVec.ofNat 32 k).toInt = _
  rw [BitVec.toInt, BitVec.toNat_ofNat, hsize, Emission.maxLength]
  split <;> split <;> omega

theorem fits_of_ofNat_nonneg {k : Nat} (hk : k < UInt32.size) (hsign : 0 ≤ Int32.ofNat k) :
    k ≤ Emission.maxLength := by
  refine Nat.le_of_not_lt fun hlarge => ?_
  have hzero : (0 : Int32).toInt = 0 := rfl
  rw [Int32.le_iff_toInt_le, toInt_ofNat_of_lt_size hk, if_neg (Nat.not_le_of_lt hlarge)] at hsign
  omega

/-- The missing length has one spelling. -/
theorem eq_of_ofNat_eq_absent {k : Nat} (hk : k < UInt32.size) (habsent : Int32.ofNat k = -1) :
    k = UInt32.size - 1 := by
  have hint := toInt_ofNat_of_lt_size hk
  have hminus : (-1 : Int32).toInt = -1 := by decide
  rw [habsent, hminus] at hint
  split at hint <;> omega

/-- The spelling of a length, which fits its field when it is not negative. -/
theorem respells_length {n : Nat} (h : length.run source = (.ok n, rest)) :
    n ≤ Emission.maxLength ∧ length.Respells source (Bytes.bigEndian 4 n) := by
  rcases run_bind_eq_ok h with ⟨i, mid, hi, hnext⟩
  rcases respells_i32 hi with ⟨k, hk, rfl, hspelled⟩
  by_cases hsign : 0 ≤ Int32.ofNat k
  · have hfits : k ≤ Emission.maxLength := fits_of_ofNat_nonneg hk hsign
    simp only [hsign, if_true, toInt_ofNat_of_fits hfits, Int.toNat_natCast] at hnext
    cases hnext
    refine ⟨hfits, hspelled.bind_done (y := n) hi ?_⟩
    simp only [hsign, if_true, toInt_ofNat_of_fits hfits, Int.toNat_natCast]
    rfl
  · simp only [hsign, if_false] at hnext
    cases hnext

/-- How a length that may be missing is written. -/
def optionalLengthBytes (n : Option Nat) : Bytes :=
  Bytes.bigEndian 4 (n.getD (UInt32.size - 1))

/-- The spelling of a length that may be missing. -/
theorem respells_optionalLength {n : Option Nat} (h : optionalLength.run source = (.ok n, rest)) :
    (∀ k ∈ n, k ≤ Emission.maxLength) ∧
      optionalLength.Respells source (optionalLengthBytes n) := by
  rcases run_bind_eq_ok h with ⟨i, mid, hi, hnext⟩
  rcases respells_i32 hi with ⟨k, hk, rfl, hspelled⟩
  by_cases habsent : Int32.ofNat k = -1
  · obtain rfl := eq_of_ofNat_eq_absent hk habsent
    simp only [habsent, if_true] at hnext
    cases hnext
    refine ⟨by simp, hspelled.bind_done (y := none) hi ?_⟩
    simp only [habsent, if_true]
    rfl
  · by_cases hsign : 0 ≤ Int32.ofNat k
    · have hfits : k ≤ Emission.maxLength := fits_of_ofNat_nonneg hk hsign
      simp only [habsent, hsign, if_false, if_true, toInt_ofNat_of_fits hfits, Int.toNat_natCast]
        at hnext
      cases hnext
      refine ⟨fun _ hmem => Option.some.inj hmem ▸ hfits,
        hspelled.bind_done (y := some k) hi ?_⟩
      simp only [habsent, hsign, if_false, if_true, toInt_ofNat_of_fits hfits, Int.toNat_natCast]
      rfl
    · simp only [habsent, hsign, if_false] at hnext
      cases hnext

end Fields

end Reading

end Groupcast
