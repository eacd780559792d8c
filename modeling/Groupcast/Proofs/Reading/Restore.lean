import Groupcast.Message.Reader
import Groupcast.Proofs.Emission
import Groupcast.Proofs.Octets

/-!
# Readings that restore values

A reading restores a value from some bytes when, whatever follows these bytes, it ends with the
value and leaves what follows. Readings in a row restore from bytes in a row, so the round trip of a
format follows from those of its fields.

Readings with bounded recursion restore only as long as the input is not too long;
`Reading.RestoresWithin` carries the bound.
-/

namespace Groupcast

namespace Reading

/-- From `bytes` and anything after them the reading gets `value`, and leaves what comes after. -/
def Restores (reading : Reading α) (bytes : Bytes) (value : α) : Prop :=
  ∀ rest, reading.run (bytes ++ rest) = (.ok value, rest)

/-- The same on inputs of at most `limit` bytes. -/
def RestoresWithin (limit : Nat) (reading : Reading α) (bytes : Bytes) (value : α) : Prop :=
  ∀ rest, (bytes ++ rest).length ≤ limit → reading.run (bytes ++ rest) = (.ok value, rest)

theorem map_eq_bind (f : α → β) (reading : Reading α) :
    f <$> reading = reading.bind fun value => done (f value) := rfl

theorem run_map [Source σ] (f : α → β) (reading : Reading α) (source : σ) :
    (f <$> reading).run source = ((reading.run source).1.map f, (reading.run source).2) := by
  rw [map_eq_bind, run_bind]
  rcases reading.run source with ⟨_ | _, rest⟩ <;> rfl

/-! ## Composition -/

theorem Restores.within {reading : Reading α} {bytes : Bytes} {value : α}
    (h : reading.Restores bytes value) (limit : Nat) :
    reading.RestoresWithin limit bytes value :=
  fun rest _ => h rest

theorem restores_done (value : α) : (done value).Restores [] value := fun _ => rfl

theorem Restores.bind {reading : Reading α} {next : α → Reading β} {u v : Bytes} {x : α} {y : β}
    (hx : reading.Restores u x) (hy : (next x).Restores v y) :
    (reading.bind next).Restores (u ++ v) y := by
  intro rest
  rw [List.append_assoc, run_bind, hx (v ++ rest)]
  exact hy rest

theorem RestoresWithin.bind {reading : Reading α} {next : α → Reading β} {u v : Bytes} {x : α}
    {y : β} {limit : Nat} (hx : reading.RestoresWithin limit u x)
    (hy : (next x).RestoresWithin limit v y) :
    (reading.bind next).RestoresWithin limit (u ++ v) y := by
  intro rest hlen
  rw [List.append_assoc] at hlen ⊢
  rw [run_bind, hx (v ++ rest) hlen]
  apply hy rest
  simp only [List.length_append] at hlen ⊢
  omega

theorem Restores.map {reading : Reading α} {u : Bytes} {x : α} (hx : reading.Restores u x)
    (f : α → β) : (f <$> reading).Restores u (f x) := by
  rw [map_eq_bind, ← List.append_nil u]
  exact hx.bind (restores_done (f x))

theorem RestoresWithin.map {reading : Reading α} {u : Bytes} {x : α} {limit : Nat}
    (hx : reading.RestoresWithin limit u x) (f : α → β) :
    (f <$> reading).RestoresWithin limit u (f x) := by
  rw [map_eq_bind, ← List.append_nil u]
  exact hx.bind ((restores_done (f x)).within limit)

/-- What the first field leaves room for: the limit of the rest shrinks by its bytes. -/
theorem Restores.bind_within {reading : Reading α} {next : α → Reading β} {u v : Bytes} {x : α}
    {y : β} {limit : Nat} (hx : reading.Restores u x)
    (hy : (next x).RestoresWithin limit v y) :
    (reading.bind next).RestoresWithin (u.length + limit) (u ++ v) y := by
  intro rest hlen
  rw [List.append_assoc] at hlen ⊢
  rw [run_bind, hx (v ++ rest)]
  apply hy rest
  rw [List.length_append] at hlen
  omega

/-- Values in a row are restored from what is written of them, if each is. Induction on the values
left. -/
theorem RestoresWithin.repeated {reading : Reading β} {limit : Nat} {emit : α → Emission}
    {read : α → β} {items : List α} (hitems : ∀ item ∈ items, ∀ w, (emit item).result = .ok w →
      reading.RestoresWithin limit w (read item)) (before : List β) {w : Bytes}
    (h : (Emission.concat (items.map emit)).result = .ok w) :
    (reading.repeated items.length before).RestoresWithin limit w
      (before.reverse ++ items.map read) := by
  induction items generalizing before w with
  | nil =>
    obtain rfl : [] = w := by simpa using h
    rw [List.map_nil, List.append_nil]
    exact (restores_done _).within limit
  | cons item items ih =>
    rcases Emission.result_concat_cons_eq_ok.mp h with ⟨u, v, hu, hv, rfl⟩
    have hfirst : reading.RestoresWithin limit u (read item) := hitems item List.mem_cons_self u hu
    have hrest := ih (fun item hmem => hitems item (List.mem_cons_of_mem _ hmem))
      (read item :: before) hv
    rw [List.reverse_cons, List.append_assoc, List.singleton_append] at hrest
    exact hfirst.bind hrest

theorem ofExcept_bind_of_ok {result : Except DecodeError α} {value : α} (h : result = .ok value)
    (next : α → Reading β) : (ofExcept result).bind next = next value := by
  rw [h]
  rfl

/-! ## Whole inputs -/

/-- An input holds one value when reading the value leaves nothing of it. -/
theorem runExactly_eq_ok {reading : Reading α} {source : Bytes} {value : α} :
    reading.runExactly source = .ok value ↔ reading.run source = (.ok value, []) := by
  unfold runExactly
  rcases reading.run source with ⟨error | found, rest⟩
  · simp
  · have havailable : Source.available rest = rest.length := rfl
    cases rest with
    | nil => simp [havailable]
    | cons byte rest => simp [havailable]

theorem runExactly_of_error {reading : Reading α} {source rest : Bytes} {error : DecodeError}
    (h : reading.run source = (.error error, rest)) : reading.runExactly source = .error error := by
  unfold runExactly
  rw [h]

/-! ## Fields -/

/-- Bytes in front are taken, and it goes on with them. -/
theorem run_take_append {count : Nat} {taken rest : Bytes} (hcount : taken.length = count)
    (how : Transfer) (next : Bytes → Reading α) :
    (take how count next).run (taken ++ rest) = (next taken).run rest := by
  subst hcount
  have hsplit : Source.split? how taken.length (taken ++ rest) = some (taken, rest) :=
    Bytes.split?_append taken rest
  simp only [run, hsplit]

theorem restores_take (how : Transfer) (bytes : Bytes) :
    (take how bytes.length done).Restores bytes bytes :=
  fun _ => run_take_append rfl how done

theorem restores_bytes (bytes : Bytes) : (Reading.bytes bytes.length).Restores bytes bytes :=
  restores_take .handed bytes

theorem restores_natural (width : Nat) {n : Nat} (hfits : n < 256 ^ width) :
    (natural width).Restores (Bytes.bigEndian width n) n := by
  have h := (restores_take .copied (Bytes.bigEndian width n)).map Bytes.ofBigEndian
  rw [Bytes.length_bigEndian, Bytes.ofBigEndian_bigEndian_of_lt hfits] at h
  exact h

theorem restores_u8 (n : UInt8) : u8.Restores [n] n := by
  have h := (restores_natural 1 n.toNat_lt).map UInt8.ofNat
  rwa [UInt8.ofNat_toNat, show Bytes.bigEndian 1 n.toNat = [n] by simp [Bytes.bigEndian]] at h

theorem restores_u16 (n : UInt16) : u16.Restores (Bytes.bigEndian 2 n.toNat) n := by
  have h := (restores_natural 2 n.toNat_lt).map UInt16.ofNat
  rwa [UInt16.ofNat_toNat] at h

theorem restores_u32 (n : UInt32) : u32.Restores (Bytes.bigEndian 4 n.toNat) n := by
  have h := (restores_natural 4 n.toNat_lt).map UInt32.ofNat
  rwa [UInt32.ofNat_toNat] at h

theorem restores_u64 (n : UInt64) : u64.Restores (Bytes.bigEndian 8 n.toNat) n := by
  have h := (restores_natural 8 n.toNat_lt).map UInt64.ofNat
  rwa [UInt64.ofNat_toNat] at h

theorem restores_flag (b : Bool) : flag.Restores [if b then 1 else 0] b := by
  have h := (restores_u8 (if b then 1 else 0)).map (· != 0)
  cases b <;> exact h

/-! ## Lengths -/

theorem restores_i32 {n : Nat} (hfits : n < UInt32.size) :
    i32.Restores (Bytes.bigEndian 4 n) (Int32.ofNat n) :=
  (restores_natural 4 (by omega)).map Int32.ofNat

theorem lt_size_of_fits {n : Nat} (hfits : n ≤ Emission.maxLength) : n < UInt32.size :=
  Nat.lt_of_le_of_lt hfits (by decide)

theorem toInt_ofNat_of_fits {n : Nat} (hfits : n ≤ Emission.maxLength) :
    (Int32.ofNat n).toInt = n :=
  Int32.toInt_ofNat_of_lt (by unfold Emission.maxLength at hfits; omega)

theorem ofNat_nonneg_of_fits {n : Nat} (hfits : n ≤ Emission.maxLength) : 0 ≤ Int32.ofNat n := by
  rw [Int32.le_iff_toInt_le, toInt_ofNat_of_fits hfits]
  simp

/-- A length that fits is not mistaken for the missing one. -/
theorem ofNat_ne_absent_of_fits {n : Nat} (hfits : n ≤ Emission.maxLength) :
    Int32.ofNat n ≠ -1 := by
  intro h
  have hint := toInt_ofNat_of_fits hfits
  have habsent : (-1 : Int32).toInt = -1 := by decide
  -- The number of the field is not negative, that of the missing value is.
  rw [h, habsent] at hint
  omega

theorem restores_length {n : Nat} (hfits : n ≤ Emission.maxLength) :
    length.Restores (Bytes.bigEndian 4 n) n := by
  have hread : i32.Restores (Bytes.bigEndian 4 n) (Int32.ofNat n) :=
    restores_i32 (lt_size_of_fits hfits)
  rw [← List.append_nil (Bytes.bigEndian 4 n)]
  refine hread.bind ?_
  simp only [ofNat_nonneg_of_fits hfits, if_true, toInt_ofNat_of_fits hfits, Int.toNat_natCast]
  exact restores_done n

theorem restores_optionalLength {n : Nat} (hfits : n ≤ Emission.maxLength) :
    optionalLength.Restores (Bytes.bigEndian 4 n) (some n) := by
  have hread : i32.Restores (Bytes.bigEndian 4 n) (Int32.ofNat n) :=
    restores_i32 (lt_size_of_fits hfits)
  rw [← List.append_nil (Bytes.bigEndian 4 n)]
  refine hread.bind ?_
  simp only [ofNat_ne_absent_of_fits hfits, if_false, ofNat_nonneg_of_fits hfits, if_true,
    toInt_ofNat_of_fits hfits, Int.toNat_natCast]
  exact restores_done (some n)

theorem restores_optionalLength_absent :
    optionalLength.Restores (Bytes.bigEndian 4 (UInt32.size - 1)) none := by
  have hread := restores_i32 (n := UInt32.size - 1) (by decide)
  rw [← List.append_nil (Bytes.bigEndian 4 (UInt32.size - 1))]
  refine hread.bind ?_
  have habsent : Int32.ofNat (UInt32.size - 1) = -1 := by decide
  simp only [habsent, if_true]
  exact restores_done none

end Reading

end Groupcast
