import Groupcast.Proofs.Reading.Spelling

/-!
# Exact readings

A reading is exact for a writer when the bytes that it takes are those that are written of what it
gets. Lengths and counts leave no choice of spelling, and bytes are kept as they are, so a format
made of these is read exactly.
-/

namespace Groupcast.Reading

variable {α : Type}

/-- Whatever the reading gets is good and can be written, and the bytes taken are what is written of
it. -/
def Exact (a : Reading α) (good : α → Prop) (emit : α → Emission) : Prop :=
  ∀ source value rest, a.run source = (.ok value, rest) →
    good value ∧ ∃ w, (emit value).result = .ok w ∧ source = w ++ rest

/-! ## Fields -/

section Fields

variable {source rest : Bytes}

/-- A single byte might be taken for a truth value, a number of another width is not. -/
theorem plain_natural_bind {width : Nat} (hwidth : width ≠ 1) {f : Nat → Reading α}
    (hnext : ∀ n rest, (f n).Plain rest) (source : Bytes) :
    ((natural width).bind f).Plain source := by
  intro taken rest hcount _
  refine ⟨fun byte hbyte _ => ?_, hnext _ rest⟩
  rw [hbyte, List.length_singleton] at hcount
  exact absurd hcount.symm hwidth

theorem plain_natural_map {width : Nat} (hwidth : width ≠ 1) (f : Nat → α) (source : Bytes) :
    (f <$> natural width).Plain source :=
  plain_natural_bind hwidth (f := fun n => done (f n)) (fun _ _ => trivial) source

/-- What is spelled without choice was written as it is spelled. -/
theorem Respells.eq_append {a : Reading α} {value : α} {written : Bytes}
    (hspelled : a.Respells source written) (hplain : a.Plain source)
    (hrun : a.run source = (.ok value, rest)) : source = written ++ rest := by
  rcases hspelled.exists_taken hrun with ⟨taken, hsource, -, hsame⟩
  rw [hsame hplain]
  exact hsource

theorem run_bytes_eq_ok {n : Nat} {bytes : Bytes}
    (h : (Reading.bytes n).run source = (.ok bytes, rest)) :
    bytes.length = n ∧ source = bytes ++ rest := by
  rcases run_take_eq_ok h with ⟨taken, mid, hcount, hsource, hdone⟩
  cases hdone
  exact ⟨hcount, hsource⟩

theorem run_u16_eq_ok {n : UInt16} (h : u16.run source = (.ok n, rest)) :
    source = Bytes.bigEndian 2 n.toNat ++ rest := by
  have hplain : u16.Plain source := plain_natural_map (by decide) _ source
  exact (respells_u16 h).eq_append hplain h

theorem run_u32_eq_ok {n : UInt32} (h : u32.run source = (.ok n, rest)) :
    source = Bytes.bigEndian 4 n.toNat ++ rest := by
  have hplain : u32.Plain source := plain_natural_map (by decide) _ source
  exact (respells_u32 h).eq_append hplain h

theorem run_length_eq_ok {n : Nat} (h : length.run source = (.ok n, rest)) :
    n ≤ Emission.maxLength ∧ source = Bytes.bigEndian 4 n ++ rest := by
  rcases respells_length h with ⟨hfits, hspelled⟩
  have hnext : ∀ (k : Nat) (rest : Bytes), ((done (Int32.ofNat k)).bind fun n : Int32 =>
      if 0 ≤ n then done n.toInt.toNat else fail (.invalidLength n.toInt)).Plain rest := by
    intro k rest
    rw [done_bind]
    split <;> trivial
  have hplain : length.Plain source := plain_natural_bind (by decide) hnext source
  exact ⟨hfits, hspelled.eq_append hplain h⟩

end Fields

/-! ## Rows -/

/-- Values in a row are read exactly if each is. Induction on how many are left. -/
theorem Exact.repeated {a : Reading α} {good : α → Prop} {emit : α → Emission}
    (ha : a.Exact good emit) (n : Nat) {before : List α} {source rest : Bytes} {values : List α}
    (h : (a.repeated n before).run source = (.ok values, rest)) :
    ∃ more, values = before.reverse ++ more ∧ more.length = n ∧ (∀ value ∈ more, good value) ∧
      ∃ w, (Emission.concat (more.map emit)).result = .ok w ∧ source = w ++ rest := by
  induction n generalizing before source with
  | zero =>
    cases h
    exact ⟨[], (List.append_nil _).symm, rfl, by simp, [], rfl, rfl⟩
  | succ n ih =>
    rcases run_bind_eq_ok h with ⟨value, mid, hfirst, hothers⟩
    rcases ha _ _ _ hfirst with ⟨hgood, u, hu, rfl⟩
    rcases ih hothers with ⟨more, rfl, hcount, hall, v, hv, rfl⟩
    refine ⟨value :: more, ?_, ?_, List.forall_mem_cons.mpr ⟨hgood, hall⟩, u ++ v, ?_, ?_⟩
    · rw [List.reverse_cons, List.append_assoc, List.singleton_append]
    · rw [List.length_cons, hcount]
    · exact Emission.result_concat_cons_eq_ok.mpr ⟨u, v, hu, hv, rfl⟩
    · exact (List.append_assoc u v rest).symm

theorem Exact.times {a : Reading α} {good : α → Prop} {emit : α → Emission}
    (ha : a.Exact good emit) {n : Nat} {source rest : Bytes} {values : List α}
    (h : (times n a).run source = (.ok values, rest)) :
    values.length = n ∧ (∀ value ∈ values, good value) ∧
      ∃ w, (Emission.concat (values.map emit)).result = .ok w ∧ source = w ++ rest := by
  rcases ha.repeated n h with ⟨more, rfl, hmore⟩
  exact hmore

end Groupcast.Reading
