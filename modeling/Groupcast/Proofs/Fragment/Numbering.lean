import Mathlib.Data.List.Nodup
import Groupcast.Proofs.Fragment.Lossless

/-!
# The numbers of batches

A fragmenter is asked for batches and for bare numbers, in any order, and some messages cannot be
split. Whatever it is asked, the numbers that it gives away are consecutive, and a message that
cannot be split takes none; so they differ, as long as there are no more of them than 64-bit
numbers.
-/

namespace Groupcast.Fragmenter

variable {D : Dialect}

/-! ## Runs -/

/-- What a fragmenter may be asked for: the batch of a message, or a number. -/
inductive Call (D : Dialect) where
  | split (m : Message D)
  | allocate

/-- The answer to a call. A bare number counts as a batch without fragments. -/
def call (f : Fragmenter) : Call D → Except FragmentationError (Batch D) × Fragmenter
  | .split m => f.split m
  | .allocate => (.ok ⟨f.allocate.1, []⟩, f.allocate.2)

/-- The answers to a series of calls. -/
def run : Fragmenter → List (Call D) → List (Except FragmentationError (Batch D))
  | _, [] => []
  | f, c :: calls => (f.call c).1 :: run (f.call c).2 calls

/-- The batches among the answers, each with its number. -/
def batches (f : Fragmenter) (calls : List (Call D)) : List (Batch D) :=
  (f.run calls).filterMap Except.toOption

/-! ## Single calls -/

/-- A message that cannot be split takes no number. -/
theorem split_of_error {f : Fragmenter} {m : Message D} {error : FragmentationError}
    (h : (f.split m).1 = .error error) : (f.split m).2 = f := by
  unfold split at h ⊢
  split
  · rfl
  case h_2 windows hwindows =>
    rw [hwindows] at h
    cases h

/-- What one call does: it is refused and changes nothing, or it takes the next number. -/
theorem call_cases (f : Fragmenter) (c : Call D) :
    (∃ error, f.call c = (.error error, f)) ∨
      ∃ fragments, f.call c = (.ok ⟨f.next, fragments⟩, { f with next := f.next + 1 }) := by
  cases c with
  | split m =>
    show (∃ error, f.split m = (.error error, f)) ∨ ∃ fragments, f.split m = _
    unfold split
    split
    case h_1 error _ => exact Or.inl ⟨error, rfl⟩
    case h_2 windows _ => exact Or.inr ⟨_, rfl⟩
  | allocate => exact Or.inr ⟨[], rfl⟩

/-! ## Whole runs -/

/-- Every answer of a run is one that a fragmenter of the same configuration gives to that call.
Induction on the calls. -/
theorem exists_call_of_mem_run {f : Fragmenter} {calls : List (Call D)} {c : Call D}
    {answer : Except FragmentationError (Batch D)} (h : (c, answer) ∈ calls.zip (f.run calls)) :
    ∃ g : Fragmenter, g.config = f.config ∧ (g.call c).1 = answer := by
  induction calls generalizing f with
  | nil => cases h
  | cons first calls ih =>
    rw [run, List.zip_cons_cons, List.mem_cons] at h
    rcases h with h | h
    · cases h
      exact ⟨f, rfl, rfl⟩
    · rcases ih h with ⟨g, hconfig, hanswer⟩
      refine ⟨g, hconfig.trans ?_, hanswer⟩
      rcases f.call_cases first with ⟨error, hcall⟩ | ⟨fragments, hcall⟩
      · rw [hcall]
      · rw [hcall]

theorem length_run (f : Fragmenter) (calls : List (Call D)) :
    (f.run calls).length = calls.length := by
  induction calls generalizing f with
  | nil => rfl
  | cons c calls ih => simp [run, ih]

/-- The batches are among the answers. -/
theorem mem_batches {f : Fragmenter} {calls : List (Call D)} {b : Batch D} :
    b ∈ f.batches calls ↔ ∃ c, (c, .ok b) ∈ calls.zip (f.run calls) := by
  have hanswer : b ∈ f.batches calls ↔ .ok b ∈ f.run calls := by
    simp only [batches, List.mem_filterMap]
    constructor
    · rintro ⟨error | found, hmem, hfound⟩
      · cases hfound
      · cases hfound
        exact hmem
    · exact fun hmem => ⟨_, hmem, rfl⟩
  rw [hanswer]
  constructor
  · intro hmem
    rcases List.mem_iff_getElem.mp hmem with ⟨i, hi, hb⟩
    have hcall : i < calls.length := f.length_run calls ▸ hi
    refine ⟨calls[i], List.mem_iff_getElem.mpr ⟨i, ?_, ?_⟩⟩
    · rw [List.length_zip, length_run, Nat.min_self]
      exact hcall
    · rw [List.getElem_zip, hb]
  · rintro ⟨c, hmem⟩
    exact (List.of_mem_zip hmem).2

/-- The numbers given away are consecutive, from the next one on. Induction on the calls: a call
that is refused changes nothing, and any other takes the next number. -/
theorem map_id_batches (f : Fragmenter) (calls : List (Call D)) :
    (f.batches calls).map Batch.id
      = (List.range (f.batches calls).length).map fun k => f.next + UInt64.ofNat k := by
  induction calls generalizing f with
  | nil => rfl
  | cons c calls ih =>
    rcases f.call_cases c with ⟨error, hcall⟩ | ⟨fragments, hcall⟩
    · have hbatches : f.batches (c :: calls) = f.batches calls := by
        rw [batches, run, hcall]
        rfl
      rw [hbatches]
      exact ih f
    · have hbatches : f.batches (c :: calls)
          = ⟨f.next, fragments⟩ :: batches { f with next := f.next + 1 } calls := by
        rw [batches, run, hcall]
        rfl
      rw [hbatches, List.map_cons, ih, List.length_cons, List.range_succ_eq_map, List.map_cons,
        List.map_map]
      congr 1
      · simp
      · refine List.map_congr_left fun k _ => ?_
        simp only [Function.comp, Nat.succ_eq_add_one, UInt64.ofNat_add]
        rw [UInt64.add_assoc, UInt64.add_comm 1]
        rfl

/-- The number given away after `k` others is `k` after the first, around the last one. -/
theorem toNat_id_of_getElem? {f : Fragmenter} {calls : List (Call D)} {k : Nat} {b : Batch D}
    (h : (f.batches calls)[k]? = some b) :
    b.id.toNat = (f.next.toNat + k) % UInt64.size := by
  have hid : ((f.batches calls).map Batch.id)[k]? = some b.id := by
    rw [List.getElem?_map, h]
    rfl
  have hk : k < (f.batches calls).length := (List.getElem?_eq_some_iff.mp h).1
  rw [map_id_batches, List.getElem?_map, List.getElem?_range hk] at hid
  have hnumber : f.next + UInt64.ofNat k = b.id := Option.some.inj hid
  rw [← hnumber, UInt64.toNat_add, UInt64.toNat_ofNat']
  exact (Nat.add_mod_mod _ _ _)

/-- As long as they are no more than 64-bit numbers, the numbers given away differ. -/
theorem nodup_map_id_batches {f : Fragmenter} {calls : List (Call D)}
    (hcount : (f.batches calls).length ≤ UInt64.size) :
    ((f.batches calls).map Batch.id).Nodup := by
  rw [map_id_batches]
  refine List.Nodup.map_on ?_ List.nodup_range
  intro j hj k hk h
  rw [List.mem_range] at hj hk
  have hoffset : UInt64.ofNat j = UInt64.ofNat k := by simpa using h
  have hnat := congrArg UInt64.toNat hoffset
  rw [UInt64.toNat_ofNat_of_lt' (by omega), UInt64.toNat_ofNat_of_lt' (by omega)] at hnat
  exact hnat

end Groupcast.Fragmenter
