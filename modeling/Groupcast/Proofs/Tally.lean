import Groupcast.Tally

/-!
# Adding up in words

The numbers that come up in a tally never exceed its total. So a tally whose result is a word stays
in words throughout, and then it makes no difference what happens to sums that are no words. Where
such sums are cut off, the result is what is left of the sum of all.
-/

namespace Groupcast

namespace Tally

/-- The numbers that come up, up to a refusal: those that are added and their sums. -/
def numbers : Tally → List Nat
  | number n => [n]
  | refuse _ => []
  | sum a b =>
    a.numbers ++ match a.value with
      | .error _ => []
      | .ok x =>
        b.numbers ++ match b.value with
          | .error _ => []
          | .ok y => [x + y]

/-- The sum of all numbers, those behind a refusal too. -/
def total : Tally → Nat
  | number n => n
  | refuse _ => 0
  | sum a b => a.total + b.total

/-- Every number that comes up is a word. -/
def InWords (t : Tally) : Prop :=
  ∀ n ∈ t.numbers, n < UInt64.size

@[simp] theorem value_ofNat (n : Nat) : (no_index (OfNat.ofNat n) : Tally).value = .ok n := rfl

@[simp] theorem total_ofNat (n : Nat) : (no_index (OfNat.ofNat n) : Tally).total = n := rfl

@[simp] theorem total_number (n : Nat) : (number n).total = n := rfl

@[simp] theorem total_add (a b : Tally) : (a + b).total = a.total + b.total := rfl

/-- What is added to a tally that does not refuse. -/
theorem value_add_of_ok {a b : Tally} {x : Nat} (ha : a.value = .ok x) :
    (a + b).value = b.value.map (x + ·) := by
  show (sum a b).value = _
  rw [value, ha]

theorem value_sum_eq_ok {a b : Tally} {n : Nat} :
    (sum a b).value = .ok n ↔ ∃ x y, a.value = .ok x ∧ b.value = .ok y ∧ x + y = n := by
  rw [value]
  cases a.value with
  | error error => simp
  | ok x => cases b.value <;> simp [Except.map]

/-- What comes up in a sum comes up in its parts, as far as they are reached, or is their sum. -/
theorem mem_numbers_sum {a b : Tally} {n : Nat} :
    n ∈ (sum a b).numbers ↔ n ∈ a.numbers ∨
      ∃ x, a.value = .ok x ∧ (n ∈ b.numbers ∨ ∃ y, b.value = .ok y ∧ n = x + y) := by
  rw [numbers, List.mem_append]
  cases a.value with
  | error error => simp
  | ok x => cases b.value <;> simp

theorem inWords_sum {a b : Tally} :
    (sum a b).InWords ↔ a.InWords ∧ ∀ x, a.value = .ok x →
      b.InWords ∧ ∀ y, b.value = .ok y → x + y < UInt64.size := by
  constructor
  · intro h
    refine ⟨fun n hmem => h n (mem_numbers_sum.mpr (Or.inl hmem)), fun x ha => ⟨?_, ?_⟩⟩
    · intro n hmem
      exact h n (mem_numbers_sum.mpr (Or.inr ⟨x, ha, Or.inl hmem⟩))
    · intro y hb
      exact h (x + y) (mem_numbers_sum.mpr (Or.inr ⟨x, ha, Or.inr ⟨y, hb, rfl⟩⟩))
  · rintro ⟨hleft, hright⟩ n hmem
    rcases mem_numbers_sum.mp hmem with hmem | ⟨x, ha, hmem | ⟨y, hb, rfl⟩⟩
    · exact hleft n hmem
    · exact (hright x ha).1 n hmem
    · exact (hright x ha).2 y hb

/-! ## Totals -/

theorem total_of_value {t : Tally} {n : Nat} (h : t.value = .ok n) : t.total = n := by
  induction t generalizing n with
  | number k => exact Except.ok.inj h
  | refuse error => cases h
  | sum a b iha ihb =>
    obtain ⟨x, y, ha, hb, rfl⟩ := value_sum_eq_ok.mp h
    rw [total, iha ha, ihb hb]

/-- No number that comes up exceeds the total. -/
theorem le_total_of_mem {t : Tally} {n : Nat} (h : n ∈ t.numbers) : n ≤ t.total := by
  induction t generalizing n with
  | number k => exact Nat.le_of_eq (List.mem_singleton.mp h)
  | refuse error => cases h
  | sum a b iha ihb =>
    rcases mem_numbers_sum.mp h with hmem | ⟨x, ha, hmem | ⟨y, hb, rfl⟩⟩
    · exact Nat.le_trans (iha hmem) (Nat.le_add_right _ _)
    · exact Nat.le_trans (ihb hmem) (Nat.le_add_left _ _)
    · exact Nat.le_of_eq (by rw [total, total_of_value ha, total_of_value hb])

/-- A result is among the numbers that come up. -/
theorem mem_numbers_of_value {t : Tally} {n : Nat} (h : t.value = .ok n) : n ∈ t.numbers := by
  cases t with
  | number k => exact List.mem_singleton.mpr (Except.ok.inj h).symm
  | refuse error => cases h
  | sum a b =>
    obtain ⟨x, y, ha, hb, rfl⟩ := value_sum_eq_ok.mp h
    exact mem_numbers_sum.mpr (Or.inr ⟨x, ha, Or.inr ⟨y, hb, rfl⟩⟩)

theorem inWords_of_total {t : Tally} (h : t.total < UInt64.size) : t.InWords :=
  fun _ hmem => Nat.lt_of_le_of_lt (le_total_of_mem hmem) h

/-- A tally with a result stays in words exactly if the result is a word. -/
theorem inWords_iff_of_value {t : Tally} {n : Nat} (h : t.value = .ok n) :
    t.InWords ↔ n < UInt64.size := by
  constructor
  · intro hwords
    exact hwords n (mem_numbers_of_value h)
  · intro hn
    exact inWords_of_total (total_of_value h ▸ hn)

/-! ## Runs -/

/-- A tally that stays in words comes to its value, however the program is built. Induction on the
tally. -/
theorem run_of_inWords (build : Build) {t : Tally} (h : t.InWords) :
    t.run build = .ok t.value := by
  induction t with
  | number n =>
    rw [run, build.word_of_lt (h n List.mem_cons_self)]
    rfl
  | refuse error => rfl
  | sum a b iha ihb =>
    obtain ⟨hleft, hright⟩ := inWords_sum.mp h
    rw [run, value, iha hleft]
    cases ha : a.value with
    | error error => rfl
    | ok x =>
      obtain ⟨hright, hsum⟩ := hright x ha
      simp only [ihb hright]
      cases hb : b.value with
      | error error => rfl
      | ok y =>
        simp only [build.word_of_lt (hsum y hb)]
        rfl

/-- A checked program stops if a number comes up that is no word. Induction on the tally: the first
of the two parts and their sum that leaves the words is where it stops. -/
theorem run_checked_of_not_inWords {t : Tally} (h : ¬ t.InWords) :
    t.run .checked = .error .overflow := by
  induction t with
  | number n =>
    have hn : ¬ n < UInt64.size := by
      intro hn
      refine h fun k hk => ?_
      rwa [List.mem_singleton.mp hk]
    rw [run, Build.word_checked_of_not_lt hn]
    rfl
  | refuse error => exact absurd (fun _ hmem => nomatch hmem) h
  | sum a b iha ihb =>
    rw [inWords_sum] at h
    rw [run]
    by_cases hleft : a.InWords
    case neg => rw [iha hleft]
    rw [run_of_inWords .checked hleft]
    cases ha : a.value with
    | error error =>
      refine absurd ⟨hleft, fun x hx => ?_⟩ h
      rw [ha] at hx
      cases hx
    | ok x =>
      by_cases hright : b.InWords
      case neg => simp only [ihb hright]
      simp only [run_of_inWords .checked hright]
      cases hb : b.value with
      | error error =>
        refine absurd ⟨hleft, fun _ _ => ⟨hright, fun y hy => ?_⟩⟩ h
        rw [hb] at hy
        cases hy
      | ok y =>
        have hsum : ¬ x + y < UInt64.size := by
          intro hsum
          refine h ⟨hleft, fun x' hx => ⟨hright, fun y' hy => ?_⟩⟩
          rw [← Except.ok.inj (ha.symm.trans hx), ← Except.ok.inj (hb.symm.trans hy)]
          exact hsum
        simp only [Build.word_checked_of_not_lt hsum]
        rfl

/-- Where sums are cut off, the result is what is left of the value. -/
theorem run_unchecked (t : Tally) : t.run .unchecked = .ok (t.value.map (· % UInt64.size)) := by
  induction t with
  | number n => rfl
  | refuse error => rfl
  | sum a b iha ihb =>
    rw [run, iha, ihb, value]
    cases a.value with
    | error error => rfl
    | ok x =>
      cases b.value with
      | error error => rfl
      | ok y =>
        show Except.ok (Except.ok ((x % UInt64.size + y % UInt64.size) % UInt64.size)) = _
        rw [← Nat.add_mod]
        rfl

end Tally

end Groupcast
