import Groupcast.Reading

/-!
# What readings can end with

A property that every value has with which a reading can end, whatever bytes it is given and however
many it is told are left. Nothing is said of the source, so such a property holds of every run, on
byte strings as on chains.
-/

namespace Groupcast.Reading

variable {α β : Type}

/-- Every value that the reading can end with has the property. -/
def Yields (P : α → Prop) : Reading α → Prop
  | done value => P value
  | fail _ => True
  | take _ _ next => ∀ bytes, (next bytes).Yields P
  | ask next => ∀ left, (next left).Yields P

section

variable {P : α → Prop} {Q : β → Prop} {a : Reading α} {f : α → Reading β}

/-- What a run ends with has the property. -/
theorem Yields.of_run {σ : Type} [Source σ] (h : a.Yields P) {source rest : σ} {value : α}
    (hrun : a.run source = (.ok value, rest)) : P value := by
  induction a generalizing source with
  | done found =>
    cases hrun
    exact h
  | fail error => cases hrun
  | take how count next ih =>
    simp only [run] at hrun
    split at hrun
    case h_1 bytes left _ => exact ih bytes (h bytes) hrun
    case h_2 => cases hrun
  | ask next ih => exact ih (Source.available source) (h _) hrun

theorem Yields.bind (ha : a.Yields P) (hnext : ∀ value, P value → (f value).Yields Q) :
    (a.bind f).Yields Q := by
  induction a with
  | done value => exact hnext value ha
  | fail error => trivial
  | take how count next ih => exact fun bytes => ih bytes (ha bytes)
  | ask next ih => exact fun left => ih left (ha left)

/-- Where nothing is known of the first value, the property is left to what comes after it. -/
theorem yields_bind (a : Reading α) (hnext : ∀ value, (f value).Yields Q) :
    (a.bind f).Yields Q := by
  induction a with
  | done value => exact hnext value
  | fail error => trivial
  | take how count next ih => exact fun bytes => ih bytes
  | ask next ih => exact fun left => ih left

theorem Yields.map (ha : a.Yields P) {g : α → β} (hg : ∀ value, P value → Q (g value)) :
    (g <$> a).Yields Q :=
  ha.bind hg

/-- Values in a row all have the property. Induction on how many are left. -/
theorem Yields.repeated (ha : a.Yields P) (n : Nat) {before : List α}
    (hbefore : ∀ value ∈ before, P value) :
    (a.repeated n before).Yields fun values => ∀ value ∈ values, P value := by
  induction n generalizing before with
  | zero =>
    intro value hmem
    exact hbefore value (List.mem_reverse.mp hmem)
  | succ n ih =>
    refine ha.bind fun value hvalue => ih ?_
    exact List.forall_mem_cons.mpr ⟨hvalue, hbefore⟩

theorem Yields.times (ha : a.Yields P) (n : Nat) :
    (times n a).Yields fun values => ∀ value ∈ values, P value :=
  ha.repeated n fun _ hmem => absurd hmem List.not_mem_nil

end

end Groupcast.Reading
