import Groupcast.Filling

/-!
# Fillings that read first

A filling that does all its reading before its first change leaves the value alone when it fails:
a failure comes from a read, and nothing has been changed by then. Such a filling comes to the same
as the reading of the filled value, whose result takes the place of the value if there is one.
-/

namespace Groupcast.Filling

variable {α β : Type}

/-- Nothing is left but changes: nothing is read and nothing fails. -/
def OnlyChanges : Filling α β → Prop
  | done _ => True
  | fail _ => False
  | take _ _ _ => False
  | ask _ => False
  | change _ next => next.OnlyChanges

/-- Nothing is read, and nothing fails, after the first change. -/
def ReadsFirst : Filling α β → Prop
  | done _ => True
  | fail _ => True
  | take _ _ next => ∀ bytes, (next bytes).ReadsFirst
  | ask next => ∀ left, (next left).ReadsFirst
  | change _ next => next.OnlyChanges

/-- What only changes ends well, leaves the source alone, and reads nothing. -/
theorem OnlyChanges.ends {p : Filling α Unit} (h : p.OnlyChanges) (a : α) :
    ∃ filled, p.readingFrom a = .done filled ∧
      ∀ {σ : Type} [Source σ] (source : σ), p.run a source = (.ok (), filled, source) := by
  induction p generalizing a with
  | done result => exact ⟨a, rfl, fun source => rfl⟩
  | fail error => exact h.elim
  | take how count next ih => exact h.elim
  | ask next ih => exact h.elim
  | change f next ih =>
    obtain ⟨filled, hreading, hrun⟩ := ih h (f a)
    exact ⟨filled, hreading, fun source => hrun source⟩

/-- A filling that reads first is the reading of the filled value. Where that fails, the value is
as it was. -/
theorem ReadsFirst.run_eq {σ : Type} [Source σ] {p : Filling α Unit} (h : p.ReadsFirst) (a : α)
    (source : σ) :
    p.run a source =
      match (p.readingFrom a).run source with
      | (.ok filled, rest) => (.ok (), filled, rest)
      | (.error error, rest) => (.error error, a, rest) := by
  induction p generalizing source with
  | done result => rfl
  | fail error => rfl
  | take how count next ih =>
    simp only [run, readingFrom, Reading.run]
    cases Source.split? how count source with
    | none => rfl
    | some taken => exact ih taken.1 (h taken.1) taken.2
  | ask next ih => exact ih (Source.available source) (h _) source
  | change f next ih =>
    -- The first change: from here on nothing fails, so nothing has to be put back.
    have hrest : next.OnlyChanges := h
    obtain ⟨filled, hreading, hrun⟩ := hrest.ends (f a)
    have hread : (change f next).readingFrom a = .done filled := hreading
    rw [hread]
    exact hrun source

/-- A filling that reads first and fails has changed nothing. -/
theorem ReadsFirst.unchanged {σ : Type} [Source σ] {p : Filling α Unit} (h : p.ReadsFirst) {a : α}
    {source : σ} {error : DecodeError} (hfails : (p.run a source).1 = .error error) :
    (p.run a source).2.1 = a := by
  rw [h.run_eq a source] at hfails ⊢
  split at hfails
  case h_1 => cases hfails
  case h_2 => rfl

/-! ## Reading, then changing -/

theorem ReadsFirst.ofReading_bind (a : Reading β) {next : β → Filling α Unit}
    (hnext : ∀ value, (next value).ReadsFirst) : ((ofReading a).bind next).ReadsFirst := by
  induction a with
  | done value => exact hnext value
  | fail error => trivial
  | take how count rest ih => exact fun bytes => ih bytes
  | ask rest ih => exact fun left => ih left

/-- What is read first in filling a value is read first in the reading of the filled value. -/
theorem readingFrom_ofReading_bind (a : Reading β) {next : β → Filling α Unit} {held : α}
    {rest : β → Reading α} (hnext : ∀ value, (next value).readingFrom held = rest value) :
    ((ofReading a).bind next).readingFrom held = a.bind rest := by
  induction a with
  | done value => exact hnext value
  | fail error => rfl
  | take how count reading ih => simp only [ofReading, bind, readingFrom, Reading.bind, ih]
  | ask reading ih => simp only [ofReading, bind, readingFrom, Reading.bind, ih]

end Groupcast.Filling
