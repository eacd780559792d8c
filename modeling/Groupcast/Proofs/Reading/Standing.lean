import Groupcast.Proofs.Reading.Congruence

/-!
# Outcomes that stand

Of two readings, the second may know more than the first: it goes on where the first gives up for
want of something. Unless the first ended with such an error, its outcome stands, and so does what
it left of the input. The errors that are not to stand are told by a predicate.
-/

namespace Groupcast

namespace Reading

/-- On every input the second reading comes out as the first, unless that ended with an error that
is cured. -/
def Stands (cured : DecodeError → Prop) ⦃α : Type⦄ (a b : Reading α) : Prop :=
  ∀ source : Bytes, (∀ error, (a.run source).1 = .error error → ¬ cured error) →
    b.run source = a.run source

variable {cured : DecodeError → Prop} {α β : Type}

theorem stands_refl (a : Reading α) : Stands cured a a := by
  intro source _
  rfl

/-- What gives up with a cured error may go on in any way. -/
theorem stands_fail_of_cured {error : DecodeError} (hcured : cured error) (b : Reading α) :
    Stands cured (fail error) b := by
  intro source hstands
  exact absurd hcured (hstands error rfl)

theorem Stands.bind {a b : Reading α} {f g : α → Reading β} (hfirst : Stands cured a b)
    (hnext : ∀ value, Stands cured (f value) (g value)) :
    Stands cured (a.bind f) (b.bind g) := by
  intro source hstands
  rw [run_bind] at hstands
  rcases hrun : a.run source with ⟨error | value, rest⟩
  · -- An error of the first part is that of both parts.
    have hsame : b.run source = a.run source := by
      apply hfirst
      intro error' herror
      rw [hrun] at herror hstands
      cases herror
      exact hstands error rfl
    rw [run_bind, run_bind, hsame, hrun]
  · have hsame : b.run source = a.run source := by
      apply hfirst
      intro error herror
      rw [hrun] at herror
      cases herror
    rw [hrun] at hstands
    have hrest : (g value).run rest = (f value).run rest := hnext value rest hstands
    rw [run_bind, run_bind, hsame, hrun]
    exact hrest

theorem Stands.take (how : Transfer) (count : Nat) {f g : Bytes → Reading α}
    (hnext : ∀ bytes, Stands cured (f bytes) (g bytes)) :
    Stands cured (.take how count f) (.take how count g) := by
  intro source hstands
  simp only [run] at hstands ⊢
  cases hsplit : Source.split? how count source with
  | none => rfl
  | some taken =>
    rw [hsplit] at hstands
    exact hnext taken.1 taken.2 hstands

theorem stands_congruence (cured : DecodeError → Prop) : Congruence (Stands cured) where
  done value := stands_refl (.done value)
  fail error := stands_refl (.fail error)
  take how count _ _ hnext := Stands.take how count hnext
  bind hfirst hnext := hfirst.bind hnext

/-- What is looked up twice stands if the second look finds all that the first does: what is unknown
to the first is unknown to the second too, or the want of it is cured. -/
theorem stands_lookup {find find' : Except DecodeError α} {known known' : Prop}
    {unknown : DecodeError} (hkept : ∀ blank, find = .ok blank → find' = .ok blank)
    (hmissing : ∀ error, find = .error error ↔ ¬ known ∧ error = unknown)
    (hmissing' : ∀ error, find' = .error error ↔ ¬ known' ∧ error = unknown)
    (hcured : known' → cured unknown) {f g : α → Reading β}
    (hnext : ∀ blank, find = .ok blank → Stands cured (f blank) (g blank)) :
    Stands cured ((ofExcept find).bind f) ((ofExcept find').bind g) := by
  cases hfind : find with
  | ok blank =>
    rw [hkept blank hfind]
    exact hnext blank hfind
  | error error =>
    obtain ⟨-, rfl⟩ := (hmissing error).mp hfind
    by_cases hknown : known'
    · exact stands_fail_of_cured (hcured hknown) _
    · rw [(hmissing' error).mpr ⟨hknown, rfl⟩]
      exact stands_refl _

/-- Bytes that are left over are refused alike. -/
theorem Stands.runExactly {a b : Reading α} (h : Stands cured a b) {source : Bytes}
    (hstands : ∀ error, a.runExactly source = .error error → ¬ cured error) :
    b.runExactly source = a.runExactly source := by
  have hsame : b.run source = a.run source := by
    apply h
    intro error herror
    apply hstands
    have hrun : a.run source = (.error error, (a.run source).2) := by
      rw [← herror]
    unfold Reading.runExactly
    rw [hrun]
  unfold Reading.runExactly
  rw [hsame]

end Reading

/-- Every script gives readings that stand as far as those for the messages held do: it passes on
their errors. -/
theorem BodyScript.respects_stands {σ : Type} (cured : DecodeError → Prop)
    (script : BodyScript σ) : script.Respects (Reading.Stands cured) := by
  intro μ message message' hmessage
  have hrel := Reading.stands_congruence cured
  induction script with
  | done state => exact fun held => hrel.done _
  | fail error => exact fun held => hrel.fail _
  | take how count next ih => exact fun held => hrel.take how count fun bytes => ih bytes held
  | ask next ih =>
    -- Both readings are asked on the same input.
    intro held source hstands
    exact ih source.length held source hstands
  | message next ih => exact fun held => hrel.bind hmessage fun m => ih (m :: held)

end Groupcast
