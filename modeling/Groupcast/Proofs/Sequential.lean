import Groupcast.Proofs.Message.Congruence

/-!
# Sequential readings

A reading that never asks how much is left decides on the bytes it takes. With more bytes after its
input it comes out alike, and the bytes are left over; only a reading that ran out of bytes may come
out differently. The reader of messages is sequential if all values that are registered are.
-/

namespace Groupcast

/-- The input ended where more was needed. -/
def DecodeError.IsTruncated : DecodeError → Prop
  | .truncated _ _ => True
  | _ => False

theorem DecodeError.isTruncated_iff {error : DecodeError} :
    error.IsTruncated ↔ ∃ needed remaining, error = .truncated needed remaining := by
  cases error <;> simp [IsTruncated]

namespace Reading

/-- A reading that only takes bytes, and never asks how many are left. -/
def Sequential ⦃α : Type⦄ : Reading α → Prop
  | done _ => True
  | fail _ => True
  | take _ _ next => ∀ bytes, Sequential (next bytes)
  | ask _ => False

theorem Sequential.bind {α β : Type} {a : Reading α} {f : α → Reading β} (ha : a.Sequential)
    (hf : ∀ value, (f value).Sequential) : (a.bind f).Sequential := by
  induction a with
  | done value => exact hf value
  | fail error => trivial
  | take how count next ih => exact fun bytes => ih bytes (ha bytes)
  | ask next ih => exact ha.elim

/-- Both of two readings are sequential. -/
def BothSequential ⦃α : Type⦄ (a b : Reading α) : Prop :=
  a.Sequential ∧ b.Sequential

/-- What is built of sequential readings is sequential. -/
theorem bothSequential_congruence : Congruence BothSequential where
  done _ := ⟨trivial, trivial⟩
  fail _ := ⟨trivial, trivial⟩
  take _ _ _ _ hnext := ⟨fun bytes => (hnext bytes).1, fun bytes => (hnext bytes).2⟩
  bind hfirst hnext :=
    ⟨hfirst.1.bind fun value => (hnext value).1, hfirst.2.bind fun value => (hnext value).2⟩

/-- A sequential reading that did not run out of bytes comes out alike when more bytes follow, and
leaves these. Induction on the reading: each take that succeeds takes the same bytes. -/
theorem run_append {α : Type} {a : Reading α} (ha : a.Sequential) {source rest : Bytes}
    {outcome : Except DecodeError α} (hrun : a.run source = (outcome, rest))
    (hdecided : ∀ error, outcome = .error error → ¬ error.IsTruncated) (more : Bytes) :
    a.run (source ++ more) = (outcome, rest ++ more) := by
  induction a generalizing source with
  | done value =>
    cases hrun
    rfl
  | fail error =>
    cases hrun
    rfl
  | take how count next ih =>
    -- What can be taken from the input can be taken from the longer one, and is the same.
    have hsplit : ∀ source : Bytes, Source.split? how count source
        = if count ≤ source.length then some (source.take count, source.drop count) else none :=
      Bytes.split?_eq count
    simp only [run, hsplit] at hrun ⊢
    by_cases hcount : count ≤ source.length
    · have hcount' : count ≤ (source ++ more).length := by
        rw [List.length_append]
        omega
      simp only [hcount, hcount', if_true] at hrun ⊢
      rw [List.take_append_of_le_length hcount, List.drop_append_of_le_length hcount]
      exact ih _ (ha _) hrun
    · -- The reading ran out of bytes.
      simp only [hcount, if_false] at hrun
      cases hrun
      exact absurd trivial (hdecided _ rfl)
  | ask next ih =>
    -- Here the two inputs would differ, but sequential readings do not ask.
    exact ha.elim

/-- On a front of an input that it accepts, a sequential reading comes out alike or runs out of
bytes. -/
theorem run_front {α : Type} {a : Reading α} (ha : a.Sequential) {front more : Bytes} :
    (∃ error rest, a.run front = (.error error, rest) ∧ error.IsTruncated) ∨
      a.run (front ++ more) = ((a.run front).1, (a.run front).2 ++ more) := by
  rcases hrun : a.run front with ⟨error | value, rest⟩
  · by_cases htruncated : error.IsTruncated
    · exact Or.inl ⟨error, rest, rfl, htruncated⟩
    · right
      refine run_append ha hrun (fun error' h => ?_) more
      cases h
      exact htruncated
  · right
    refine run_append ha hrun (fun error h => ?_) more
    cases h

end Reading

namespace BodyScript

variable {σ : Type}

/-- A script that never asks how many bytes are left. -/
def Sequential : BodyScript σ → Prop
  | done _ => True
  | fail _ => True
  | take _ _ next => ∀ bytes, (next bytes).Sequential
  | ask _ => False
  | message next => next.Sequential

/-- A sequential script reads in sequence what it holds, if messages are read in sequence. -/
theorem Sequential.respects {script : BodyScript σ} (h : script.Sequential) :
    script.Respects Reading.BothSequential := by
  intro μ message message' hmessage
  have hrel := Reading.bothSequential_congruence
  induction script with
  | done state => exact fun held => hrel.done _
  | fail error => exact fun held => hrel.fail _
  | take how count next ih =>
    exact fun held => hrel.take how count fun bytes => ih bytes (h bytes) held
  | ask next ih => exact h.elim
  | message next ih => exact fun held => hrel.bind hmessage fun m => ih h (m :: held)

end BodyScript

/-! ## The reader of messages -/

variable {D : Dialect}

/-- No value that is registered asks how many bytes are left. -/
structure Registry.Sequential (r : Registry D) : Prop where
  header {kind : UInt16} {blank : Record D} (hfind : r.header kind = .ok blank) :
    (Streamable.refill blank).Sequential
  object {kind : UInt16} {blank : Record D} (hfind : r.object kind = .ok blank) :
    (Streamable.refill blank).Sequential
  custom {kind : UInt8} {s : D.Custom} {held : List (Message D)}
    (hfind : r.body kind = .ok (.custom s held)) : (CustomBody.refill s).Sequential

/-- What is looked up in a registry is read in sequence. -/
theorem Registry.Sequential.related {r : Registry D} (h : r.Sequential) :
    r.Related Reading.BothSequential r where
  body _ _ _ _ hnext := by
    cases hfind : r.body _ with
    | error error => exact Reading.bothSequential_congruence.fail error
    | ok blank => exact hnext blank hfind
  header _ _ _ _ hnext := by
    cases hfind : r.header _ with
    | error error => exact Reading.bothSequential_congruence.fail error
    | ok blank => exact hnext blank hfind
  object _ _ _ _ hnext := by
    cases hfind : r.object _ with
    | error error => exact Reading.bothSequential_congruence.fail error
    | ok blank => exact hnext blank hfind
  refill_header hfind := ⟨h.header hfind, h.header hfind⟩
  refill_object hfind := ⟨h.object hfind, h.object hfind⟩
  refill_custom hfind := (h.custom hfind).respects

theorem Message.reading_sequential {r : Registry D} (h : r.Sequential) (fuel levels : Nat) :
    (reading r fuel levels).Sequential :=
  (reading_related Reading.bothSequential_congruence h.related fuel levels).1

end Groupcast
