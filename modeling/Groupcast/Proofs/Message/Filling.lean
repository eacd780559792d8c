import Groupcast.Message.Filling
import Groupcast.Proofs.Catalogue.Contract
import Groupcast.Proofs.Filling

/-!
# Failed reads leave bodies alone

Every kind of body is read in full before the first of its fields is set, and the messages in it are
built beside it. So reading into a body in place is `Body.read`, and a body that could not be read
is the one that was there before.
-/

namespace Groupcast

variable {D : Dialect}

namespace Body

section

variable (r : Registry D) (message : (levels : Nat) → Reading (Message D)) (levels : Nat)

theorem fillBuffer_readsFirst : (fillBuffer : Filling (Body D) Unit).ReadsFirst := by
  refine Filling.ReadsFirst.ofReading_bind _ fun found => ?_
  cases found with
  | none => trivial
  | some found => trivial

theorem fillFragment_readsFirst : (fillFragment : Filling (Body D) Unit).ReadsFirst :=
  Filling.ReadsFirst.ofReading_bind _ fun _ => trivial

/-- No field of a built-in body is set before the last read. One case for each kind of body. -/
theorem fill_readsFirst {b : Body D} {kind : BodyKind} (hkind : b.builtin? = some kind) :
    (b.fill r message levels).ReadsFirst := by
  cases b with
  | custom s held => cases hkind
  | empty => trivial
  | bytes view => exact Filling.ReadsFirst.ofReading_bind _ fun _ => trivial
  | buffer view direct => exact fillBuffer_readsFirst
  | directBuffer view heap => exact fillBuffer_readsFirst
  | composite children =>
    cases levels with
    | zero => trivial
    | succ levels =>
      -- The messages are gathered beside the body, which gets them when all are there.
      refine Filling.ReadsFirst.ofReading_bind _ fun count => ?_
      exact Filling.ReadsFirst.ofReading_bind _ fun _ => trivial
  | object held =>
    refine Filling.ReadsFirst.ofReading_bind _ fun given => ?_
    cases given with
    | false => trivial
    | true => exact Filling.ReadsFirst.ofReading_bind _ fun _ => trivial
  | serializable parcel => exact Filling.ReadsFirst.ofReading_bind _ fun _ => trivial
  | excerpt whole window => exact fillFragment_readsFirst
  | received view => exact fillFragment_readsFirst

/-- A body that starts as `b` and is filled in place ends as `refill` says. -/
theorem fill_readingFrom (b : Body D) :
    (b.fill r message levels).readingFrom b = b.refill r message levels := by
  cases b with
  | empty => rfl
  | bytes view => exact Filling.readingFrom_ofReading_bind _ fun _ => rfl
  | buffer view direct =>
    refine Filling.readingFrom_ofReading_bind _ fun found => ?_
    cases found <;> rfl
  | directBuffer view heap =>
    refine Filling.readingFrom_ofReading_bind _ fun found => ?_
    cases found <;> rfl
  | composite children =>
    cases levels with
    | zero => rfl
    | succ levels =>
      refine Filling.readingFrom_ofReading_bind _ fun count => ?_
      exact Filling.readingFrom_ofReading_bind _ fun _ => rfl
  | object held =>
    refine Filling.readingFrom_ofReading_bind _ fun given => ?_
    cases given with
    | false => rfl
    | true => exact Filling.readingFrom_ofReading_bind _ fun _ => rfl
  | serializable parcel => exact Filling.readingFrom_ofReading_bind _ fun _ => rfl
  | excerpt whole window => exact Filling.readingFrom_ofReading_bind _ fun _ => rfl
  | received view => exact Filling.readingFrom_ofReading_bind _ fun _ => rfl
  | custom s held => exact Filling.readingFrom_ofReading_bind _ fun _ => rfl

end

end Body

namespace Message

/-- Messages whose bodies are filled in place are read like others. Induction on the fuel. -/
theorem filling_eq_reading (r : Registry D) (fuel levels : Nat) :
    filling r fuel levels = reading r fuel levels := by
  induction fuel generalizing levels with
  | zero => rfl
  | succ fuel ih =>
    have hlying : filling r fuel = reading r fuel := funext ih
    simp only [filling, reading, fillingOfKind, readingOfKind, Body.fill_readingFrom, hlying]

end Message

namespace Body

variable {σ : Type} [Source σ]

/-- Reading into a body in place comes to the same as reading a body to take its place. -/
theorem readInPlace_eq_read (r : Registry D) {b : Body D} {kind : BodyKind}
    (hkind : b.builtin? = some kind) (source : σ) : b.readInPlace r source = b.read r source := by
  have hlying : Message.filling r (Source.available source)
      = Message.reading r (Source.available source) :=
    funext (Message.filling_eq_reading r _)
  have hrun := (fill_readsFirst r (Message.reading r (Source.available source)) maxNesting
    hkind).run_eq b source
  rw [fill_readingFrom] at hrun
  rw [readInPlace, hlying, hrun, read]
  rcases (b.refill r _ maxNesting).run source with ⟨_ | _, rest⟩ <;> rfl

/-- A built-in body that cannot be read into is as it was before, wherever the input breaks off and
however deep in the messages of a composite. -/
theorem readInPlace_failed (r : Registry D) {b : Body D} {kind : BodyKind}
    (hkind : b.builtin? = some kind) {source : σ} {error : DecodeError}
    (hfails : (b.readInPlace r source).1 = .error error) :
    (b.readInPlace r source).2.1 = b ∧ b.readInPlace r source = b.read r source := by
  have hfirst := fill_readsFirst r (Message.filling r (Source.available source)) maxNesting hkind
  exact ⟨hfirst.unchanged hfails, readInPlace_eq_read r hkind source⟩

/-- A composite keeps the message it holds when the second message in a composite that is to take
its place is of no known kind. -/
theorem readInPlace_failed_nested :
    ((composite [Catalogue.sample]).readInPlace Catalogue.registry
      ([0, 0, 0, 1, 4, 0, 0, 0, 0, 0, 0, 0, 0, 0, 0, 0, 0, 2, 2, 0, 0, 0, 0, 0, 0, 0, 0, 0, 99] :
        Bytes)).1 = .error (.unknownMessageKind 99) ∧
    ((composite [Catalogue.sample]).readInPlace Catalogue.registry
      ([0, 0, 0, 1, 4, 0, 0, 0, 0, 0, 0, 0, 0, 0, 0, 0, 0, 2, 2, 0, 0, 0, 0, 0, 0, 0, 0, 0, 99] :
        Bytes)).2.1 = composite [Catalogue.sample] := by
  have hfails : ((composite [Catalogue.sample]).readInPlace Catalogue.registry
      ([0, 0, 0, 1, 4, 0, 0, 0, 0, 0, 0, 0, 0, 0, 0, 0, 0, 2, 2, 0, 0, 0, 0, 0, 0, 0, 0, 0, 99] :
        Bytes)).1 = .error (.unknownMessageKind 99) := rfl
  have hkind : (composite [Catalogue.sample]).builtin? = some .composite := rfl
  exact ⟨hfails, (readInPlace_failed Catalogue.registry hkind hfails).1⟩

end Body

end Groupcast
