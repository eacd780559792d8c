import Groupcast.Dialect

/-!
# Relations that readings respect

The reader of messages is one recursion over readings. What is to be shown of two runs of it, or of
two readers, is mostly a relation between readings that each way of building a reading respects.
`Reading.Congruence` says that a relation is of this kind; then it holds between the readers of
every field, and the recursion has to be gone through once for all such relations.

The first of these relations is agreement on short inputs (`Reading.AgreeWithin`), by which the fuel
of a reader does not matter.
-/

namespace Groupcast

namespace Reading

/-- A relation that holds between readings built alike from related parts. -/
structure Congruence (rel : ⦃α : Type⦄ → Reading α → Reading α → Prop) : Prop where
  done {α : Type} (value : α) : rel (done value) (done value)
  fail {α : Type} (error : DecodeError) : rel (fail error : Reading α) (fail error)
  take {α : Type} (how : Transfer) (count : Nat) {f g : Bytes → Reading α}
    (hnext : ∀ bytes, rel (f bytes) (g bytes)) : rel (take how count f) (take how count g)
  bind {α β : Type} {a b : Reading α} {f g : α → Reading β} (hfirst : rel a b)
    (hnext : ∀ value, rel (f value) (g value)) : rel (a.bind f) (b.bind g)

namespace Congruence

variable {rel : ⦃α : Type⦄ → Reading α → Reading α → Prop} (hrel : Congruence rel)

include hrel

theorem map {α β : Type} (f : α → β) {a b : Reading α} (h : rel a b) :
    rel (f <$> a) (f <$> b) :=
  hrel.bind h fun value => hrel.done (f value)

theorem bytes (n : Nat) : rel (bytes n) (bytes n) :=
  hrel.take .handed n fun bytes => hrel.done bytes

theorem natural (width : Nat) : rel (natural width) (natural width) :=
  hrel.map _ (hrel.take .copied width fun bytes => hrel.done bytes)

theorem u8 : rel u8 u8 := hrel.map _ (hrel.natural 1)

theorem u16 : rel u16 u16 := hrel.map _ (hrel.natural 2)

theorem u32 : rel u32 u32 := hrel.map _ (hrel.natural 4)

theorem u64 : rel u64 u64 := hrel.map _ (hrel.natural 8)

theorem flag : rel flag flag := hrel.map _ hrel.u8

theorem i32 : rel i32 i32 := hrel.map _ (hrel.natural 4)

theorem length : rel length length := by
  refine hrel.bind hrel.i32 fun n => ?_
  split
  · exact hrel.done _
  · exact hrel.fail _

theorem optionalLength : rel optionalLength optionalLength := by
  refine hrel.bind hrel.i32 fun n => ?_
  split
  · exact hrel.done _
  · split
    · exact hrel.done _
    · exact hrel.fail _

theorem repeated {α : Type} {a b : Reading α} (h : rel a b) (n : Nat) (before : List α) :
    rel (a.repeated n before) (b.repeated n before) := by
  induction n generalizing before with
  | zero => exact hrel.done _
  | succ n ih => exact hrel.bind h fun value => ih (value :: before)

theorem times {α : Type} {a b : Reading α} (h : rel a b) (n : Nat) :
    rel (times n a) (times n b) :=
  hrel.repeated h n []

end Congruence

end Reading

/-- A script that makes related readings of related readings for the messages held. -/
def BodyScript.Respects {σ : Type} (rel : ⦃α : Type⦄ → Reading α → Reading α → Prop)
    (script : BodyScript σ) : Prop :=
  ∀ ⦃μ : Type⦄ ⦃message message' : Reading μ⦄, rel message message' →
    ∀ held, rel (script.readingFrom message held) (script.readingFrom message' held)

/-! ## Agreement on short inputs -/

namespace Reading

/-- A reading leaves no more than it was given. -/
theorem length_run_le {α : Type} (a : Reading α) (source : Bytes) :
    (a.run source).2.length ≤ source.length := by
  induction a generalizing source with
  | done value => exact Nat.le_refl _
  | fail error => exact Nat.le_refl _
  | take how count next ih =>
    have hsplit : Source.split? how count source = Bytes.split? count source := rfl
    rw [Bytes.split?_eq] at hsplit
    by_cases hcount : count ≤ source.length
    · simp only [run, hsplit, hcount, if_true]
      refine Nat.le_trans (ih _ _) ?_
      rw [List.length_drop]
      omega
    · simp [run, hsplit, hcount]
  | ask next ih => exact ih source.length source

/-- On inputs of at most `n` bytes both readings have the same outcome. -/
def AgreeWithin (n : Nat) ⦃α : Type⦄ (a b : Reading α) : Prop :=
  ∀ source : Bytes, source.length ≤ n → a.run source = b.run source

theorem agreeWithin_refl (n : Nat) {α : Type} (a : Reading α) : AgreeWithin n a a :=
  fun _ _ => rfl

theorem AgreeWithin.bind {n : Nat} {α β : Type} {a b : Reading α} {f g : α → Reading β}
    (hfirst : AgreeWithin n a b) (hnext : ∀ value, AgreeWithin n (f value) (g value)) :
    AgreeWithin n (a.bind f) (b.bind g) := by
  intro source hlength
  have hle := length_run_le b source
  rw [run_bind, run_bind, hfirst source hlength]
  -- What the first readings leave is short enough for the second ones.
  cases hrun : b.run source with
  | mk outcome rest =>
    rw [hrun] at hle
    cases outcome with
    | error error => rfl
    | ok value => exact hnext value rest (Nat.le_trans hle hlength)

/-- What follows a take has less to agree on, by the bytes taken. -/
theorem AgreeWithin.take {n : Nat} {α : Type} (how : Transfer) (count : Nat)
    {f g : Bytes → Reading α} (hnext : ∀ bytes, AgreeWithin n (f bytes) (g bytes)) :
    AgreeWithin (n + count) (.take how count f) (.take how count g) := by
  intro source hlength
  have hsplit : Source.split? how count source = Bytes.split? count source := rfl
  rw [Bytes.split?_eq] at hsplit
  by_cases hcount : count ≤ source.length
  · simp only [run, hsplit, hcount, if_true]
    apply hnext
    rw [List.length_drop]
    omega
  · simp [run, hsplit, hcount]

theorem AgreeWithin.mono {m n : Nat} {α : Type} {a b : Reading α} (h : AgreeWithin n a b)
    (hle : m ≤ n) : AgreeWithin m a b :=
  fun source hlength => h source (Nat.le_trans hlength hle)

theorem agreeWithin_congruence (n : Nat) : Congruence (AgreeWithin n) where
  done value := agreeWithin_refl n (.done value)
  fail error := agreeWithin_refl n (.fail error)
  take how count _ _ hnext := (AgreeWithin.take how count hnext).mono (Nat.le_add_right n count)
  bind hfirst hnext := hfirst.bind hnext

end Reading

/-- Every script gives readings that agree as far as those for the messages held do. -/
theorem BodyScript.respects_agreeWithin {σ : Type} (n : Nat) (script : BodyScript σ) :
    script.Respects (Reading.AgreeWithin n) := by
  intro μ message message' hmessage
  have hrel := Reading.agreeWithin_congruence n
  induction script with
  | done state => exact fun held => hrel.done _
  | fail error => exact fun held => hrel.fail _
  | take how count next ih => exact fun held => hrel.take how count fun bytes => ih bytes held
  | ask next ih =>
    -- Both readings are asked on the same input.
    intro held source hlength
    exact ih source.length held source hlength
  | message next ih => exact fun held => hrel.bind hmessage fun m => ih (m :: held)

end Groupcast
