import Groupcast.Message.Reader
import Groupcast.Proofs.Reading.Congruence
import Groupcast.Proofs.Reading.Restore

/-!
# The reader of messages, once for all relations

If a relation is respected by the ways of building readings, and by what two registries look up, it
holds between the readers of messages over these registries. The cases follow the reader: envelope,
then one case for each kind of body.

With agreement on short inputs as the relation, the fuel of the reader is seen not to matter.
-/

namespace Groupcast

variable {D : Dialect}

/-- Registries whose lookups are related, and whose blank values make related readings. -/
structure Registry.Related (rel : ⦃α : Type⦄ → Reading α → Reading α → Prop)
    (r r' : Registry D) : Prop where
  body (kind : UInt8) {α : Type} {f g : Body D → Reading α}
    (hnext : ∀ blank, r.body kind = .ok blank → rel (f blank) (g blank)) :
    rel ((Reading.ofExcept (r.body kind)).bind f) ((Reading.ofExcept (r'.body kind)).bind g)
  header (kind : UInt16) {α : Type} {f g : Record D → Reading α}
    (hnext : ∀ blank, r.header kind = .ok blank → rel (f blank) (g blank)) :
    rel ((Reading.ofExcept (r.header kind)).bind f) ((Reading.ofExcept (r'.header kind)).bind g)
  object (kind : UInt16) {α : Type} {f g : Record D → Reading α}
    (hnext : ∀ blank, r.object kind = .ok blank → rel (f blank) (g blank)) :
    rel ((Reading.ofExcept (r.object kind)).bind f) ((Reading.ofExcept (r'.object kind)).bind g)
  refill_header {kind : UInt16} {blank : Record D} (hfind : r.header kind = .ok blank) :
    rel (Streamable.refill blank) (Streamable.refill blank)
  refill_object {kind : UInt16} {blank : Record D} (hfind : r.object kind = .ok blank) :
    rel (Streamable.refill blank) (Streamable.refill blank)
  refill_custom {kind : UInt8} {s : D.Custom} {held : List (Message D)}
    (hfind : r.body kind = .ok (.custom s held)) : (CustomBody.refill s).Respects rel

section Reader

variable {rel : ⦃α : Type⦄ → Reading α → Reading α → Prop} (hrel : Reading.Congruence rel)

include hrel

/-! ## Fields -/

theorem Address.reading_related : rel reading reading := by
  refine hrel.bind hrel.flag fun given => ?_
  split
  · exact hrel.map _ (hrel.natural 16)
  · exact hrel.done none

theorem View.readingOptional_related : rel readingOptional readingOptional := by
  refine hrel.bind hrel.optionalLength fun length => ?_
  cases length with
  | none => exact hrel.done none
  | some n => exact hrel.map _ (hrel.bytes n)

theorem View.readingBuffer_related : rel readingBuffer readingBuffer := by
  refine hrel.bind hrel.optionalLength fun length => ?_
  cases length with
  | none => exact hrel.done none
  | some n => exact hrel.bind hrel.flag fun wish => hrel.map _ (hrel.bytes n)

variable {r r' : Registry D} (hr : r.Related rel r')

include hr

theorem HeaderMap.readingInto_related (n : Nat) (m : HeaderMap (Record D)) :
    rel (readingInto r.header n m) (readingInto r'.header n m) := by
  induction n generalizing m with
  | zero => exact hrel.done m
  | succ n ih =>
    refine hrel.bind hrel.u16 fun id => hrel.bind hrel.u16 fun kind => ?_
    refine hr.header kind fun blank hfind => ?_
    exact hrel.bind (hr.refill_header hfind) fun header => ih (m.put id header)

theorem HeaderMap.reading_related : rel (reading r.header) (reading r'.header) :=
  hrel.bind hrel.u32 fun count => readingInto_related hrel hr count.toNat empty

theorem Envelope.reading_related : rel (reading r) (reading r') :=
  hrel.bind (hrel.natural 2) fun _ => hrel.bind (hrel.natural 1) fun _ =>
    hrel.bind (Address.reading_related hrel) fun _ => hrel.bind (Address.reading_related hrel)
      fun _ => hrel.map _ (HeaderMap.reading_related hrel hr)

theorem Record.reading_related : rel (reading r) (reading r') :=
  hrel.bind hrel.u16 fun kind => hr.object kind fun _ hfind => hr.refill_object hfind

theorem Parcel.reading_related : rel (reading r) (reading r') := by
  refine hrel.bind hrel.flag fun own => ?_
  split
  · exact hrel.map _ (Record.reading_related hrel hr)
  · refine hrel.bind hrel.optionalLength fun length => ?_
    cases length with
    | none => exact hrel.done none
    | some n => exact hrel.map _ (hrel.bytes n)

/-! ## Bodies and messages -/

section Body

variable {message message' : (levels : Nat) → Reading (Message D)}
  (hmessage : ∀ levels, rel (message levels) (message' levels))

include hmessage

/-- The refilling of a registered blank, one case for each kind of body. -/
theorem Body.refill_related {kind : UInt8} {blank : Body D} (hfind : r.body kind = .ok blank)
    (levels : Nat) :
    rel (blank.refill r message levels) (blank.refill r' message' levels) := by
  cases blank with
  | empty => exact hrel.done _
  | bytes view => exact hrel.map _ (View.readingOptional_related hrel)
  | buffer view direct =>
    refine hrel.bind (View.readingBuffer_related hrel) fun found => ?_
    cases found <;> exact hrel.done _
  | directBuffer view heap =>
    refine hrel.bind (View.readingBuffer_related hrel) fun found => ?_
    cases found <;> exact hrel.done _
  | composite children =>
    -- The depth is checked before anything is read.
    cases levels with
    | zero => exact hrel.fail _
    | succ levels =>
      exact hrel.bind hrel.length fun count => hrel.map _ (hrel.times (hmessage levels) count)
  | object held =>
    refine hrel.bind hrel.flag fun given => ?_
    split
    · exact hrel.map _ (Record.reading_related hrel hr)
    · exact hrel.done _
  | serializable parcel => exact hrel.map _ (Parcel.reading_related hrel hr)
  | excerpt whole window => exact hrel.map _ (View.readingOptional_related hrel)
  | received view => exact hrel.map _ (View.readingOptional_related hrel)
  | custom s held =>
    exact hrel.map _ (hr.refill_custom hfind (hmessage maxNesting) [])

theorem Message.readingOfKind_related (kind : UInt8) (levels : Nat) :
    rel (readingOfKind r message kind levels) (readingOfKind r' message' kind levels) := by
  refine hr.body kind fun blank hfind => ?_
  refine hrel.bind (Envelope.reading_related hrel hr) fun envelope => ?_
  exact hrel.map _ (Body.refill_related hrel hr hmessage hfind levels)

end Body

/-- The readers of messages are related. Induction on the fuel. -/
theorem Message.reading_related (fuel levels : Nat) :
    rel (reading r fuel levels) (reading r' fuel levels) := by
  induction fuel generalizing levels with
  | zero => exact hrel.fail _
  | succ fuel ih => exact hrel.bind hrel.u8 fun kind => readingOfKind_related hrel hr ih kind levels

end Reader

/-! ## Fuel -/

/-- Every registry is related to itself by agreement on short inputs. -/
theorem Registry.related_agreeWithin (n : Nat) (r : Registry D) :
    r.Related (Reading.AgreeWithin n) r where
  body _ _ _ _ hnext := by
    cases hfind : r.body _ with
    | error error => exact Reading.agreeWithin_refl n _
    | ok blank => exact hnext blank hfind
  header _ _ _ _ hnext := by
    cases hfind : r.header _ with
    | error error => exact Reading.agreeWithin_refl n _
    | ok blank => exact hnext blank hfind
  object _ _ _ _ hnext := by
    cases hfind : r.object _ with
    | error error => exact Reading.agreeWithin_refl n _
    | ok blank => exact hnext blank hfind
  refill_header _ := Reading.agreeWithin_refl n _
  refill_object _ := Reading.agreeWithin_refl n _
  refill_custom _ := BodyScript.respects_agreeWithin n _

namespace Message

/-- Readers with at least as much fuel as there are bytes agree. Induction on the bytes: the kind of
a message takes one of them, and one unit of fuel. -/
theorem reading_agreeWithin (r : Registry D) {n fuel fuel' : Nat} (hfuel : n ≤ fuel)
    (hfuel' : n ≤ fuel') (levels : Nat) :
    Reading.AgreeWithin n (reading r fuel levels) (reading r fuel' levels) := by
  induction n generalizing fuel fuel' levels with
  | zero =>
    intro source hlength
    obtain rfl : source = [] := List.length_eq_zero_iff.mp (Nat.le_zero.mp hlength)
    -- No fuel and no input come out alike.
    cases fuel <;> cases fuel' <;> rfl
  | succ n ih =>
    obtain ⟨fuel, rfl⟩ : ∃ k, fuel = k + 1 := ⟨fuel - 1, by omega⟩
    obtain ⟨fuel', rfl⟩ : ∃ k, fuel' = k + 1 := ⟨fuel' - 1, by omega⟩
    exact Reading.AgreeWithin.take .copied 1 fun bytes =>
      readingOfKind_related (Reading.agreeWithin_congruence n) (r.related_agreeWithin n)
        (ih (Nat.le_of_succ_le_succ hfuel) (Nat.le_of_succ_le_succ hfuel')) _ levels

/-- A reader with enough fuel reads as `Message.read` does. -/
theorem run_reading_eq_read (r : Registry D) {fuel : Nat} {source : Bytes}
    (hfuel : source.length ≤ fuel) :
    (reading r fuel maxNesting).run source = read r source :=
  reading_agreeWithin r hfuel (Nat.le_refl _) maxNesting source (Nat.le_refl _)

end Message

/-- A body that holds messages is refilled alike by readers with enough fuel. -/
theorem Body.run_refill_eq {r : Registry D} {kind : UInt8} {blank : Body D}
    (hfind : r.body kind = .ok blank) {fuel fuel' : Nat} {source : Bytes}
    (hfuel : source.length ≤ fuel) (hfuel' : source.length ≤ fuel') (levels : Nat) :
    (blank.refill r (Message.reading r fuel) levels).run source
      = (blank.refill r (Message.reading r fuel') levels).run source :=
  refill_related (Reading.agreeWithin_congruence _) (r.related_agreeWithin _)
    (Message.reading_agreeWithin r hfuel hfuel') hfind levels source (Nat.le_refl _)

/-! ## Whole inputs -/

namespace Message

variable {r : Registry D}

/-- An input is accepted if one message is read from it and nothing is left. -/
theorem decode_eq_ok {w : Bytes} {m : Message D} :
    decode r w = .ok m ↔ read r w = (.ok m, []) :=
  Reading.runExactly_eq_ok

theorem decode_of_read_error {w rest : Bytes} {error : DecodeError}
    (h : read r w = (.error error, rest)) : decode r w = .error error :=
  Reading.runExactly_of_error h

theorem decode_of_read_ok {w rest : Bytes} {m : Message D} (h : read r w = (.ok m, rest))
    (hrest : rest ≠ []) : decode r w = .error (.trailingBytes rest.length) := by
  have hread : read r w = (reading r (Source.available w) maxNesting).run w := rfl
  have havailable : Source.available rest = rest.length := rfl
  unfold decode readExactly Reading.runExactly
  rw [← hread, h]
  cases rest with
  | nil => exact absurd rfl hrest
  | cons byte rest => simp [havailable]

end Message

end Groupcast
