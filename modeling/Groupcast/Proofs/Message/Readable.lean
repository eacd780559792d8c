import Groupcast.Proofs.Message.Envelope
import Groupcast.Proofs.Message.Normal

/-!
# Messages that can be read back

What a reader must know to read a message back: blanks for the headers, objects and custom bodies in
it that restore these from their encodings. And what the message itself must keep to: its composites
do not lie too deep in one another.
-/

namespace Groupcast

variable {D : Dialect}

/-! ## Custom bodies -/

/-- Whatever follows the encoding of a message, its normal form is read and what follows is left. -/
def Message.ReadsBack (r : Registry D) (m : Message D) : Prop :=
  ∀ w, m.emit.result = .ok w → ∀ rest, read r (w ++ rest) = (.ok m.norm, rest)

/-- What a body of the application must keep: there is a blank registered under its kind, and if the
messages held can be read back, the blank refilled from the encoding of the body is the body, with
the normal forms of the messages held. -/
def CustomBody.ReadsBack (r : Registry D) (s : D.Custom) (held : List (Message D)) : Prop :=
  ∃ blank, r.body (kind s) = .ok (.custom blank []) ∧
    ((∀ m ∈ held, m.ReadsBack r) → ∀ w, (emit s (emissions held)).result = .ok w →
      ∀ rest, Body.read r (.custom blank []) (w ++ rest) = (.ok (), .custom s (norms held), rest))

theorem Body.read_eq_ok {r : Registry D} {b b' : Body D} {source rest : Bytes} :
    b.read r source = (.ok (), b', rest) ↔
      (b.refill r (Message.reading r source.length) maxNesting).run source = (.ok b', rest) := by
  have havailable : Source.available source = source.length := rfl
  unfold read
  rw [havailable]
  rcases (b.refill r (Message.reading r source.length) maxNesting).run source with
    ⟨error | found, left⟩
  · simp
  · simp

/-! ## Messages -/

/-- What can be read back of a parcel: packed bytes always, an object of its own encoding if its
kind is registered. -/
def Parcel.Readable (r : Registry D) : Parcel D → Prop
  | record x => Streamable.ReadsBack r.object x
  | object _ => True
  | packed _ => True

mutual

/-- Whether the headers, objects and custom bodies of a message are registered and can be read back.
Nothing is asked of a message that only a window is cut from. -/
def Message.Readable (r : Registry D) : Message D → Prop
  | .mk e body =>
    (∀ entry ∈ e.headers.entries, Streamable.ReadsBack r.header entry.2) ∧ body.Readable r

/-- `Message.Readable` of what lies in a body. -/
def Body.Readable (r : Registry D) : Body D → Prop
  | .composite children => AllReadable r children
  | .object record => ∀ x ∈ record, Streamable.ReadsBack r.object x
  | .serializable parcel => ∀ p ∈ parcel, p.Readable r
  | .custom s held => CustomBody.ReadsBack r s held ∧ AllReadable r held
  | _ => True

/-- `Message.Readable` of each message. -/
def AllReadable (r : Registry D) : List (Message D) → Prop
  | [] => True
  | m :: ms => m.Readable r ∧ AllReadable r ms

end

theorem allReadable_iff {r : Registry D} {ms : List (Message D)} :
    AllReadable r ms ↔ ∀ m ∈ ms, m.Readable r := by
  induction ms with
  | nil => simp [AllReadable]
  | cons m ms ih => simp [AllReadable, ih]

mutual

/-- Whether composites nest at most `levels` deep. Inside a body of the application the count starts
again. -/
def Message.NestsWithin : Message D → (levels : Nat) → Prop
  | .mk _ body, levels => body.NestsWithin levels

/-- `Message.NestsWithin` of what lies in a body. -/
def Body.NestsWithin : Body D → (levels : Nat) → Prop
  | .composite _, 0 => False
  | .composite children, levels + 1 => AllNestWithin children levels
  | .custom _ held, _ => AllNestWithin held maxNesting
  | _, _ => True

/-- `Message.NestsWithin` of each message. -/
def AllNestWithin : List (Message D) → (levels : Nat) → Prop
  | [], _ => True
  | m :: ms, levels => m.NestsWithin levels ∧ AllNestWithin ms levels

end

theorem allNestWithin_iff {ms : List (Message D)} {levels : Nat} :
    AllNestWithin ms levels ↔ ∀ m ∈ ms, m.NestsWithin levels := by
  induction ms with
  | nil => simp [AllNestWithin]
  | cons m ms ih => simp [AllNestWithin, ih]

end Groupcast
