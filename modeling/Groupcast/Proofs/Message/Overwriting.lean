import Groupcast.Message.Size
import Groupcast.Proofs.Catalogue.Contract
import Groupcast.Proofs.Reading.Restore

/-!
# What is left of a body that is read into

Reading into a body takes the same bytes, and ends as well or as badly, whatever the body held.
Most kinds of body then hold what was read and nothing else. Buffer and object bodies do so only
where the input brings a payload; where it announces that there is none, they stay as they were.
-/

namespace Groupcast

variable {D : Dialect}

/-- The kinds of body that stay as they are when they are told that there is no payload. -/
def BodyKind.staysWithoutPayload : BodyKind → Bool
  | .buffer => true
  | .directBuffer => true
  | .object => true
  | _ => false

namespace Body

/-- What a body of a kind becomes when `fresh` is what a blank one would have become. -/
def replacedBy (kind : BodyKind) (b fresh : Body D) : Body D :=
  if kind.staysWithoutPayload ∧ fresh.hasPayload = false then b else fresh

section

variable (r : Registry D) (message : (levels : Nat) → Reading (Message D)) (levels : Nat)

/-- Refilling a body reads what refilling a blank one reads, and then looks at what the body was.
One case for each kind of body. -/
theorem refill_eq_map {b : Body D} {kind : BodyKind} (hkind : b.builtin? = some kind) :
    b.refill r message levels = b.replacedBy kind <$> (blank kind).refill r message levels := by
  cases b with
  | custom s held => cases hkind
  | buffer view direct =>
    obtain rfl := Option.some.inj hkind
    simp only [refill, blank, map_bind]
    refine bind_congr fun found => ?_
    cases found <;> rfl
  | directBuffer view heap =>
    obtain rfl := Option.some.inj hkind
    simp only [refill, blank, map_bind]
    refine bind_congr fun found => ?_
    cases found <;> rfl
  | object held =>
    obtain rfl := Option.some.inj hkind
    simp only [refill, blank, map_bind]
    refine bind_congr fun given => ?_
    cases given with
    | false => rfl
    | true =>
      simp only [if_true, map_bind]
      rfl
  | empty | bytes _ | composite _ | serializable _ | excerpt _ _ | received _ =>
    -- What these become does not depend on what they were.
    obtain rfl := Option.some.inj hkind
    exact (id_map _).symm

end

variable {σ : Type} [Source σ]

/-- Reading into a body is reading into a blank one of its kind, but for what is left. -/
theorem read_eq_read_blank (r : Registry D) {b : Body D} {kind : BodyKind}
    (hkind : b.builtin? = some kind) (source : σ) :
    b.read r source =
      match (blank kind).read r source with
      | (.ok (), fresh, rest) => (.ok (), b.replacedBy kind fresh, rest)
      | (.error error, _, rest) => (.error error, b, rest) := by
  rw [read, read, refill_eq_map r _ _ hkind, Reading.run_map]
  rcases ((blank kind).refill r _ maxNesting).run source with ⟨_ | _, rest⟩ <;> rfl

/-- Reading into a body of a built-in kind ends as reading into a blank body of that kind does, and
leaves as many bytes. If it ends well, the body is left as the blank one is, except that a buffer
or object body keeps what it held when it is told that there is no payload. -/
theorem read_overwrites (r : Registry D) {b : Body D} {kind : BodyKind}
    (hkind : b.builtin? = some kind) (source : σ) :
    (b.read r source).1 = ((blank kind).read r source).1 ∧
    (b.read r source).2.2 = ((blank kind).read r source).2.2 ∧
    ((b.read r source).1 = .ok () →
      (b.read r source).2.1 =
        if kind.staysWithoutPayload ∧ ((blank kind).read r source).2.1.hasPayload = false
        then b else ((blank kind).read r source).2.1) := by
  rw [read_eq_read_blank r hkind source]
  rcases (blank kind).read r source with ⟨error | _, fresh, rest⟩
  · exact ⟨rfl, rfl, fun hok => by cases hok⟩
  · exact ⟨rfl, rfl, fun _ => rfl⟩

/-- A buffer with bytes and a wish is replaced by one with other bytes and no wish, which is what is
left of a blank one. -/
theorem read_overwrites_buffer :
    ((buffer (D := Catalogue.dialect) (some (View.whole [1, 2, 3])) true).read .builtin
      ([0, 0, 0, 1, 0, 9] : Bytes)).2.1 = buffer (some (View.whole [9])) false := by
  have hkind : (buffer (D := Catalogue.dialect) (some (View.whole [1, 2, 3])) true).builtin?
      = some .buffer := rfl
  obtain ⟨-, -, hleft⟩ := read_overwrites .builtin hkind ([0, 0, 0, 1, 0, 9] : Bytes)
  exact hleft rfl

/-- A buffer that is told that there is no payload keeps its bytes, and a blank one has none. -/
theorem read_keeps_buffer :
    ((buffer (D := Catalogue.dialect) (some (View.whole [1, 2, 3])) false).read .builtin
      ([255, 255, 255, 255] : Bytes)) = (.ok (), buffer (some (View.whole [1, 2, 3])) false, []) ∧
    ((blank (D := Catalogue.dialect) .buffer).read .builtin
      ([255, 255, 255, 255] : Bytes)) = (.ok (), buffer none false, []) ∧
    buffer (D := Catalogue.dialect) (some (View.whole [1, 2, 3])) false ≠ buffer none false :=
  ⟨rfl, rfl, nofun⟩

end Body

end Groupcast
