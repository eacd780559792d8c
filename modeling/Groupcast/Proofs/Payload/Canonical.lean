import Groupcast.Proofs.Catalogue.Payload
import Groupcast.Proofs.Payload.Nesting
import Groupcast.Proofs.Payload.RoundTrip

/-!
# The format of payloads is exact

What a reader accepts is what a writer writes: no input is normalised away, and none is read in two
ways. Each field is taken from the bytes that it is written in; the rest is induction on how deep
composites may nest.
-/

namespace Groupcast

variable {π : Type} [CustomPayload π]

namespace Payload

variable {r : PayloadRegistry π}

/-! ## The recursion -/

/-- A blank found under a kind is refilled exactly, when what lies in it is read exactly. -/
theorem refill_exact (hreach : r.Reachable) (hexact : r.Exact) {levels : Nat}
    (hinner : ∀ inner ∈ readingInside r levels, inner.Exact (Readable r) emit)
    {kind : UInt8} {blank : Payload π} (hfind : r.blank kind = .ok blank) :
    (blank.refill (readingInside r levels)).Exact (fun p => p.kind = kind ∧ p.Readable r)
      emitUntagged := by
  intro source p rest h
  rcases hreach.blank_cases hfind with ⟨rfl, rfl⟩ | ⟨rfl, rfl⟩ | ⟨blank, rfl⟩
  · rcases Reading.run_map_eq_ok.mp h with ⟨view, hview, rfl⟩
    rcases View.reading_exact _ _ _ hview with ⟨-, hwritten⟩
    exact ⟨⟨rfl, trivial⟩, hwritten⟩
  · cases levels with
    | zero => cases h
    | succ levels =>
      rcases Reading.run_bind_eq_ok h with ⟨count, mid, hcount, hnext⟩
      rcases Reading.run_bind_eq_ok hnext with ⟨children, _, hchildren, hdone⟩
      cases hdone
      rcases (hinner _ rfl).times hchildren with ⟨hlength, hreadable, w, hw, rfl⟩
      have hfits : children.length < UInt16.size := hlength ▸ count.toNat_lt
      refine ⟨⟨rfl, allReadable_iff.mpr hreadable⟩, _,
        result_emitUntagged_composite_eq_ok.mpr ⟨hfits, w, hw, rfl⟩, ?_⟩
      rw [hlength, List.append_assoc]
      exact Reading.run_u16_eq_ok hcount
  · rcases Reading.run_map_eq_ok.mp h with ⟨s, hs, rfl⟩
    rcases hexact hfind _ _ _ hs with ⟨⟨hkind, hback⟩, hwritten⟩
    exact ⟨⟨hkind, hback⟩, hwritten⟩

/-- A payload is read exactly when what lies in it is. -/
theorem exact_of_inside (hreach : r.Reachable) (hexact : r.Exact) {levels : Nat}
    (hinner : ∀ inner ∈ readingInside r levels, inner.Exact (Readable r) emit) :
    (readingWithin r levels).Exact (Readable r) emit := by
  intro source p rest h
  rw [readingWithin_eq_bind] at h
  rcases Reading.run_bind_eq_ok h with ⟨kind, mid, hkind, hfound⟩
  rcases Reading.run_ofExcept_bind_eq_ok hfound with ⟨blank, hfind, hrefill⟩
  rcases refill_exact hreach hexact hinner hfind _ _ _ hrefill with
    ⟨⟨rfl, hreadable⟩, w, hw, rfl⟩
  exact ⟨hreadable, _, result_emit_eq_ok.mpr ⟨w, hw, rfl⟩, Reading.run_u8_eq_ok hkind⟩

/-- At every depth payloads are read exactly. Induction on the levels left. -/
theorem readingWithin_exact (hreach : r.Reachable) (hexact : r.Exact) (levels : Nat) :
    (readingWithin r levels).Exact (Readable r) emit := by
  induction levels with
  | zero =>
    refine exact_of_inside hreach hexact ?_
    rintro inner ⟨⟩
  | succ levels ih =>
    refine exact_of_inside hreach hexact ?_
    rintro inner ⟨⟩
    exact ih

/-! ## The bijection -/

/-- Payloads and the byte strings that readers accept stand for one another. A payload with
composites in no more than `maxNesting` levels is read back in normal form from its bytes; what is
read from some bytes is written as these bytes. So the byte strings accepted are just those written
of such payloads, and no two of them hold the same payload. -/
theorem deserialize_exact (hreach : r.Reachable) (hexact : r.Exact) :
    (∀ (p : Payload π) w, p.Readable r → p.NestsWithin maxNesting → p.serialize = .ok w →
      deserialize r w = .ok p.norm) ∧
    (∀ w p, deserialize r w = .ok p → p.serialize = .ok w) ∧
    (∀ w, (∃ p, deserialize r w = .ok p) ↔
      ∃ p : Payload π, p.Readable r ∧ p.NestsWithin maxNesting ∧ p.serialize = .ok w) ∧
    (∀ w w' p, deserialize r w = .ok p → deserialize r w' = .ok p → w = w') := by
  have hback : ∀ (p : Payload π) w, p.Readable r → p.NestsWithin maxNesting →
      p.serialize = .ok w → deserialize r w = .ok p.norm := by
    intro p w hreadable hnests hserialize
    exact (restorable hreach p hreadable).deserialize hnests hserialize
  have hwritten : ∀ w p, deserialize r w = .ok p → p.Readable r ∧ p.serialize = .ok w := by
    intro w p hread
    rcases readingWithin_exact hreach hexact maxNesting _ _ _ (deserialize_eq_ok.mp hread) with
      ⟨hreadable, w, hemit, rfl⟩
    rw [List.append_nil]
    exact ⟨hreadable, hemit⟩
  refine ⟨hback, fun w p hread => (hwritten w p hread).2, fun w => ⟨?_, ?_⟩, ?_⟩
  · rintro ⟨p, hread⟩
    rcases hwritten w p hread with ⟨hreadable, hserialize⟩
    exact ⟨p, hreadable, nestsWithin_of_deserialize hread, hserialize⟩
  · rintro ⟨p, hreadable, hnests, hserialize⟩
    exact ⟨p.norm, hback p w hreadable hnests hserialize⟩
  · intro w w' p hread hread'
    have hserialize := (hwritten w p hread).2
    rw [(hwritten w' p hread').2] at hserialize
    exact (Except.ok.inj hserialize).symm

end Payload

namespace Catalogue

/-- A composite that holds two bytes of a buffer of four, a counter and an empty composite. -/
def mixedPayload : Payload Datum :=
  .composite [.bytes ⟨[9, 8, 7, 6], 1, 2, by decide⟩, .custom (.counter 40 258), .composite []]

/-- The bytes of `mixedPayload`. -/
def mixedInput : Bytes :=
  [2, 0, 3, 1, 0, 0, 0, 2, 8, 7, 40, 0, 0, 1, 2, 2, 0, 0]

/-- Bytes that hold a payload, which differs from the one that they were written of by the buffer of
a view. -/
theorem deserialize_exact_mixedPayload :
    mixedPayload.serialize = .ok mixedInput ∧
      Payload.deserialize payloadRegistry mixedInput = .ok mixedPayload.norm ∧
      mixedPayload.norm.serialize = .ok mixedInput ∧
      ∀ w, Payload.deserialize payloadRegistry w = .ok mixedPayload.norm → w = mixedInput := by
  have hfind : payloadRegistry.blank 40 = .ok (.custom (.counter 40 0)) := rfl
  have hcounter := Datum.counter_readsBack hfind 258
  have hreadable : mixedPayload.Readable payloadRegistry :=
    ⟨trivial, hcounter, trivial, trivial⟩
  have hnests : mixedPayload.NestsWithin maxNesting := ⟨trivial, trivial, trivial, trivial⟩
  have hserialize : mixedPayload.serialize = .ok mixedInput := rfl
  rcases Payload.deserialize_exact payloadRegistry_reachable payloadRegistry_exact with
    ⟨hback, hwritten, -, hunique⟩
  have hread := hback mixedPayload mixedInput hreadable hnests hserialize
  exact ⟨hserialize, hread, hwritten mixedInput _ hread,
    fun w hw => hunique w mixedInput _ hw hread⟩

end Catalogue

end Groupcast
