import Groupcast.Proofs.Payload.RoundTrip
import Groupcast.Proofs.Reading.Refusal
import Groupcast.Proofs.Reading.Yield

/-!
# How deep payloads nest

A reader never gets a payload whose composites nest deeper than it lets them, and refuses those that
do: with the same error, whatever lies before or after the composite that is one too deep.
-/

namespace Groupcast.Payload

variable {π : Type} [CustomPayload π] {r : PayloadRegistry π}

/-! ## What is read -/

/-- A blank is refilled to a payload that nests one level deeper than those that lie in it. -/
theorem refill_yields {inner : Option (Reading (Payload π))} {levels : Nat}
    (hinner : ∀ reading ∈ inner, ∃ fewer, levels = fewer + 1 ∧
      reading.Yields (·.NestsWithin fewer)) (blank : Payload π) :
    (blank.refill inner).Yields (·.NestsWithin levels) := by
  cases blank with
  | bytes view => exact Reading.yields_bind _ fun _ => trivial
  | custom s => exact Reading.yields_bind _ fun _ => trivial
  | composite children =>
    cases inner with
    | none => trivial
    | some inner =>
      rcases hinner inner rfl with ⟨fewer, rfl, hyields⟩
      refine Reading.yields_bind _ fun count => (hyields.times count.toNat).map ?_
      intro children hchildren
      exact allNestWithin_iff.mpr hchildren

/-- A payload nests one level deeper than what is read inside it. -/
theorem yields_of_inside {levels : Nat}
    (hinner : ∀ reading ∈ readingInside r levels, ∃ fewer, levels = fewer + 1 ∧
      reading.Yields (·.NestsWithin fewer)) :
    (readingWithin r levels).Yields (·.NestsWithin levels) := by
  rw [readingWithin_eq_bind]
  exact Reading.yields_bind _ fun kind => Reading.yields_bind _ (refill_yields hinner)

/-- Whatever the registry and the input, composites of a payload that is read nest no deeper than
they may. Induction on the levels left. -/
theorem readingWithin_yields (r : PayloadRegistry π) (levels : Nat) :
    (readingWithin r levels).Yields (·.NestsWithin levels) := by
  induction levels with
  | zero =>
    apply yields_of_inside
    rintro reading ⟨⟩
  | succ levels ih =>
    apply yields_of_inside
    rintro reading ⟨⟩
    exact ⟨levels, rfl, ih⟩

/-- No input holds a payload that nests deeper than payloads may. -/
theorem nestsWithin_of_deserialize {w : Bytes} {p : Payload π} (h : deserialize r w = .ok p) :
    p.NestsWithin maxNesting :=
  (readingWithin_yields r maxNesting).of_run (deserialize_eq_ok.mp h)

/-! ## What is refused -/

/-- A payload is refused if the blank found under its kind refuses what is behind the kind. -/
theorem refusesWithin_of_refill {levels limit : Nat} {kind : UInt8} {blank : Payload π}
    (hfind : r.blank kind = .ok blank) {v : Bytes} {error : DecodeError}
    (hrefill : (blank.refill (readingInside r levels)).RefusesWithin limit v error) :
    (readingWithin r levels).RefusesWithin limit ([kind] ++ v) error := by
  rw [readingWithin_eq_bind]
  refine ((Reading.restores_u8 kind).within limit).bind_refuses ?_
  rwa [Reading.ofExcept_bind_of_ok hfind]

/-- Where its composites nest too deep, a reader refuses the payload. -/
def Refusable (r : PayloadRegistry π) (p : Payload π) : Prop :=
  ∀ levels, ¬ p.NestsWithin levels → ∀ w, p.emit.result = .ok w → ∀ limit,
    (readingWithin r levels).RefusesWithin limit w tooDeep

mutual

/-- Of all payloads only composites nest. One is refused for its own depth, or at the first payload
in it that is refused; those before it are read. -/
theorem refusable (hreach : r.Reachable) (p : Payload π) (hreadable : p.Readable r) :
    p.Refusable r := by
  intro levels hdeep w hemit limit
  rcases result_emit_eq_ok.mp hemit with ⟨v, hv, rfl⟩
  cases p with
  | bytes view => exact absurd trivial hdeep
  | custom s => exact absurd trivial hdeep
  | composite children =>
    refine refusesWithin_of_refill hreach.blank_composite ?_
    cases levels with
    | zero => exact Reading.refusesWithin_fail limit v tooDeep
    | succ levels =>
      rcases result_emitUntagged_composite_eq_ok.mp hv with ⟨hcount, u, hu, rfl⟩
      have hrestorable := allRestorable hreach children hreadable
      have hrefusable := allRefusable hreach children hreadable
      have hsome : ¬ ∀ p ∈ children, p.NestsWithin levels := mt allNestWithin_iff.mpr hdeep
      have hrow := Reading.RefusesWithin.repeated
        (fun p hp hnests w hw => hrestorable p hp levels hnests w hw limit)
        (fun p hp hnests w hw => hrefusable p hp levels hnests w hw limit) hsome [] hu
      have hnumber := (Reading.restores_u16 (UInt16.ofNat children.length)).within limit
      rw [UInt16.toNat_ofNat_of_lt' hcount] at hnumber
      refine hnumber.bind_refuses ?_
      rw [UInt16.toNat_ofNat_of_lt' hcount]
      exact hrow.map composite

/-- `Payload.refusable` for each payload. -/
theorem allRefusable (hreach : r.Reachable) (ps : List (Payload π))
    (hreadable : AllReadable r ps) : ∀ p ∈ ps, p.Refusable r := by
  cases ps with
  | nil => simp
  | cons p ps =>
    rcases hreadable with ⟨hp, hps⟩
    have hfirst := refusable hreach p hp
    have hothers := allRefusable hreach ps hps
    exact List.forall_mem_cons.mpr ⟨hfirst, hothers⟩

end

/-- The bytes of a payload that nests too deep are no input. -/
theorem Refusable.deserialize {p : Payload π} (hrefusable : p.Refusable r)
    (hdeep : ¬ p.NestsWithin maxNesting) {w : Bytes} (hserialize : p.serialize = .ok w) :
    deserialize r w = .error tooDeep := by
  have hrefused := hrefusable maxNesting hdeep w hserialize w.length []
  rw [List.append_nil] at hrefused
  exact Reading.runExactly_of_error (Prod.ext (hrefused (Nat.le_refl _)) rfl)

end Groupcast.Payload
