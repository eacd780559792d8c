import Groupcast.Proofs.Payload.Readable
import Groupcast.Proofs.Registry.Growth

/-!
# Round trip of payloads

A payload that can be written is read back in normal form, whatever follows it. Induction on the
payload: what is restored of a composite is restored of each payload in it, with one level less for
composites to lie in one another.
-/

namespace Groupcast

variable {π : Type} [CustomPayload π]

/-- A view is read back as a view of the same bytes. -/
theorem View.restores_reading {v : View} {w : Bytes} (h : v.emit.result = .ok w) :
    View.reading.Restores w v.norm := by
  rcases result_emit_eq_ok.mp h with ⟨hfits, rfl⟩
  rw [← length_data] at hfits ⊢
  exact (Reading.restores_length hfits).bind ((Reading.restores_bytes v.data).map whole)

/-- A view that is read shows its whole buffer, and is taken from the bytes it is written in. -/
theorem View.reading_exact : View.reading.Exact (fun v => v.norm = v) View.emit := by
  intro source view rest h
  rcases Reading.run_bind_eq_ok h with ⟨n, mid, hlength, hnext⟩
  rcases Reading.run_bind_eq_ok hnext with ⟨bytes, _, hbytes, hdone⟩
  cases hdone
  rcases Reading.run_length_eq_ok hlength with ⟨hfits, rfl⟩
  rcases Reading.run_bytes_eq_ok hbytes with ⟨rfl, rfl⟩
  refine ⟨congrArg whole (data_whole bytes), _, result_emit_eq_ok.mpr ⟨hfits, rfl⟩, ?_⟩
  rw [data_whole, List.append_assoc]
  rfl

namespace Payload

variable {r : PayloadRegistry π}

/-! ## Writing -/

/-- A payload is its kind and what comes behind it. -/
theorem result_emit_eq_ok {p : Payload π} {w : Bytes} :
    p.emit.result = .ok w ↔ ∃ v, p.emitUntagged.result = .ok v ∧ w = [p.kind] ++ v :=
  Emission.result_append_eq_ok_of_ok (Emission.result_byte _)

/-- A composite is the number of its payloads, which must fit its field, and the payloads. -/
theorem result_emitUntagged_composite_eq_ok {children : List (Payload π)} {w : Bytes} :
    (composite children).emitUntagged.result = .ok w ↔ children.length < UInt16.size ∧
      ∃ v, (Emission.concat (children.map emit)).result = .ok v ∧
        w = Bytes.bigEndian 2 children.length ++ v := by
  rw [emitUntagged, emissions_eq_map]
  by_cases hcount : children.length < UInt16.size
  · simp only [hcount, if_true, true_and]
    rw [Emission.result_append_eq_ok_of_ok (Emission.result_u16 _),
      UInt16.toNat_ofNat_of_lt' hcount]
  · simp [hcount]

/-! ## Reading -/

/-- What a blank is given to read the payloads that lie in it: nothing, where composites may nest no
deeper. -/
def readingInside (r : PayloadRegistry π) : (levels : Nat) → Option (Reading (Payload π))
  | 0 => none
  | levels + 1 => some (readingWithin r levels)

/-- The kind finds a blank, which is refilled. -/
theorem readingWithin_eq_bind (r : PayloadRegistry π) (levels : Nat) :
    readingWithin r levels = Reading.u8.bind fun kind =>
      (Reading.ofExcept (r.blank kind)).bind (refill (readingInside r levels)) := by
  cases levels <;> rfl

/-- A payload is restored if the blank found under its kind is refilled to it. -/
theorem restoresWithin_of_refill {levels limit : Nat} {kind : UInt8} {blank p : Payload π}
    (hfind : r.blank kind = .ok blank) {v : Bytes}
    (hrefill : (blank.refill (readingInside r levels)).RestoresWithin limit v p) :
    (readingWithin r levels).RestoresWithin limit ([kind] ++ v) p := by
  rw [readingWithin_eq_bind]
  refine ((Reading.restores_u8 kind).within limit).bind ?_
  rwa [Reading.ofExcept_bind_of_ok hfind]

/-- An input holds a payload when reading the payload leaves nothing of it. -/
theorem deserialize_eq_ok {w : Bytes} {p : Payload π} :
    deserialize r w = .ok p ↔ (readingWithin r maxNesting).run w = (.ok p, []) :=
  Reading.runExactly_eq_ok

/-! ## The recursion -/

/-- At whatever depth, a reader restores the payload. -/
def Restorable (r : PayloadRegistry π) (p : Payload π) : Prop :=
  ∀ levels, p.NestsWithin levels → ∀ w, p.emit.result = .ok w → ∀ limit,
    (readingWithin r levels).RestoresWithin limit w p.norm

mutual

/-- Payloads are restored by the blank found under their kind, one case for each kind. -/
theorem restorable (hreach : r.Reachable) (p : Payload π) (hreadable : p.Readable r) :
    p.Restorable r := by
  intro levels hnests w hemit limit
  rcases result_emit_eq_ok.mp hemit with ⟨v, hv, rfl⟩
  cases p with
  | bytes view =>
    have hview := (View.restores_reading hv).map (bytes (π := π))
    exact restoresWithin_of_refill hreach.blank_bytes (hview.within limit)
  | composite children =>
    cases levels with
    | zero =>
      -- A composite would be refused here, but there is none at this depth.
      exact hnests.elim
    | succ levels =>
      rcases result_emitUntagged_composite_eq_ok.mp hv with ⟨hcount, u, hu, rfl⟩
      have hrestorable := allRestorable hreach children hreadable
      have hlevels := allNestWithin_iff.mp hnests
      have hrow := Reading.RestoresWithin.repeated (fun p hp u hu =>
        hrestorable p hp levels (hlevels p hp) u hu limit) [] hu
      rw [List.reverse_nil, List.nil_append, ← norms_eq_map] at hrow
      have hnumber := (Reading.restores_u16 (UInt16.ofNat children.length)).within limit
      rw [UInt16.toNat_ofNat_of_lt' hcount] at hnumber
      refine restoresWithin_of_refill hreach.blank_composite (hnumber.bind ?_)
      rw [UInt16.toNat_ofNat_of_lt' hcount]
      exact hrow.map composite
  | custom s =>
    rcases hreadable with ⟨blank, hfind, hback⟩
    exact restoresWithin_of_refill hfind (((hback v hv).map custom).within limit)

/-- `Payload.restorable` for each payload. -/
theorem allRestorable (hreach : r.Reachable) (ps : List (Payload π))
    (hreadable : AllReadable r ps) : ∀ p ∈ ps, p.Restorable r := by
  cases ps with
  | nil => simp
  | cons p ps =>
    rcases hreadable with ⟨hp, hps⟩
    have hfirst := restorable hreach p hp
    have hothers := allRestorable hreach ps hps
    exact List.forall_mem_cons.mpr ⟨hfirst, hothers⟩

end

/-- The bytes of a payload hold its normal form. -/
theorem Restorable.deserialize {p : Payload π} (hrestorable : p.Restorable r)
    (hnests : p.NestsWithin maxNesting) {w : Bytes} (hserialize : p.serialize = .ok w) :
    deserialize r w = .ok p.norm := by
  have hrestored := hrestorable maxNesting hnests w hserialize w.length []
  rw [List.append_nil] at hrestored
  exact deserialize_eq_ok.mpr (hrestored (Nat.le_refl _))

end Payload

end Groupcast
