import Groupcast.Proofs.Message.Readable

/-!
# Round trip of payloads

What a body holds other than messages is restored from what is written of it: views with their
markers for missing values, buffers with a wish about memory, objects and parcels.
-/

namespace Groupcast

variable {D : Dialect}

/-! ## Views and buffers -/

namespace View

theorem restores_readingOptional {v : View} {w : Bytes} (h : v.emit.result = .ok w) :
    readingOptional.Restores w (some v.norm) := by
  rcases result_emit_eq_ok.mp h with ⟨hfits, rfl⟩
  rw [← length_data] at hfits ⊢
  exact (Reading.restores_optionalLength hfits).bind
    ((Reading.restores_bytes v.data).map fun bytes => some (whole bytes))

theorem restores_readingOptional_absent {w : Bytes} (h : Emission.absent.result = .ok w) :
    readingOptional.Restores w none := by
  rcases Emission.result_absent_eq_ok.mp h with rfl
  exact (Reading.restores_optionalLength_absent).bind (Reading.restores_done none)

theorem restores_readingBuffer {v : View} {wish inPieces : Bool} {w : Bytes}
    (h : (emitBuffer (some v) wish inPieces).result = .ok w) :
    readingBuffer.Restores w (some (wish, v.norm)) := by
  rcases result_emitBuffer_eq_ok.mp h with ⟨hfits, rfl⟩
  rw [← length_data] at hfits ⊢
  exact (Reading.restores_optionalLength hfits).bind ((Reading.restores_flag wish).bind
    ((Reading.restores_bytes v.data).map fun bytes => some (wish, whole bytes)))

theorem restores_readingBuffer_absent {w : Bytes} (h : Emission.absent.result = .ok w) :
    readingBuffer.Restores w none := by
  rcases Emission.result_absent_eq_ok.mp h with rfl
  exact (Reading.restores_optionalLength_absent).bind (Reading.restores_done none)

end View

/-! ## Objects -/

variable {r : Registry D}

/-- An object is restored by the blank registered under its kind. -/
theorem Record.restores_emitTagged {record : Record D}
    (hback : Streamable.ReadsBack r.object record) {w : Bytes}
    (h : record.emitTagged.result = .ok w) : (reading r).Restores w record := by
  rw [result_emitTagged] at h
  cases h
  rcases hback with ⟨blank, hfind, hrefill⟩
  refine (Reading.restores_u16 _).bind ?_
  simp only [Reading.bind_eq_bind, Reading.ofExcept_bind_of_ok hfind]
  exact hrefill

namespace Parcel

theorem restores_packed {bytes w : Bytes}
    (h : (emit (some (packed bytes : Parcel D))).result = .ok w) :
    (reading r).Restores w (some (packed bytes)) := by
  rcases result_emit_packed_eq_ok.mp h with ⟨hfits, rfl⟩
  refine (Reading.restores_flag false).bind ((Reading.restores_optionalLength hfits).bind ?_)
  exact (Reading.restores_bytes bytes).map fun bytes => some (packed bytes)

/-- A parcel is restored as its receivers see it. -/
theorem restores_emit {parcel : Option (Parcel D)} (hback : ∀ p ∈ parcel, p.Readable r)
    {w : Bytes} (h : (emit parcel).result = .ok w) :
    (reading r).Restores w (parcel.map norm) := by
  rcases parcel with _ | (x | x | bytes)
  · rcases result_emit_none_eq_ok.mp h with rfl
    exact (Reading.restores_flag false).bind
      (Reading.restores_optionalLength_absent.bind (Reading.restores_done none))
  · rcases (Emission.result_append_eq_ok_of_ok (Emission.result_flag true)).mp h with ⟨t, ht, rfl⟩
    have hrecord := Record.restores_emitTagged (hback _ rfl) ht
    exact (Reading.restores_flag true).bind (hrecord.map fun x => some (record x))
  · -- What was an object comes back packed.
    rcases emit_object_of_ok h with ⟨bytes, hpack, hpacked⟩
    simp only [Option.map_some, norm, hpack]
    exact restores_packed hpacked
  · exact restores_packed h

end Parcel

end Groupcast
