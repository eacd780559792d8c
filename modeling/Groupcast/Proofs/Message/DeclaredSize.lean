import Groupcast.Proofs.Catalogue.Contract

/-!
# Sizes are exact wherever writing works

A message is sized before it is encoded. Sizing never stands in the way: what can be written can be
sized, so a message is encoded exactly when it can be written. And the sizes are right, for the
whole message as for what a transport writes that knows the sender and leaves some headers out.
-/

namespace Groupcast

variable {D : Dialect}

/-! ## What can be written can be sized -/

/-- A parcel can be sized if it can be written: both pack the object. -/
theorem Parcel.exists_wireSize_of_emit {parcel : Option (Parcel D)} {w : Bytes}
    (h : (emit parcel).result = .ok w) : ∃ n, wireSize parcel = .ok n := by
  rcases parcel with _ | (x | x | bytes)
  · exact ⟨_, rfl⟩
  · exact ⟨_, rfl⟩
  · rcases emit_object_of_ok h with ⟨bytes, hpack, -⟩
    exact ⟨1 + (4 + bytes.length), by simp [wireSize, packed?_object_of_ok hpack, Except.map]⟩
  · exact ⟨_, rfl⟩

mutual

/-- A message that can be written can be sized. -/
theorem Message.exists_wireSize_of_emit (m : Message D) {w : Bytes}
    (hemit : m.emit.result = .ok w) : ∃ n, m.wireSize = .ok n := by
  cases m with
  | mk e body =>
    rcases Message.result_emit_mk_eq_ok.mp hemit with ⟨-, v, -, hv, -⟩
    rcases Body.exists_wireSize_of_emit body hv with ⟨n, hn⟩
    refine ⟨e.wireSize + n, ?_⟩
    rw [Message.wireSize, hn]
    rfl

/-- A body that can be written can be sized. Only parcels and messages held could fail. -/
theorem Body.exists_wireSize_of_emit (b : Body D) {w : Bytes}
    (hemit : b.emit.result = .ok w) : ∃ n, b.wireSize = .ok n := by
  cases b with
  | composite children =>
    rcases Emission.result_length_append_eq_ok.mp hemit with ⟨-, v, hv, -⟩
    rcases exists_sumSizes_of_emissions children hv 0 with ⟨n, hn⟩
    have hsum : sumSizes 1 (wireSizes children) = .ok n := hn
    refine ⟨4 + n, ?_⟩
    rw [Body.wireSize, hsum]
    rfl
  | serializable parcel => exact Parcel.exists_wireSize_of_emit hemit
  | _ => exact ⟨_, rfl⟩

/-- Messages in a row that can be written can be sized, whatever is counted before them. -/
theorem exists_sumSizes_of_emissions (ms : List (Message D)) {w : Bytes}
    (hemit : (Emission.concat (emissions ms)).result = .ok w) (sum : Nat) :
    ∃ n, (wireSizes ms).foldlM (m := Except EncodeError)
      (fun sum size => size.map (sum + 1 + ·)) sum = .ok n := by
  cases ms with
  | nil => exact ⟨sum, rfl⟩
  | cons m ms =>
    rcases Emission.result_concat_cons_eq_ok.mp hemit with ⟨u, v, hu, hv, -⟩
    rcases Message.exists_wireSize_of_emit m hu with ⟨size, hsize⟩
    rcases exists_sumSizes_of_emissions ms hv (sum + 1 + size) with ⟨n, hn⟩
    refine ⟨n, ?_⟩
    rw [wireSizes, List.foldlM_cons, hsize]
    exact hn

end

namespace Message

/-- A message is encoded exactly when it can be written, as the bytes written. -/
theorem encode_eq_ok_iff_emit {m : Message D} {w : Bytes} :
    m.encode = .ok w ↔ m.emit.result = .ok w := by
  rw [encode_eq_ok]
  exact ⟨fun h => h.2, fun hemit => ⟨exists_wireSize_of_emit m hemit, hemit⟩⟩

/-! ## Exact sizes -/

/-- A message is written as its kind and the rest. -/
theorem emit_eq_byte_append (m : Message D) : m.emit = Emission.byte m.kind ++ m.emitUntagged := by
  cases m
  rfl

/-- With its kind a message takes one byte more than without. -/
theorem length_eq_of_emit {m : Message D} (hkeeps : m.KeepsSize) {w : Bytes}
    (hemit : m.emit.result = .ok w) : ∃ size, m.wireSize = .ok size ∧ w.length = 1 + size :=
  encodedSize_eq_ok.mp (sizeExact m hkeeps w hemit)

/-- Whatever sender is known and whatever headers are left out, the size is that of what is written.
-/
theorem wireSizeFor_of_emitFor {m : Message D} (hkeeps : m.KeepsSize) {sender : Option Address}
    {excluded : List HeaderId} {w : Bytes} (hemit : (m.emitFor sender excluded).result = .ok w) :
    m.wireSizeFor sender excluded = .ok w.length := by
  cases m with
  | mk e body =>
    rcases hkeeps with ⟨hheaders, hbody⟩
    rcases Emission.result_append_eq_ok.mp hemit with ⟨u, v, hu, hv, rfl⟩
    have henvelope : e.wireSizeFor sender excluded = u.length :=
      Envelope.length_of_emitWith hheaders hu
    have hsize : body.wireSize = .ok v.length := Body.wireSize_of_emit body hbody hv
    rw [List.length_append, ← henvelope]
    show body.wireSize.map (e.wireSizeFor sender excluded + ·) = _
    rw [hsize]
    rfl

/-- Declared sizes are exact wherever writing works: for what is written of a message without its
kind, for what a transport writes that knows the sender, and for its encoding. The encoding is what
is written, and there is one whenever writing works. -/
theorem wireSize_exact {m : Message D} (hkeeps : m.KeepsSize) :
    (∀ w, m.emitUntagged.result = .ok w → m.wireSize = .ok w.length) ∧
    (∀ sender excluded w, (m.emitFor sender excluded).result = .ok w →
      m.wireSizeFor sender excluded = .ok w.length) ∧
    (∀ w, m.encode = .ok w ↔ m.emit.result = .ok w) ∧
    ∀ w, m.encode = .ok w → ∃ size, m.wireSize = .ok size ∧ w.length = 1 + size := by
  refine ⟨?_, fun _ _ _ => wireSizeFor_of_emitFor hkeeps, fun _ => encode_eq_ok_iff_emit, ?_⟩
  · intro w hemit
    have hwrite : m.emit.result = .ok ([m.kind] ++ w) := by
      rw [emit_eq_byte_append]
      exact Emission.result_append_eq_ok.mpr ⟨_, _, Emission.result_byte _, hemit, rfl⟩
    rcases length_eq_of_emit hkeeps hwrite with ⟨size, hsize, hlength⟩
    -- The kind is one byte of what is written with it.
    rw [List.length_append, List.length_singleton] at hlength
    rw [hsize, Nat.add_left_cancel hlength]
  · intro w hencode
    exact length_eq_of_emit hkeeps (encode_eq_ok_iff_emit.mp hencode)

/-- The sizes of a composite with a header, in full, and for a transport that knows the sender, with
the header left out twice and one left out that is not there. -/
theorem wireSize_exact_sample :
    (∃ w size, Catalogue.sample.encode = .ok w ∧ Catalogue.sample.wireSize = .ok size ∧
      w.length = 1 + size) ∧
    (∃ w, Catalogue.sample.emitUntagged.result = .ok w ∧
      Catalogue.sample.wireSize = .ok w.length) ∧
    ∃ w, (Catalogue.sample.emitFor (some (.ofNat 5)) [7, 7, 9]).result = .ok w ∧
      Catalogue.sample.wireSizeFor (some (.ofNat 5)) [7, 7, 9] = .ok w.length := by
  obtain ⟨huntagged, hfor, -, hencode⟩ := wireSize_exact Catalogue.sample_keepsSize
  rcases hencode _ Catalogue.encode_sample with ⟨size, hsize, hlength⟩
  exact ⟨⟨_, size, Catalogue.encode_sample, hsize, hlength⟩, ⟨_, rfl, huntagged _ rfl⟩,
    ⟨_, rfl, hfor (some (.ofNat 5)) [7, 7, 9] _ rfl⟩⟩

end Message

end Groupcast
