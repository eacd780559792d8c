import Groupcast.Proofs.Catalogue.Contract
import Groupcast.Proofs.Message.Congruence
import Groupcast.Proofs.Message.Payload

/-!
# Round trip of messages

A message that can be written is read back in normal form, and the reading leaves whatever follows
it. Three things are asked of the message: what the application adds to it is registered and can be
read back (`Message.Readable`), and its composites do not lie too deep in one another
(`Message.NestsWithin`).

The proof follows the structure of the message. A reader that has fuel for `n` bytes restores the
message from any input of at most `n` bytes, whatever `n` is (`Message.Restorable`); a message that
lies in another is behind the kind byte of the latter, which pays for the unit of fuel.
-/

namespace Groupcast

variable {D : Dialect}

/-! ## Parts of a message -/

/-- Whatever its fuel, a reader restores the message from inputs no longer than that. -/
def Message.Restorable (r : Registry D) (m : Message D) : Prop :=
  ∀ levels, m.NestsWithin levels → ∀ w, m.emit.result = .ok w → ∀ fuel,
    (reading r fuel levels).RestoresWithin fuel w m.norm

theorem Message.Restorable.readsBack {r : Registry D} {m : Message D} (h : m.Restorable r)
    (hnests : m.NestsWithin maxNesting) : m.ReadsBack r :=
  fun w hemit rest => h maxNesting hnests w hemit (w ++ rest).length rest (Nat.le_refl _)

/-- Messages in a row are restored in their order. -/
theorem restores_emissions {r : Registry D} {ms : List (Message D)} {levels : Nat}
    (hms : ∀ m ∈ ms, m.Restorable r ∧ m.NestsWithin levels) {w : Bytes}
    (h : (Emission.concat (emissions ms)).result = .ok w) (fuel : Nat) :
    (Reading.times ms.length (Message.reading r fuel levels)).RestoresWithin fuel w
      (norms ms) := by
  rw [emissions_eq_map] at h
  rw [norms_eq_map]
  refine Reading.RestoresWithin.repeated (fun m hm u hu => ?_) [] h
  rcases hms m hm with ⟨hrestorable, hnests⟩
  exact hrestorable levels hnests u hu fuel

/-- A custom body is restored from its encoding when the messages held can be read back. -/
theorem CustomBody.ReadsBack.restores {r : Registry D} {s : D.Custom} {held : List (Message D)}
    (hback : CustomBody.ReadsBack r s held) (hheld : ∀ m ∈ held, m.ReadsBack r) {w : Bytes}
    (h : (emit s (emissions held)).result = .ok w) (fuel levels : Nat) :
    ∃ blank, r.body (kind s) = .ok blank ∧
      (blank.refill r (Message.reading r fuel) levels).RestoresWithin fuel w
        (.custom s (norms held)) := by
  rcases hback with ⟨blank, hfind, hrefill⟩
  refine ⟨_, hfind, fun rest hlength => ?_⟩
  have hread := Body.read_eq_ok.mp (hrefill hheld w h rest)
  rw [← hread]
  -- The contract speaks of a reader with just enough fuel, and at full depth.
  exact Body.run_refill_eq hfind hlength (Nat.le_refl _) levels

/-! ## The recursion -/

mutual

/-- Messages are restored: the kind finds the blank, then come the envelope and the body. -/
theorem Message.restorable {r : Registry D} (hreach : r.Reachable) (m : Message D)
    (hreadable : m.Readable r) : m.Restorable r := by
  intro levels hnests w hemit fuel
  cases m with
  | mk e body =>
    rcases hreadable with ⟨hheaders, hbody⟩
    rcases Message.result_emit_mk_eq_ok.mp hemit with ⟨u, v, hu, hv, rfl⟩
    cases fuel with
    | zero =>
      -- The kind alone is longer than such inputs.
      intro rest hlength
      simp at hlength
    | succ fuel =>
      rcases Body.restorable hreach body hbody levels hnests hv fuel with ⟨blank, hfind, hrefill⟩
      have hmessage : (Message.readingOfKind r (Message.reading r fuel) body.kind
          levels).RestoresWithin fuel (u ++ v) (.mk e body.norm) := by
        unfold Message.readingOfKind
        rw [Reading.bind_eq_bind, Reading.ofExcept_bind_of_ok hfind]
        have henvelope := (Envelope.restores_emit hheaders hu).within fuel
        exact henvelope.bind (hrefill.map (Message.mk e))
      have hread : (Message.reading r (fuel + 1) levels).RestoresWithin
          ([body.kind].length + fuel) ([body.kind] ++ (u ++ v)) (.mk e body.norm) :=
        (Reading.restores_u8 body.kind).bind_within hmessage
      rwa [List.length_singleton, Nat.add_comm] at hread

/-- Bodies are restored by the blank found under their kind, one case for each kind. -/
theorem Body.restorable {r : Registry D} (hreach : r.Reachable) (b : Body D)
    (hreadable : b.Readable r) (levels : Nat) (hnests : b.NestsWithin levels) {w : Bytes}
    (hemit : b.emit.result = .ok w) (fuel : Nat) :
    ∃ blank, r.body b.kind = .ok blank ∧
      (blank.refill r (Message.reading r fuel) levels).RestoresWithin fuel w b.norm := by
  cases b with
  | empty =>
    obtain rfl : [] = w := by simpa [Body.emit] using hemit
    exact ⟨_, hreach.body_builtin .empty, (Reading.restores_done _).within fuel⟩
  | bytes view =>
    refine ⟨_, hreach.body_builtin .bytes, Reading.Restores.within ?_ fuel⟩
    rcases view with _ | view
    · exact (View.restores_readingOptional_absent hemit).map Body.bytes
    · exact (View.restores_readingOptional hemit).map Body.bytes
  | buffer view direct =>
    refine ⟨_, hreach.body_builtin .buffer, Reading.Restores.within ?_ fuel⟩
    rw [← List.append_nil w]
    rcases view with _ | view
    · exact (View.restores_readingBuffer_absent hemit).bind (Reading.restores_done _)
    · exact (View.restores_readingBuffer hemit).bind (Reading.restores_done _)
  | directBuffer view heap =>
    refine ⟨_, hreach.body_builtin .directBuffer, Reading.Restores.within ?_ fuel⟩
    rw [← List.append_nil w]
    rcases view with _ | view
    · exact (View.restores_readingBuffer_absent hemit).bind (Reading.restores_done _)
    · exact (View.restores_readingBuffer hemit).bind (Reading.restores_done _)
  | composite children =>
    refine ⟨_, hreach.body_builtin .composite, ?_⟩
    cases levels with
    | zero =>
      -- A composite would be refused here, but there is none at this depth.
      exact hnests.elim
    | succ levels =>
      rcases Emission.result_length_append_eq_ok.mp hemit with ⟨hfits, v, hv, rfl⟩
      have hrestorable := allRestorable hreach children hreadable
      have hlevels := allNestWithin_iff.mp hnests
      have hchildren : ∀ m ∈ children, m.Restorable r ∧ m.NestsWithin levels := by
        intro m hm
        exact ⟨hrestorable m hm, hlevels m hm⟩
      have hcount := (Reading.restores_length hfits).within fuel
      have hlist := restores_emissions hchildren hv fuel
      exact hcount.bind (hlist.map Body.composite)
  | object record =>
    -- A flag says whether there is an object behind it.
    refine ⟨_, hreach.body_builtin .object, Reading.Restores.within ?_ fuel⟩
    rcases record with _ | record
    · obtain rfl : [0] = w := by simpa [Body.emit] using hemit
      exact (Reading.restores_flag false).bind (Reading.restores_done _)
    · rcases (Emission.result_append_eq_ok_of_ok (Emission.result_flag true)).mp hemit with
        ⟨t, ht, rfl⟩
      have hrecord := Record.restores_emitTagged (hreadable record rfl) ht
      exact (Reading.restores_flag true).bind (hrecord.map fun x => Body.object (some x))
  | serializable parcel =>
    exact ⟨_, hreach.body_builtin .serializable,
      ((Parcel.restores_emit hreadable hemit).map Body.serializable).within fuel⟩
  | excerpt whole window =>
    refine ⟨_, hreach.body_builtin .fragment, Reading.Restores.within ?_ fuel⟩
    rcases Emission.result_length_append_eq_ok.mp hemit with ⟨hfits, v, hv, rfl⟩
    rcases Emission.result_window_eq_ok.mp hv with ⟨_, -, -, hlength⟩
    -- What is written of a window is what would be written of the view of the bytes cut out.
    simp only [Body.norm, hv, ← hlength] at hfits ⊢
    have hview : (View.whole v).emit.result = .ok (Bytes.bigEndian 4 v.length ++ v) :=
      View.result_emit_eq_ok.mpr ⟨hfits, by rw [View.data_whole]; rfl⟩
    have hread := (View.restores_readingOptional hview).map
      fun view => Body.received (D := D) (view.getD View.empty)
    rwa [Option.getD_some, View.norm, View.data_whole] at hread
  | received view =>
    exact ⟨_, hreach.body_builtin .fragment, ((View.restores_readingOptional hemit).map
      fun view => Body.received (view.getD View.empty)).within fuel⟩
  | custom s held =>
    rcases hreadable with ⟨hback, hheld⟩
    -- The messages held are counted from full depth again, so they can be read back on their own.
    have hrestorable := allRestorable hreach held hheld
    have hlevels := allNestWithin_iff.mp hnests
    have hread : ∀ m ∈ held, m.ReadsBack r := by
      intro m hm
      exact (hrestorable m hm).readsBack (hlevels m hm)
    exact hback.restores hread hemit fuel levels

/-- `Message.restorable` for each message. -/
theorem allRestorable {r : Registry D} (hreach : r.Reachable) (ms : List (Message D))
    (hreadable : AllReadable r ms) : ∀ m ∈ ms, m.Restorable r := by
  cases ms with
  | nil => simp
  | cons m ms =>
    rcases hreadable with ⟨hm, hms⟩
    have hfirst := Message.restorable hreach m hm
    have hothers := allRestorable hreach ms hms
    intro m' hmem
    rcases List.mem_cons.mp hmem with rfl | hmem
    · exact hfirst
    · exact hothers m' hmem

end

/-! ## The round trip -/

namespace Message

/-- The bytes of a message hold its normal form. -/
theorem Restorable.decode {r : Registry D} {m : Message D} (hrestorable : m.Restorable r)
    (hnests : m.NestsWithin maxNesting) {w : Bytes} (hemit : m.emit.result = .ok w) :
    decode r w = .ok m.norm := by
  have hread := hrestorable.readsBack hnests w hemit []
  rw [List.append_nil] at hread
  exact decode_eq_ok.mpr hread

/-- A message that can be encoded is read back in normal form from its encoding, whatever follows
it, and just what follows is left. The normal form has the envelope of the message, its kind, length
and payload, and the children of a composite in their order. -/
theorem read_encode_append {r : Registry D} (hreach : r.Reachable) {m : Message D}
    (hreadable : m.Readable r) (hnests : m.NestsWithin maxNesting) {w : Bytes}
    (hencode : m.encode = .ok w) :
    (∀ rest, read r (w ++ rest) = (.ok m.norm, rest)) ∧
      m.norm.envelope = m.envelope ∧ m.norm.kind = m.kind ∧ m.norm.length = m.length ∧
      m.norm.body.hasPayload = m.body.hasPayload ∧
      m.norm.children? = m.children?.map (·.map norm) := by
  rcases encode_eq_ok.mp hencode with ⟨-, hemit⟩
  have hback : m.ReadsBack r := (restorable hreach m hreadable).readsBack hnests
  refine ⟨hback w hemit, envelope_norm m, kind_norm m, length_norm m, ?_, children?_norm m⟩
  rw [body_norm]
  exact Body.hasPayload_norm m.body

/-- The round trip of a composite with a header, which holds a wrapped message. -/
theorem read_encode_append_sample : ∃ w, Catalogue.sample.encode = .ok w ∧
    ∀ rest, read Catalogue.registry (w ++ rest) = (.ok Catalogue.sample.norm, rest) :=
  ⟨_, Catalogue.encode_sample, (read_encode_append Catalogue.registry_reachable
    Catalogue.sample_readable Catalogue.sample_nestsWithin Catalogue.encode_sample).1⟩

end Message

end Groupcast
