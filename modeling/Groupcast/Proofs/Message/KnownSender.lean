import Groupcast.Message.Edit
import Groupcast.Proofs.Message.DeclaredSize
import Groupcast.Proofs.Message.RoundTrip

/-!
# Transports that know the sender

A transport that knows who sends a message need not write its addresses, and leaves out the headers
of some layers. What it writes is what would be written of a smaller message, which has the same
body: `Message.reducedFor` takes these headers out of the envelope, and the addresses too when they
tell the receiver nothing. So what the receiver reads is that message.
-/

namespace Groupcast

/-! ## Headers that are taken out -/

namespace HeaderMap

variable {α : Type}

/-- The map without the headers of the given layers, which are taken out one by one. -/
def eraseAll (m : HeaderMap α) (excluded : List HeaderId) : HeaderMap α :=
  excluded.foldl erase m

/-- The headers that are left are those that are not left out when the map is written. Induction on
the layers: taking the first of them out filters once more. -/
theorem entries_eraseAll (m : HeaderMap α) (excluded : List HeaderId) :
    (m.eraseAll excluded).entries = m.retained excluded := by
  induction excluded generalizing m with
  | nil => exact (retained_nil m).symm
  | cons id excluded ih =>
    have hrest : ((m.erase id).eraseAll excluded).entries = (m.erase id).retained excluded :=
      ih (m.erase id)
    have hboth : (m.erase id).retained excluded = m.retained (id :: excluded) := by
      simp only [retained, erase, List.filter_filter]
      refine List.filter_congr fun entry _ => ?_
      by_cases hid : entry.1 = id <;> simp [hid]
    exact hrest.trans hboth

section Wire

variable [Streamable α]

theorem emit_eraseAll (m : HeaderMap α) (excluded : List HeaderId) :
    (m.eraseAll excluded).emit [] = m.emit excluded := by
  unfold emit
  rw [retained_nil, entries_eraseAll]

theorem wireSize_eraseAll (m : HeaderMap α) (excluded : List HeaderId) :
    (m.eraseAll excluded).wireSize [] = m.wireSize excluded := by
  unfold wireSize
  rw [retained_nil, entries_eraseAll]

end Wire

end HeaderMap

/-! ## Smaller messages -/

variable {D : Dialect}

namespace Envelope

/-- The envelope without the headers of the excluded layers, and without addresses if there is a
known sender and the message names no other. -/
def reducedFor (e : Envelope D) (sender : Option Address) (excluded : List HeaderId) :
    Envelope D :=
  if ∃ s ∈ sender, ∀ own ∈ e.src, own = s then
    { e with dest := none, src := none, headers := e.headers.eraseAll excluded }
  else { e with headers := e.headers.eraseAll excluded }

variable (e : Envelope D) (sender : Option Address) (excluded : List HeaderId)

/-- The addresses that are left are those that are written. -/
theorem addressesFor_eq_reducedFor : e.addressesFor sender
    = ((e.reducedFor sender excluded).dest, (e.reducedFor sender excluded).src) := by
  rcases e with ⟨dest, src, flags, transient, headers⟩
  cases sender with
  | none => simp [addressesFor, reducedFor]
  | some s =>
    cases src with
    | none => simp [addressesFor, reducedFor]
    | some own => by_cases hown : own = s <;> simp [addressesFor, reducedFor, hown]

theorem headers_reducedFor :
    (e.reducedFor sender excluded).headers = e.headers.eraseAll excluded := by
  unfold reducedFor
  split <;> rfl

theorem flags_reducedFor : (e.reducedFor sender excluded).flags = e.flags ∧
    (e.reducedFor sender excluded).transient = e.transient := by
  unfold reducedFor
  split <;> exact ⟨rfl, rfl⟩

/-- What is written for a known sender is the smaller envelope. -/
theorem emitFor_eq_emit_reducedFor :
    e.emitFor sender excluded = (e.reducedFor sender excluded).emit := by
  unfold emitFor emit emitWith
  rcases e.flags_reducedFor sender excluded with ⟨hflags, htransient⟩
  rw [hflags, htransient, headers_reducedFor, HeaderMap.emit_eraseAll,
    addressesFor_eq_reducedFor e sender excluded]

theorem wireSizeFor_eq_wireSize_reducedFor :
    e.wireSizeFor sender excluded = (e.reducedFor sender excluded).wireSize := by
  unfold wireSizeFor wireSize
  rw [headers_reducedFor, HeaderMap.wireSize_eraseAll, addressesFor_eq_reducedFor e sender excluded]

end Envelope

namespace Message

/-- The message that is written for a known sender: its envelope is smaller, its body the same. -/
def reducedFor (m : Message D) (sender : Option Address) (excluded : List HeaderId) : Message D :=
  m.mapEnvelope (·.reducedFor sender excluded)

/-- A message is read behind its kind. -/
theorem readOfKind_eq_read (r : Registry D) (kind : UInt8) (source : Bytes) :
    readOfKind r kind source = read r (kind :: source) := by
  have hkind : Reading.u8.run (kind :: source) = (.ok kind, source) :=
    Reading.restores_u8 kind source
  show _ = (Reading.u8.bind fun kind =>
    readingOfKind r (reading r source.length) kind maxNesting).run (kind :: source)
  rw [Reading.run_bind, hkind]
  rfl

/-- What a transport writes that knows the sender, or does not, without the headers of some layers.
It is what is written of the message without these headers, and without both addresses just when
there is a known sender and the message has no source or that one: piece by piece, and up to the
same error if there is one. The sizes are the same too. Nothing is changed in the body, and the
headers that are left stay in order. Read with the kind of the message, it is read back as the
smaller message. -/
theorem emitFor_eq_emitUntagged (m : Message D) (sender : Option Address)
    (excluded : List HeaderId) :
    m.emitFor sender excluded = (m.reducedFor sender excluded).emitUntagged ∧
    m.wireSizeFor sender excluded = (m.reducedFor sender excluded).wireSize ∧
    (m.reducedFor sender excluded).body = m.body ∧
    (m.reducedFor sender excluded).envelope.headers.entries
      = m.envelope.headers.entries.filter (·.1 ∉ excluded) ∧
    ∀ r : Registry D, r.Reachable → (m.reducedFor sender excluded).Readable r →
      m.NestsWithin maxNesting → ∀ w, (m.emitFor sender excluded).result = .ok w →
        ∀ rest, readOfKind r m.kind (w ++ rest)
          = (.ok (m.reducedFor sender excluded).norm, rest) := by
  rcases m with ⟨e, body⟩
  have hemit : (mk e body).emitFor sender excluded
      = ((mk e body).reducedFor sender excluded).emitUntagged :=
    congrArg (· ++ body.emit) (e.emitFor_eq_emit_reducedFor sender excluded)
  have hsize : (mk e body).wireSizeFor sender excluded
      = ((mk e body).reducedFor sender excluded).wireSize :=
    congrArg (fun size => body.wireSize.map (size + ·))
      (e.wireSizeFor_eq_wireSize_reducedFor sender excluded)
  refine ⟨hemit, hsize, rfl, ?_, ?_⟩
  · show (e.reducedFor sender excluded).headers.entries = _
    rw [Envelope.headers_reducedFor, HeaderMap.entries_eraseAll]
    simp [HeaderMap.retained, envelope]
  · intro r hreach hreadable hnests w hw rest
    rw [hemit] at hw
    have htagged : ((mk e body).reducedFor sender excluded).emit.result = .ok ([body.kind] ++ w) :=
      Emission.result_append_eq_ok.mpr ⟨_, _, Emission.result_byte _, hw, rfl⟩
    have hback : ((mk e body).reducedFor sender excluded).ReadsBack r :=
      (restorable hreach _ hreadable).readsBack hnests
    rw [readOfKind_eq_read]
    exact hback _ htagged rest

/-- A composite with a header and both addresses. -/
def addressed : Message Catalogue.dialect :=
  (Catalogue.sample.setDest (some (.ofNat 1))).setSrc (some (.ofNat 5))

/-- For a transport that knows its sender nothing but the body is left, when its header is left out
(twice, and with one that is not there). It is read back that way. -/
theorem emitFor_eq_emitUntagged_sample :
    addressed.reducedFor (some (.ofNat 5)) [7, 9, 7] = .ofBody Catalogue.sample.body ∧
    ∃ w, (addressed.emitFor (some (.ofNat 5)) [7, 9, 7]).result = .ok w ∧
      ∀ rest, readOfKind Catalogue.registry 4 (w ++ rest)
        = (.ok (Message.ofBody Catalogue.sample.body).norm, rest) := by
  have hreduced : addressed.reducedFor (some (.ofNat 5)) [7, 9, 7]
      = .ofBody Catalogue.sample.body := rfl
  have hreadable : (Message.ofBody Catalogue.sample.body).Readable Catalogue.registry :=
    ⟨fun entry hentry => absurd hentry List.not_mem_nil, Catalogue.sample_readable.2⟩
  obtain ⟨-, -, -, -, hread⟩ :=
    emitFor_eq_emitUntagged addressed (some (.ofNat 5)) [7, 9, 7]
  rw [hreduced] at hread
  exact ⟨hreduced, _, rfl, hread _ Catalogue.registry_reachable hreadable
    Catalogue.sample_nestsWithin _ rfl⟩

end Message

end Groupcast
