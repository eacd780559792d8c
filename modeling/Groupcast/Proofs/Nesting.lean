import Groupcast.Proofs.Catalogue.Payload
import Groupcast.Proofs.Message.DeclaredSize
import Groupcast.Proofs.Message.Nesting
import Groupcast.Proofs.Payload.Nesting

/-!
# The limit of nesting is exact

Writers do not look at how deep composites nest. Readers do, and draw the line in one place, for
messages as for payloads: `maxNesting` composites may lie in one another, and not one more.
-/

namespace Groupcast

/-- What is read under a condition and refused without it is read just under the condition. -/
theorem exists_ok_iff_and_refused {α : Type} {outcome : Except DecodeError α} {nests : Prop}
    (hread : nests → ∃ value, outcome = .ok value)
    (hrefused : ¬ nests → outcome = .error tooDeep) :
    ((∃ value, outcome = .ok value) ↔ nests) ∧ (¬ nests → outcome = .error tooDeep) := by
  refine ⟨⟨?_, hread⟩, hrefused⟩
  rintro ⟨value, hvalue⟩
  refine Classical.byContradiction fun hdeep => ?_
  rw [hrefused hdeep] at hvalue
  cases hvalue

/-- Whatever the registry and the source, composites of messages and payloads that are read nest at
most `maxNesting` deep. What is written, by values whose kinds are registered and keep their
contracts, is read if and only if it nests no deeper, and is refused as too deep otherwise. Inside a
body of the application the count starts again; where such a body holds a message that nests too
deep, its reader must come to it. -/
theorem nesting_exact {D : Dialect} {π : Type} [CustomPayload π] :
    (∀ (r : Registry D) (σ : Type) [Source σ] (source rest : σ) (m : Message D),
      Message.read r source = (.ok m, rest) → m.NestsWithin maxNesting) ∧
    (∀ (r : Registry D) (kind : UInt8) (σ : Type) [Source σ] (source rest : σ) (m : Message D),
      Message.readOfKind r kind source = (.ok m, rest) → m.NestsWithin maxNesting) ∧
    (∀ (r : Registry D) (w : Bytes) (m : Message D),
      Message.decode r w = .ok m → m.NestsWithin maxNesting) ∧
    (∀ (r : PayloadRegistry π) (w : Bytes) (p : Payload π),
      Payload.deserialize r w = .ok p → p.NestsWithin maxNesting) ∧
    (∀ (r : Registry D) (m : Message D) (w : Bytes), r.Reachable → m.Readable r →
      m.HoldsInPlace r → m.encode = .ok w →
        ((∃ m', Message.decode r w = .ok m') ↔ m.NestsWithin maxNesting) ∧
        (¬ m.NestsWithin maxNesting → Message.decode r w = .error tooDeep)) ∧
    (∀ (r : PayloadRegistry π) (p : Payload π) (w : Bytes), r.Reachable → p.Readable r →
      p.serialize = .ok w →
        ((∃ p', Payload.deserialize r w = .ok p') ↔ p.NestsWithin maxNesting) ∧
        (¬ p.NestsWithin maxNesting → Payload.deserialize r w = .error tooDeep)) := by
  refine ⟨?_, ?_, ?_, ?_, ?_, ?_⟩
  · intro r σ _ source rest m hread
    exact Message.nestsWithin_of_read hread
  · intro r kind σ _ source rest m hread
    exact Message.nestsWithin_of_readOfKind hread
  · intro r w m hdecode
    exact Message.nestsWithin_of_read (Message.decode_eq_ok.mp hdecode)
  · intro r w p hread
    exact Payload.nestsWithin_of_deserialize hread
  · intro r m w hreach hreadable hplace hencode
    rcases Message.encode_eq_ok.mp hencode with ⟨-, hemit⟩
    have hrestorable := Message.restorable hreach m hreadable
    have hrefusable := Message.refusable hreach m hreadable hplace
    exact exists_ok_iff_and_refused
      (fun hnests => ⟨m.norm, hrestorable.decode hnests hemit⟩)
      fun hdeep => hrefusable.decode hdeep hemit
  · intro r p w hreach hreadable hserialize
    have hrestorable := Payload.restorable hreach p hreadable
    have hrefusable := Payload.refusable hreach p hreadable
    exact exists_ok_iff_and_refused
      (fun hnests => ⟨p.norm, hrestorable.deserialize hnests hserialize⟩)
      fun hdeep => hrefusable.deserialize hdeep hserialize

/-! ## Samples -/

/-- A message in `n` composites that lie in one another. -/
def Message.stacked {D : Dialect} (m : Message D) : (n : Nat) → Message D
  | 0 => m
  | n + 1 => .ofBody (.composite [m.stacked n])

/-- A payload in `n` composites that lie in one another. -/
def Payload.stacked {π : Type} (p : Payload π) : (n : Nat) → Payload π
  | 0 => p
  | n + 1 => .composite [p.stacked n]

section Stacked

variable {D : Dialect} {m : Message D}

/-- Each composite around a message takes a level. -/
theorem Message.stacked_nestsWithin_iff (n levels : Nat) :
    (m.stacked n).NestsWithin (n + levels) ↔ m.NestsWithin levels := by
  induction n with
  | zero => rw [stacked, Nat.zero_add]
  | succ n ih =>
    rw [Nat.succ_add]
    simpa [stacked, ofBody, NestsWithin, Body.NestsWithin, AllNestWithin] using ih

theorem Message.stacked_readable {r : Registry D} (h : m.Readable r) (n : Nat) :
    (m.stacked n).Readable r := by
  induction n with
  | zero => exact h
  | succ n ih => exact ⟨fun entry hentry => absurd hentry List.not_mem_nil, ih, trivial⟩

theorem Message.stacked_holdsInPlace {r : Registry D} (h : m.HoldsInPlace r) (n : Nat) :
    (m.stacked n).HoldsInPlace r := by
  induction n with
  | zero => exact h
  | succ n ih => exact ⟨ih, trivial⟩

/-- Composites around a message are no reason not to write it. -/
theorem Message.exists_emit_stacked (h : ∃ w, m.emit.result = .ok w) (n : Nat) :
    ∃ w, (m.stacked n).emit.result = .ok w := by
  induction n with
  | zero => exact h
  | succ n ih =>
    rcases ih with ⟨w, hw⟩
    have hchildren : (Emission.concat (emissions [m.stacked n])).result = .ok (w ++ []) :=
      Emission.result_concat_cons_eq_ok.mpr ⟨w, [], hw, rfl, rfl⟩
    have hcount : 1 ≤ Emission.maxLength := by decide
    have hbody := Emission.result_length_append_eq_ok.mpr ⟨hcount, _, hchildren, rfl⟩
    exact ⟨_, result_emit_mk_eq_ok.mpr ⟨_, _, rfl, hbody, rfl⟩⟩

end Stacked

section Stacked

variable {π : Type} {p : Payload π}

theorem Payload.stacked_nestsWithin_iff (n levels : Nat) :
    (p.stacked n).NestsWithin (n + levels) ↔ p.NestsWithin levels := by
  induction n with
  | zero => rw [stacked, Nat.zero_add]
  | succ n ih =>
    rw [Nat.succ_add]
    simpa [stacked, NestsWithin, AllNestWithin] using ih

variable [CustomPayload π]

theorem Payload.stacked_readable {r : PayloadRegistry π} (h : p.Readable r) (n : Nat) :
    (p.stacked n).Readable r := by
  induction n with
  | zero => exact h
  | succ n ih => exact ⟨ih, trivial⟩

theorem Payload.exists_emit_stacked (h : ∃ w, p.emit.result = .ok w) (n : Nat) :
    ∃ w, (p.stacked n).emit.result = .ok w := by
  induction n with
  | zero => exact h
  | succ n ih =>
    rcases ih with ⟨w, hw⟩
    have hchildren : (Emission.concat ([p.stacked n].map emit)).result = .ok (w ++ []) :=
      Emission.result_concat_cons_eq_ok.mpr ⟨w, [], hw, rfl, rfl⟩
    have hcount : [p.stacked n].length < UInt16.size := (by decide : 1 < UInt16.size)
    have hbody := result_emitUntagged_composite_eq_ok.mpr ⟨hcount, _, hchildren, rfl⟩
    exact ⟨_, result_emit_eq_ok.mpr ⟨_, hbody, rfl⟩⟩

end Stacked

namespace Catalogue

/-- A message in a wrapper. -/
def wrapped (m : Message dialect) : Message dialect :=
  .ofBody (.custom (.wrap 41) [m])

/-- A wrapper asks for its message where it is written. -/
theorem Custom.wrap_holdsInPlace {r : Registry dialect} {kind : UInt8}
    (hfind : r.body kind = .ok (.custom (.wrap kind) [])) (m : Message dialect) :
    CustomBody.HoldsInPlace r (.wrap kind) [m] := by
  intro hdeep blank hblank w hw behind
  cases hfind.symm.trans hblank
  rw [emit_wrap] at hw
  have hfirst : ¬ m.NestsWithin maxNesting := fun hnests => hdeep ⟨hnests, trivial⟩
  exact ⟨m, [], w, [], rfl, hw, (List.append_nil w).symm, fun hnests => absurd hnests hfirst⟩

/-- A wrapper in `maxNesting` composites, around a message in as many. -/
def towers (m : Message dialect) : Message dialect :=
  (wrapped (m.stacked maxNesting)).stacked maxNesting

/-- The towers are as deep as they may be, if there is no composite in them. -/
theorem towers_nestsWithin_iff (m : Message dialect) :
    (towers m).NestsWithin maxNesting ↔ m.NestsWithin 0 := by
  have houter := Message.stacked_nestsWithin_iff (m := wrapped (m.stacked maxNesting)) maxNesting 0
  have hinner := Message.stacked_nestsWithin_iff (m := m) maxNesting 0
  rw [towers, ← hinner]
  refine houter.trans ?_
  simp [wrapped, Message.ofBody, Message.NestsWithin, Body.NestsWithin, AllNestWithin]

theorem towers_readable {m : Message dialect} (h : m.Readable registry) :
    (towers m).Readable registry := by
  have hinner := Message.stacked_readable h maxNesting
  have hfind : registry.body 41 = .ok (.custom (.wrap 41) []) := rfl
  have hback := Custom.wrap_readsBack hfind (m.stacked maxNesting)
  have hwrapped : (wrapped (m.stacked maxNesting)).Readable registry :=
    ⟨fun entry hentry => absurd hentry List.not_mem_nil, hback, hinner, trivial⟩
  exact Message.stacked_readable hwrapped maxNesting

theorem towers_holdsInPlace {m : Message dialect} (h : m.HoldsInPlace registry) :
    (towers m).HoldsInPlace registry := by
  have hinner := Message.stacked_holdsInPlace h maxNesting
  have hwrapped : (wrapped (m.stacked maxNesting)).HoldsInPlace registry :=
    ⟨Custom.wrap_holdsInPlace rfl _, hinner, trivial⟩
  exact Message.stacked_holdsInPlace hwrapped maxNesting

theorem exists_encode_towers {m : Message dialect} (h : ∃ w, m.emit.result = .ok w) :
    ∃ w, (towers m).encode = .ok w := by
  rcases Message.exists_emit_stacked h maxNesting with ⟨w, hw⟩
  rw [← Custom.emit_wrap 41] at hw
  have hwrapped : ∃ v, (wrapped (m.stacked maxNesting)).emit.result = .ok v :=
    ⟨_, Message.result_emit_mk_eq_ok.mpr ⟨_, _, rfl, hw, rfl⟩⟩
  rcases Message.exists_emit_stacked hwrapped maxNesting with ⟨v, hv⟩
  exact ⟨v, Message.encode_eq_ok_iff_emit.mpr hv⟩

/-- Towers without a composite in them are read, and those with an empty one are refused; so are
payloads with a leaf, or an empty composite, in `maxNesting` composites. -/
theorem nesting_exact_towers :
    (∃ w, (towers (.ofBody .empty)).encode = .ok w ∧ ∃ m, Message.decode registry w = .ok m) ∧
    (∃ w, (towers (.ofBody (.composite []))).encode = .ok w ∧
      Message.decode registry w = .error tooDeep) ∧
    (∃ w, ((Payload.bytes View.empty : Payload Datum).stacked maxNesting).serialize = .ok w ∧
      ∃ p, Payload.deserialize payloadRegistry w = .ok p) ∧
    (∃ w, ((Payload.composite [] : Payload Datum).stacked maxNesting).serialize = .ok w ∧
      Payload.deserialize payloadRegistry w = .error tooDeep) := by
  have hheaders : ∀ entry ∈ (Envelope.blank (D := dialect)).headers.entries,
      Streamable.ReadsBack registry.header entry.2 :=
    fun entry hentry => absurd hentry List.not_mem_nil
  have hreadable : (towers (.ofBody .empty)).Readable registry :=
    towers_readable (m := .ofBody .empty) ⟨hheaders, trivial⟩
  have hnests : (towers (.ofBody .empty)).NestsWithin maxNesting :=
    (towers_nestsWithin_iff _).mpr trivial
  have hhollow : (towers (.ofBody (.composite []))).Readable registry :=
    towers_readable (m := .ofBody (.composite [])) ⟨hheaders, trivial⟩
  have hplace : (towers (.ofBody (.composite []))).HoldsInPlace registry :=
    towers_holdsInPlace (m := .ofBody (.composite [])) trivial
  rcases nesting_exact (D := dialect) (π := Datum) with ⟨-, -, -, -, hmessage, hpayload⟩
  refine ⟨?_, ?_, ?_, ?_⟩
  · rcases exists_encode_towers (m := .ofBody .empty) ⟨_, rfl⟩ with ⟨w, hencode⟩
    have hexact := hmessage registry _ w registry_reachable hreadable hnests.holdsInPlace
      hencode
    exact ⟨w, hencode, hexact.1.mpr hnests⟩
  · rcases exists_encode_towers (m := .ofBody (.composite [])) ⟨_, rfl⟩ with ⟨w, hencode⟩
    have hexact := hmessage registry _ w registry_reachable hhollow hplace hencode
    exact ⟨w, hencode, hexact.2 (mt (towers_nestsWithin_iff _).mp not_false)⟩
  · have hleaf : (Payload.bytes View.empty : Payload Datum).Readable payloadRegistry := trivial
    rcases Payload.exists_emit_stacked (p := (.bytes View.empty : Payload Datum)) ⟨_, rfl⟩
      maxNesting with ⟨w, hserialize⟩
    have hexact := hpayload payloadRegistry _ w payloadRegistry_reachable
      (Payload.stacked_readable hleaf maxNesting) hserialize
    exact ⟨w, hserialize, hexact.1.mpr ((Payload.stacked_nestsWithin_iff maxNesting 0).mpr trivial)⟩
  · have hhollow : (Payload.composite [] : Payload Datum).Readable payloadRegistry := trivial
    rcases Payload.exists_emit_stacked (p := (.composite [] : Payload Datum)) ⟨_, rfl⟩
      maxNesting with ⟨w, hserialize⟩
    have hexact := hpayload payloadRegistry _ w payloadRegistry_reachable
      (Payload.stacked_readable hhollow maxNesting) hserialize
    exact ⟨w, hserialize, hexact.2 (mt (Payload.stacked_nestsWithin_iff maxNesting 0).mp not_false)⟩

end Catalogue

end Groupcast
