import Groupcast.Proofs.Message.RoundTrip
import Groupcast.Proofs.Reading.Refusal
import Groupcast.Proofs.Reading.Yield

/-!
# How deep messages nest

A reader never gets a message whose composites nest deeper than it lets them, whatever the registry
and the source. A message whose composites do nest deeper can be written; a reader refuses it, with
the same error wherever the composite lies that is one too deep. What lies before that composite is
read, and what comes after it does not matter.

Inside a body of an application the count starts again, for its reader asks for the messages held
as for any other message. A contract for what is read back says nothing of a body that holds a
message which cannot be read, so of such a body, and of no other, it is asked that its reader comes
to that message (`CustomBody.HoldsInPlace`). The window of a fragment is bytes to a reader, however
deep the message nests that it is cut from.
-/

namespace Groupcast

variable {D : Dialect}

/-! ## What is read -/

/-- A script holds only what its reading for messages can end with. -/
theorem BodyScript.readingFrom_yields {σ μ : Type} {P : μ → Prop} {message : Reading μ}
    (hmessage : message.Yields P) (script : BodyScript σ) {held : List μ}
    (hheld : ∀ m ∈ held, P m) :
    (script.readingFrom message held).Yields fun found => ∀ m ∈ found.2, P m := by
  induction script generalizing held with
  | done state =>
    intro m hmem
    exact hheld m (List.mem_reverse.mp hmem)
  | fail error => trivial
  | take how count next ih => exact fun bytes => ih bytes hheld
  | ask next ih => exact fun left => ih left hheld
  | message next ih =>
    refine hmessage.bind fun m hm => ih ?_
    exact List.forall_mem_cons.mpr ⟨hm, hheld⟩

/-- A blank is refilled to a body that nests as deep as it may, when the messages in it do. -/
theorem Body.refill_yields (r : Registry D) {message : (levels : Nat) → Reading (Message D)}
    (hmessage : ∀ levels, (message levels).Yields (·.NestsWithin levels)) (blank : Body D)
    (levels : Nat) : (blank.refill r message levels).Yields (·.NestsWithin levels) := by
  cases blank with
  | empty => trivial
  | bytes view => exact Reading.yields_bind _ fun _ => trivial
  | buffer view direct =>
    refine Reading.yields_bind _ fun found => ?_
    cases found <;> trivial
  | directBuffer view heap =>
    refine Reading.yields_bind _ fun found => ?_
    cases found <;> trivial
  | composite children =>
    cases levels with
    | zero => trivial
    | succ levels =>
      refine Reading.yields_bind _ fun count => ((hmessage levels).times count).map ?_
      intro children hchildren
      exact allNestWithin_iff.mpr hchildren
  | object held =>
    refine Reading.yields_bind _ fun given => ?_
    split
    · exact Reading.yields_bind _ fun _ => trivial
    · trivial
  | serializable parcel => exact Reading.yields_bind _ fun _ => trivial
  | excerpt whole window => exact Reading.yields_bind _ fun _ => trivial
  | received view => exact Reading.yields_bind _ fun _ => trivial
  | custom s held =>
    -- The messages held may nest at full depth again.
    have hnothing : ∀ m ∈ ([] : List (Message D)), m.NestsWithin maxNesting :=
      fun m hm => absurd hm List.not_mem_nil
    have hscript := BodyScript.readingFrom_yields (hmessage maxNesting) (CustomBody.refill s)
      hnothing
    exact hscript.bind fun found hfound => allNestWithin_iff.mpr hfound

namespace Message

/-- Behind its kind, a message nests as deep as its body. -/
theorem readingOfKind_yields (r : Registry D) {message : (levels : Nat) → Reading (Message D)}
    (hmessage : ∀ levels, (message levels).Yields (·.NestsWithin levels)) (kind : UInt8)
    (levels : Nat) : (readingOfKind r message kind levels).Yields (·.NestsWithin levels) := by
  refine Reading.yields_bind _ fun blank => Reading.yields_bind _ fun envelope => ?_
  have hbody := Body.refill_yields r hmessage blank levels
  exact hbody.map fun body hnests => hnests

/-- Whatever the registry and the input, composites of a message that is read nest no deeper than
they may. Induction on the fuel. -/
theorem reading_yields (r : Registry D) (fuel levels : Nat) :
    (reading r fuel levels).Yields (·.NestsWithin levels) := by
  induction fuel generalizing levels with
  | zero => trivial
  | succ fuel ih => exact Reading.yields_bind _ fun kind => readingOfKind_yields r ih kind levels

section Source

variable {σ : Type} [Source σ] {r : Registry D} {source rest : σ} {m : Message D}

/-- No source yields a message that nests deeper than messages may. -/
theorem nestsWithin_of_read (h : read r source = (.ok m, rest)) : m.NestsWithin maxNesting :=
  (reading_yields r _ maxNesting).of_run h

/-- Neither does a source whose next message is of a known kind. -/
theorem nestsWithin_of_readOfKind {kind : UInt8} (h : readOfKind r kind source = (.ok m, rest)) :
    m.NestsWithin maxNesting :=
  (readingOfKind_yields r (reading_yields r _) kind maxNesting).of_run h

end Source

end Message

/-! ## Holding messages in place -/

/-- Whether a script, in front of `bytes` and `behind` more, comes to the first of the messages held
that nests too deep: it takes only what lies before that message, and asks for a message where each
of them is written. What it does from there on does not matter. -/
def BodyScript.Reaches (behind : Nat) :
    BodyScript D.Custom → (bytes : Bytes) → (held : List (Message D)) → Prop
  | .done _, _, _ => False
  | .fail _, _, _ => False
  | .take _ count next, bytes, held => ∃ taken more, taken.length = count ∧
      bytes = taken ++ more ∧ (next taken).Reaches behind more held
  | .ask next, bytes, held => (next (bytes.length + behind)).Reaches behind bytes held
  | .message next, bytes, held => ∃ m others u more, held = m :: others ∧
      m.emit.result = .ok u ∧ bytes = u ++ more ∧
      (m.NestsWithin maxNesting → next.Reaches behind more others)

/-- Whether the reader of a body comes to the first message held that nests too deep, if there is
one, from what is written of the body and whatever follows it. -/
def CustomBody.HoldsInPlace (r : Registry D) (s : D.Custom) (held : List (Message D)) : Prop :=
  ¬ AllNestWithin held maxNesting → ∀ blank, r.body (kind s) = .ok (.custom blank []) →
    ∀ w, (emit s (emissions held)).result = .ok w → ∀ behind, (refill blank).Reaches behind w held

mutual

/-- Whether the bodies of the application that lie in a message hold their messages in place. -/
def Message.HoldsInPlace (r : Registry D) : Message D → Prop
  | .mk _ body => body.HoldsInPlace r

/-- `Message.HoldsInPlace` of what lies in a body. -/
def Body.HoldsInPlace (r : Registry D) : Body D → Prop
  | .composite children => AllHoldInPlace r children
  | .custom s held => CustomBody.HoldsInPlace r s held ∧ AllHoldInPlace r held
  | _ => True

/-- `Message.HoldsInPlace` of each message. -/
def AllHoldInPlace (r : Registry D) : List (Message D) → Prop
  | [] => True
  | m :: ms => m.HoldsInPlace r ∧ AllHoldInPlace r ms

end

mutual

/-- Nothing is asked of a message that may be read: its bodies hold no message that nests too
deep. -/
theorem Message.NestsWithin.holdsInPlace {r : Registry D} {m : Message D} {levels : Nat}
    (h : m.NestsWithin levels) : m.HoldsInPlace r := by
  cases m with
  | mk e body => exact Body.NestsWithin.holdsInPlace h

/-- `Message.NestsWithin.holdsInPlace` of what lies in a body. -/
theorem Body.NestsWithin.holdsInPlace {r : Registry D} {b : Body D} {levels : Nat}
    (h : b.NestsWithin levels) : b.HoldsInPlace r := by
  cases b with
  | composite children =>
    cases levels with
    | zero => exact h.elim
    | succ levels => exact AllNestWithin.holdInPlace h
  | custom s held => exact ⟨fun hdeep => absurd h hdeep, AllNestWithin.holdInPlace h⟩
  | _ => trivial

/-- `Message.NestsWithin.holdsInPlace` of each message. -/
theorem AllNestWithin.holdInPlace {r : Registry D} {ms : List (Message D)} {levels : Nat}
    (h : AllNestWithin ms levels) : AllHoldInPlace r ms := by
  cases ms with
  | nil => trivial
  | cons m ms =>
    exact ⟨Message.NestsWithin.holdsInPlace h.1, AllNestWithin.holdInPlace h.2⟩

end

/-! ## What is refused -/

section Refusal

variable {r : Registry D}

/-- Where its composites nest too deep, a reader refuses the message. -/
def Message.Refusable (r : Registry D) (m : Message D) : Prop :=
  ∀ levels, ¬ m.NestsWithin levels → ∀ w, m.emit.result = .ok w → ∀ fuel,
    (reading r fuel levels).RefusesWithin fuel w tooDeep

/-- A script that comes to a message that nests too deep is refused there. Induction on the
script. -/
theorem BodyScript.Reaches.refused {script : BodyScript D.Custom} {bytes rest : Bytes}
    {held : List (Message D)} (hreaches : script.Reaches rest.length bytes held)
    (hrestorable : ∀ m ∈ held, m.Restorable r) (hrefusable : ∀ m ∈ held, m.Refusable r)
    {fuel : Nat} (hlength : (bytes ++ rest).length ≤ fuel) (before : List (Message D)) :
    ((script.readingFrom (Message.reading r fuel maxNesting) before).run (bytes ++ rest)).1
      = .error tooDeep := by
  induction script generalizing bytes held before with
  | done state => exact hreaches.elim
  | fail error => exact hreaches.elim
  | take how count next ih =>
    rcases hreaches with ⟨taken, more, hcount, rfl, hnext⟩
    rw [List.append_assoc] at hlength ⊢
    rw [readingFrom, Reading.run_take_append hcount]
    rw [List.length_append] at hlength
    exact ih taken hnext hrestorable hrefusable (by omega) before
  | ask next ih =>
    -- The source answers with just the bytes in front and those behind.
    rw [Reaches, ← List.length_append] at hreaches
    exact ih _ hreaches hrestorable hrefusable hlength before
  | message next ih =>
    rcases hreaches with ⟨m, others, u, more, rfl, hu, rfl, hnext⟩
    rw [List.forall_mem_cons] at hrestorable hrefusable
    rw [List.append_assoc] at hlength ⊢
    rw [readingFrom, Reading.run_bind]
    by_cases hnests : m.NestsWithin maxNesting
    · rw [hrestorable.1 maxNesting hnests u hu fuel (more ++ rest) hlength]
      rw [List.length_append] at hlength
      exact ih (hnext hnests) hrestorable.2 hrefusable.2 (by omega) (m.norm :: before)
    · have hrefused := hrefusable.1 maxNesting hnests u hu fuel (more ++ rest) hlength
      rcases hrun : (Message.reading r fuel maxNesting).run (u ++ (more ++ rest)) with
        ⟨outcome, left⟩
      rw [hrun] at hrefused
      cases hrefused
      rfl

mutual

/-- A message is refused for its body. -/
theorem Message.refusable (hreach : r.Reachable) (m : Message D) (hreadable : m.Readable r)
    (hplace : m.HoldsInPlace r) : m.Refusable r := by
  intro levels hdeep w hemit fuel
  cases m with
  | mk e body =>
    rcases hreadable with ⟨hheaders, hbody⟩
    rcases Message.result_emit_mk_eq_ok.mp hemit with ⟨u, v, hu, hv, rfl⟩
    cases fuel with
    | zero =>
      -- The kind alone is longer than such inputs.
      intro rest hlength
      simp at hlength
    | succ fuel =>
      rcases Body.refusable hreach body hbody hplace levels hdeep hv fuel with
        ⟨blank, hfind, hrefill⟩
      have hmessage : (Message.readingOfKind r (Message.reading r fuel) body.kind
          levels).RefusesWithin fuel (u ++ v) tooDeep := by
        unfold Message.readingOfKind
        rw [Reading.bind_eq_bind, Reading.ofExcept_bind_of_ok hfind]
        have henvelope := (Envelope.restores_emit hheaders hu).within fuel
        exact henvelope.bind_refuses (hrefill.map (Message.mk e))
      have hread : (Message.reading r (fuel + 1) levels).RefusesWithin
          ([body.kind].length + fuel) ([body.kind] ++ (u ++ v)) tooDeep :=
        (Reading.restores_u8 body.kind).bind_refuses hmessage
      rwa [List.length_singleton, Nat.add_comm] at hread

/-- Composites are refused for their own depth, or at the first message in them that is refused; so
are bodies of the application at the first message held. Other bodies hold no messages. -/
theorem Body.refusable (hreach : r.Reachable) (b : Body D) (hreadable : b.Readable r)
    (hplace : b.HoldsInPlace r) (levels : Nat) (hdeep : ¬ b.NestsWithin levels) {w : Bytes}
    (hemit : b.emit.result = .ok w) (fuel : Nat) :
    ∃ blank, r.body b.kind = .ok blank ∧
      (blank.refill r (Message.reading r fuel) levels).RefusesWithin fuel w tooDeep := by
  cases b with
  | composite children =>
    refine ⟨_, hreach.body_builtin .composite, ?_⟩
    cases levels with
    | zero => exact Reading.refusesWithin_fail fuel w tooDeep
    | succ levels =>
      rcases Emission.result_length_append_eq_ok.mp hemit with ⟨hfits, v, hv, rfl⟩
      have hrestorable := allRestorable hreach children hreadable
      have hrefusable := allRefusable hreach children hreadable hplace
      have hsome : ¬ ∀ m ∈ children, m.NestsWithin levels := mt allNestWithin_iff.mpr hdeep
      rw [emissions_eq_map] at hv
      have hrow := Reading.RefusesWithin.repeated
        (fun m hm hnests u hu => hrestorable m hm levels hnests u hu fuel)
        (fun m hm hnests u hu => hrefusable m hm levels hnests u hu fuel) hsome [] hv
      have hcount := (Reading.restores_length hfits).within fuel
      exact hcount.bind_refuses (hrow.map Body.composite)
  | custom s held =>
    rcases hreadable with ⟨⟨blank, hfind, -⟩, hheld⟩
    rcases hplace with ⟨hreaches, hplaces⟩
    have hrestorable := allRestorable hreach held hheld
    have hrefusable := allRefusable hreach held hheld hplaces
    have hscript : ((CustomBody.refill blank).reading
        (Message.reading r fuel maxNesting)).RefusesWithin fuel w tooDeep := by
      intro rest hlength
      have hreaches := hreaches hdeep blank hfind w hemit rest.length
      exact hreaches.refused hrestorable hrefusable hlength []
    exact ⟨_, hfind, hscript.map fun found => Body.custom found.1 found.2⟩
  | _ => exact absurd trivial hdeep

/-- `Message.refusable` for each message. -/
theorem allRefusable (hreach : r.Reachable) (ms : List (Message D)) (hreadable : AllReadable r ms)
    (hplace : AllHoldInPlace r ms) : ∀ m ∈ ms, m.Refusable r := by
  cases ms with
  | nil => simp
  | cons m ms =>
    rcases hreadable with ⟨hm, hms⟩
    rcases hplace with ⟨hfirst, hrest⟩
    have hrefusable := Message.refusable hreach m hm hfirst
    have hothers := allRefusable hreach ms hms hrest
    exact List.forall_mem_cons.mpr ⟨hrefusable, hothers⟩

end

/-- The bytes of a message that nests too deep are no input. -/
theorem Message.Refusable.decode {m : Message D} (hrefusable : m.Refusable r)
    (hdeep : ¬ m.NestsWithin maxNesting) {w : Bytes} (hemit : m.emit.result = .ok w) :
    decode r w = .error tooDeep := by
  have hrefused := hrefusable maxNesting hdeep w hemit w.length []
  rw [List.append_nil] at hrefused
  exact Reading.runExactly_of_error (Prod.ext (hrefused (Nat.le_refl _)) rfl)

end Refusal

end Groupcast
