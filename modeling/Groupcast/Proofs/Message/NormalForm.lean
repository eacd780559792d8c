import Groupcast.Proofs.Catalogue.Faithful
import Groupcast.Proofs.Message.DeclaredSize
import Groupcast.Proofs.Message.Faithful
import Groupcast.Proofs.Message.RoundTrip

/-!
# Normal forms of inputs

Many inputs may be read as one message. The one that the message is encoded to is their normal form:
it is read as the same message, and encoded to itself. `Message.decode_normalForm` says that every
input that is accepted has such a form, and what is lost on the way to it.

The proof follows the reader. What is shown of a message that was read (`Message.Settled`) needs the
same of the messages in its body, which are read with less fuel; so there is one induction, over the
fuel, and one case for each kind of blank. Bodies of the application keep their contract, once their
messages are known to be written.
-/

namespace Groupcast

variable {D : Dialect} {r : Registry D}

/-! ## Messages that were read -/

/-- What there is to know of a message that was read: it can be read back, composites nest in it no
deeper than was allowed, and it is in normal form. -/
structure Message.Settled (r : Registry D) (levels : Nat) (m : Message D) : Prop where
  readable : m.Readable r
  nests : m.NestsWithin levels
  norm : m.norm = m
  written : ∃ w, m.emit.result = .ok w

/-- `Message.Settled` of what lies in a body. -/
structure Body.Settled (r : Registry D) (levels : Nat) (b : Body D) : Prop where
  readable : b.Readable r
  nests : b.NestsWithin levels
  norm : b.norm = b

/-- Whether all messages that a reader gets from inputs of at most `limit` bytes are settled, and
are written as what they were read from. -/
def Reading.SettlesWithin (r : Registry D) (levels limit : Nat)
    (a : Reading (Message D × List Note)) : Prop :=
  ∀ source m notes rest, source.length ≤ limit → a.run source = (.ok (m, notes), rest) →
    m.Settled r levels ∧ source.head? = some m.kind ∧ a.Tidies notes source rest m.emit

/-- Messages that are settled one by one are settled in a row. -/
theorem settled_of_forall {levels : Nat} {found : List (Message D × List Note)}
    (h : ∀ entry ∈ found, entry.1.Settled r levels) :
    AllReadable r (found.map Prod.fst) ∧ AllNestWithin (found.map Prod.fst) levels ∧
      norms (found.map Prod.fst) = found.map Prod.fst := by
  have hall : ∀ m ∈ found.map Prod.fst, m.Settled r levels := List.forall_mem_map.mpr h
  refine ⟨allReadable_iff.mpr fun m hm => (hall m hm).readable,
    allNestWithin_iff.mpr fun m hm => (hall m hm).nests, ?_⟩
  rw [norms_eq_map]
  exact (List.map_congr_left fun m hm => (hall m hm).norm).trans (List.map_id' _)

section Rows

variable {levels limit : Nat} {a : Reading (Message D × List Note)}
  (ha : a.SettlesWithin r levels limit) {source rest : Bytes} (hlength : source.length ≤ limit)

include ha hlength

/-- Messages in a row are written in a row. Induction on the messages left. -/
theorem Reading.SettlesWithin.repeated {n : Nat} {before found : List (Message D × List Note)}
    (h : (a.repeated n before).run source = (.ok found, rest)) :
    ∃ new, found = before.reverse ++ new ∧ new.length = n ∧
      (∀ entry ∈ new, entry.1.Settled r levels) ∧
      (a.repeated n before).Tidies (new.flatMap Prod.snd) source rest
        (Emission.concat (emissions (new.map Prod.fst))) := by
  induction n generalizing before source with
  | zero =>
    cases h
    exact ⟨[], (List.append_nil _).symm, rfl, fun _ hentry => absurd hentry List.not_mem_nil,
      Reading.tidies_done _ _⟩
  | succ n ih =>
    rcases Reading.run_bind_eq_ok h with ⟨⟨m, notes⟩, mid, hm, hothers⟩
    have hmid : mid.length ≤ limit := Nat.le_trans (Reading.length_le_of_run hm) hlength
    rcases ha source m notes mid hlength hm with ⟨hsettled, -, htidies⟩
    rcases ih hmid hothers with ⟨new, rfl, hnew, hall, hrest⟩
    refine ⟨(m, notes) :: new, ?_, congrArg Nat.succ hnew,
      List.forall_mem_cons.mpr ⟨hsettled, hall⟩, htidies.bind hm hrest⟩
    rw [List.reverse_cons, List.append_assoc, List.singleton_append]

/-- Messages that a script reads are settled. Induction on the script. -/
theorem BodyScript.settled_of_readingFrom {σ : Type} {script : BodyScript σ} {s : σ}
    {held found : List (Message D × List Note)}
    (h : (script.readingFrom a held).run source = (.ok (s, found), rest)) :
    ∃ new, found = held.reverse ++ new ∧ ∀ entry ∈ new, entry.1.Settled r levels := by
  induction script generalizing source held with
  | done state =>
    cases h
    exact ⟨[], (List.append_nil _).symm, fun _ hentry => absurd hentry List.not_mem_nil⟩
  | fail error => cases h
  | take how count next ih =>
    rcases Reading.run_take_eq_ok h with ⟨taken, mid, -, rfl, hnext⟩
    rw [List.length_append] at hlength
    exact ih taken (by omega) hnext
  | ask next ih => exact ih source.length hlength h
  | message next ih =>
    rcases Reading.run_bind_eq_ok h with ⟨⟨m, notes⟩, mid, hm, hnext⟩
    have hmid : mid.length ≤ limit := Nat.le_trans (Reading.length_le_of_run hm) hlength
    rcases ih hmid hnext with ⟨new, rfl, hall⟩
    refine ⟨(m, notes) :: new, ?_, List.forall_mem_cons.mpr ⟨?_, hall⟩⟩
    · rw [List.reverse_cons, List.append_assoc, List.singleton_append]
    · exact (ha source m notes mid hlength hm).1

/-- What a script reads is written as its contract says, with the messages as they are written.
Induction on the script. -/
theorem BodyScript.Respells.tidies_readingFrom {σ : Type} {script : BodyScript σ} {s : σ}
    {held new : List (Message D × List Note)} {written : Bytes}
    (hread : ∀ source : Bytes, source.length ≤ limit →
      (Prod.fst <$> a).run source = Message.read r source)
    (h : script.Respells r source written)
    (hrun : (script.readingFrom a held).run source = (.ok (s, held.reverse ++ new), rest)) :
    (script.readingFrom a held).Tidies (new.flatMap Prod.snd) source rest
      (Emission.piece written) := by
  induction script generalizing source written held new with
  | done state =>
    obtain rfl : written = [] := h
    rcases Prod.mk.inj hrun with ⟨hfound, rfl⟩
    have hheld := (Prod.mk.inj (Except.ok.inj hfound)).2
    obtain rfl : new = [] := by simpa using hheld
    exact (Reading.respells_done _ _).tidies rfl (Emission.result_piece [])
  | fail error => exact h.elim
  | take how count next ih =>
    rcases h with ⟨taken, mid, spelled, more, hcount, rfl, rfl, hspelled, hmore⟩
    rw [readingFrom, Reading.run_take_append hcount] at hrun
    rw [List.length_append] at hlength
    exact Reading.Tidies.take hcount (hspelled.comp fun script => script.readingFrom a held)
      (ih taken (by omega) hmore hrun)
  | ask next ih => exact ih source.length hlength h hrun
  | message next ih =>
    rcases h with ⟨m, mid, first, more, hm, hfirst, rfl, hmore⟩
    rcases Reading.run_bind_eq_ok hrun with ⟨⟨m', notes⟩, mid', hm', hnext⟩
    -- The reader that takes notes gets the message that the contract speaks of.
    have hsame : Message.read r source = (.ok m', mid') := by
      rw [← hread source hlength]
      exact Reading.run_map_eq_ok.mpr ⟨_, hm', rfl⟩
    rw [hm] at hsame
    cases hsame
    have hmid : mid.length ≤ limit := Nat.le_trans (Reading.length_le_of_run hm') hlength
    rcases settled_of_readingFrom ha hmid hnext with ⟨others, hfound, -⟩
    rw [List.reverse_cons, List.append_assoc, List.singleton_append] at hfound
    obtain rfl := List.append_cancel_left hfound
    have hheld : held.reverse ++ (m, notes) :: others = ((m, notes) :: held).reverse ++ others := by
      simp
    rw [hheld] at hnext
    have htidies : (next.message.readingFrom a held).Tidies (notes ++ others.flatMap Prod.snd)
        source rest (m.emit ++ Emission.piece more) :=
      (ha source m notes mid hlength hm').2.2.bind hm' (ih hmid hmore hnext)
    exact htidies.of_result (Emission.result_append_eq_ok.mpr
      ⟨first, more, hfirst, Emission.result_piece more, rfl⟩) (Emission.result_piece _)

end Rows

/-! ## The recursion -/

/-- What is shown of a blank that is found under a kind: whatever body it reads is of that kind and
settled, and is written as what it was read from. -/
def Body.SettlesWithin (r : Registry D) (fuel levels : Nat) (k : UInt8) (blank : Body D) : Prop :=
  ∀ source b notes rest, source.length ≤ fuel →
    (blank.refillNoted r (Message.readingNoted r fuel) levels).run source = (.ok (b, notes), rest) →
    b.kind = k ∧ b.Settled r levels ∧
      (blank.refillNoted r (Message.readingNoted r fuel) levels).Tidies notes source rest b.emit

section Recursion

variable (hfaithful : r.Faithful) {fuel : Nat}
  (hmessage : ∀ levels, (Message.readingNoted r fuel levels).SettlesWithin r levels fuel)

include hmessage in
/-- The children of a composite are read one level deeper. -/
theorem Body.settlesWithin_composite (children : List (Message D)) (levels : Nat) :
    (Body.composite children).SettlesWithin r fuel levels BodyKind.composite.toByte := by
  intro source b notes rest hlength h
  cases levels with
  | zero => cases h
  | succ levels =>
    rcases Reading.run_bind_eq_ok h with ⟨count, mid, hcount, hnext⟩
    rcases Reading.run_bind_eq_ok hnext with ⟨found, _, hfound, hdone⟩
    cases hdone
    have hmid := Nat.le_trans (Reading.length_le_of_run hcount) hlength
    rcases (hmessage levels).repeated hmid hfound with ⟨_, rfl, rfl, hsettled, htidies⟩
    rcases Reading.respells_length hcount with ⟨hfits, hspelled⟩
    rcases settled_of_forall hsettled with ⟨hreadable, hnests, hnorms⟩
    refine ⟨rfl, ⟨hreadable, hnests, congrArg Body.composite hnorms⟩, ?_⟩
    have hnumber := hspelled.tidies hcount (e := Emission.length (found.map Prod.fst).length)
      (by rw [List.length_map]; exact Emission.result_length_eq_ok.mpr ⟨hfits, rfl⟩)
    exact hnumber.bind hcount (htidies.bind_done hfound rfl)

include hfaithful hmessage in
/-- A body of the application keeps its contract for the messages that it holds, which are read from
full depth again. -/
theorem Body.settlesWithin_custom {k : UInt8} {blank : D.Custom}
    (hfind : r.body k = .ok (.custom blank [])) (levels : Nat) :
    (Body.custom blank []).SettlesWithin r fuel levels k := by
  intro source b notes rest hlength h
  rcases Reading.run_bind_eq_ok h with ⟨⟨s, found⟩, mid, hscript, hdone⟩
  cases hdone
  rcases BodyScript.settled_of_readingFrom (hmessage maxNesting) hlength hscript with
    ⟨_, rfl, hsettled⟩
  rcases settled_of_forall hsettled with ⟨hreadable, hnests, hnorms⟩
  -- The contract speaks of the reader that takes no notes, with just enough fuel.
  have hread : Body.read r (.custom blank []) source
      = (.ok (), .custom s (found.map Prod.fst), rest) := by
    rw [Body.read_eq_ok, Body.run_refill_eq hfind (Nat.le_refl _) hlength,
      ← map_fst_refillNoted_readingNoted]
    exact Reading.run_map_eq_ok.mpr ⟨_, h, rfl⟩
  rcases hfaithful.custom hfind _ _ _ _ hread with ⟨hkind, hback, hwrite⟩
  have hwritten : ∀ m ∈ found.map Prod.fst, ∃ w, m.emit.result = .ok w :=
    List.forall_mem_map.mpr fun entry hentry => (hsettled entry hentry).written
  rcases hwrite hwritten with ⟨written, hwritten, hspelled⟩
  refine ⟨hkind, ⟨⟨hback, hreadable⟩, hnests, congrArg (Body.custom s) hnorms⟩, ?_⟩
  have hmessages : ∀ source : Bytes, source.length ≤ fuel →
      (Prod.fst <$> Message.readingNoted r fuel maxNesting).run source = Message.read r source := by
    intro source hlength
    rw [Message.map_fst_readingNoted]
    exact Message.run_reading_eq_read r hlength
  have htidies := hspelled.tidies_readingFrom (hmessage maxNesting) hlength hmessages hscript
  exact (htidies.of_result (Emission.result_piece _) hwritten).bind_done hscript rfl

/-- For a blank of which nothing is noted the reader without notes will do. -/
theorem Body.settlesWithin_of_refill {k : UInt8} {levels : Nat} {blank : Body D}
    (hnotes : ∀ message, blank.refillNoted r message levels
      = (blank.refill r (fun levels => Prod.fst <$> message levels) levels).bind
          fun b => .done (b, []))
    (h : ∀ source b rest,
      (blank.refill r (Message.reading r fuel) levels).run source = (.ok b, rest) →
        b.kind = k ∧ b.Settled r levels ∧
          (blank.refill r (Message.reading r fuel) levels).Tidies [] source rest b.emit) :
    blank.SettlesWithin r fuel levels k := by
  intro source b notes rest _ hrun
  rw [hnotes, funext (Message.map_fst_readingNoted r fuel)] at hrun ⊢
  rcases Reading.run_bind_eq_ok hrun with ⟨b, _, hb, hdone⟩
  cases hdone
  rcases h source b rest hb with ⟨hkind, hsettled, htidies⟩
  exact ⟨hkind, hsettled, htidies.bind_done hb rfl⟩

theorem Body.settlesWithin_empty (levels : Nat) :
    (Body.empty : Body D).SettlesWithin r fuel levels BodyKind.empty.toByte := by
  refine settlesWithin_of_refill (fun _ => rfl) fun source b rest h => ?_
  cases h
  exact ⟨rfl, ⟨trivial, trivial, rfl⟩, Reading.tidies_done _ _⟩

theorem Body.settlesWithin_bytes (old : Option View) (levels : Nat) :
    (Body.bytes old : Body D).SettlesWithin r fuel levels BodyKind.bytes.toByte := by
  refine settlesWithin_of_refill (fun _ => rfl) fun source b rest h => ?_
  rcases Reading.run_bind_eq_ok h with ⟨view, _, hview, hdone⟩
  cases hdone
  rcases View.tidies_readingOptional hview with ⟨hnorm, htidies⟩
  have hemit : (Body.bytes view : Body D).emit = view.elim Emission.absent View.emit := by
    cases view <;> rfl
  refine ⟨rfl, ⟨trivial, trivial, congrArg Body.bytes hnorm⟩, ?_⟩
  rw [hemit]
  exact htidies.bind_done hview rfl

/-- A buffer that is missing leaves no wish about memory. -/
theorem Body.settlesWithin_buffer (levels : Nat) :
    (Body.buffer none false : Body D).SettlesWithin r fuel levels BodyKind.buffer.toByte := by
  refine settlesWithin_of_refill (fun _ => rfl) fun source b rest h => ?_
  rcases Reading.run_bind_eq_ok h with ⟨found, _, hfound, hdone⟩
  rcases View.tidies_readingBuffer hfound with ⟨hnorm, htidies⟩
  rcases found with _ | ⟨direct, view⟩
  · cases hdone
    exact ⟨rfl, ⟨trivial, trivial, rfl⟩, (htidies false).bind_done hfound rfl⟩
  · cases hdone
    refine ⟨rfl, ⟨trivial, trivial, ?_⟩, (htidies direct).bind_done hfound rfl⟩
    simp only [Body.norm, hnorm direct view rfl]

theorem Body.settlesWithin_directBuffer (levels : Nat) :
    (Body.directBuffer none false : Body D).SettlesWithin r fuel levels
      BodyKind.directBuffer.toByte := by
  refine settlesWithin_of_refill (fun _ => rfl) fun source b rest h => ?_
  rcases Reading.run_bind_eq_ok h with ⟨found, _, hfound, hdone⟩
  rcases View.tidies_readingBuffer hfound with ⟨hnorm, htidies⟩
  rcases found with _ | ⟨heap, view⟩
  · cases hdone
    exact ⟨rfl, ⟨trivial, trivial, rfl⟩, (htidies true).bind_done hfound rfl⟩
  · cases hdone
    refine ⟨rfl, ⟨trivial, trivial, ?_⟩, (htidies true).bind_done hfound rfl⟩
    simp only [Body.norm, hnorm heap view rfl]

include hfaithful in
theorem Body.settlesWithin_object (levels : Nat) :
    (Body.object none : Body D).SettlesWithin r fuel levels BodyKind.object.toByte := by
  refine settlesWithin_of_refill (fun _ => rfl) fun source b rest h => ?_
  rcases Reading.run_bind_eq_ok h with ⟨given, _, hgiven, hnext⟩
  have hflag := (Reading.respells_flag hgiven).tidies hgiven (Emission.result_flag given)
  cases given with
  | false =>
    cases hnext
    exact ⟨rfl, ⟨fun _ hx => absurd hx (Option.not_mem_none _), trivial, rfl⟩,
      hflag.bind_done hgiven rfl⟩
  | true =>
    rcases Reading.run_bind_eq_ok hnext with ⟨record, _, hrecord, hdone⟩
    cases hdone
    rcases Record.tidies_reading hfaithful hrecord with ⟨hback, htidies⟩
    refine ⟨rfl, ⟨?_, trivial, rfl⟩, hflag.bind hgiven (htidies.bind_done hrecord rfl)⟩
    rintro _ ⟨⟩
    exact hback

include hfaithful in
theorem Body.settlesWithin_serializable (old : Option (Parcel D)) (levels : Nat) :
    (Body.serializable old).SettlesWithin r fuel levels BodyKind.serializable.toByte := by
  refine settlesWithin_of_refill (fun _ => rfl) fun source b rest h => ?_
  rcases Reading.run_bind_eq_ok h with ⟨parcel, _, hparcel, hdone⟩
  cases hdone
  rcases Parcel.tidies_reading hfaithful hparcel with ⟨hreadable, hnorm, htidies⟩
  exact ⟨rfl, ⟨hreadable, trivial, congrArg Body.serializable hnorm⟩, htidies.bind_done hparcel rfl⟩

/-- A window without a length is written as one of no bytes. -/
theorem Body.settlesWithin_received (old : View) (levels : Nat) :
    (Body.received old : Body D).SettlesWithin r fuel levels BodyKind.fragment.toByte := by
  intro source b notes rest _ h
  rcases Reading.run_bind_eq_ok h with ⟨view, _, hview, hdone⟩
  cases hdone
  rcases View.tidies_readingOptional hview with ⟨hnorm, htidies⟩
  cases view with
  | none =>
    -- The four bytes of the missing length give way to those of the length 0.
    have hwritten : View.empty.emit.result = .ok [0, 0, 0, 0] :=
      View.result_emit_eq_ok.mpr ⟨Nat.zero_le _, rfl⟩
    have hwindow : Tidied [.window none] True [255, 255, 255, 255] [0, 0, 0, 0] :=
      tidied_window rfl fun hsome => absurd rfl hsome
    exact ⟨rfl, ⟨trivial, trivial, rfl⟩,
      (htidies.trans Emission.result_absent hwindow hwritten).bind_done hview rfl⟩
  | some v =>
    have hview' : v.norm = v := Option.some.inj hnorm
    rcases htidies.exists_result with ⟨written, hwritten⟩
    have hwindow : Tidied [.window (some v.length)] True written written :=
      tidied_window rfl fun _ => rfl
    exact ⟨rfl, ⟨trivial, trivial, congrArg Body.received hview'⟩,
      (htidies.trans hwritten hwindow hwritten).bind_done hview rfl⟩

include hfaithful hmessage in
/-- One case for each kind of blank that can be found. -/
theorem Body.settlesWithin (hreach : r.Reachable) {k : UInt8} {blank : Body D}
    (hfind : r.body k = .ok blank) (levels : Nat) : blank.SettlesWithin r fuel levels k := by
  rcases hreach.body_cases hfind with ⟨kind, rfl, rfl⟩ | ⟨s, rfl⟩
  case inr => exact settlesWithin_custom hfaithful hmessage hfind levels
  cases kind with
  | bytes => exact settlesWithin_bytes none levels
  | buffer => exact settlesWithin_buffer levels
  | empty => exact settlesWithin_empty levels
  | object => exact settlesWithin_object hfaithful levels
  | composite => exact settlesWithin_composite hmessage [] levels
  | fragment => exact settlesWithin_received View.empty levels
  | directBuffer => exact settlesWithin_directBuffer levels
  | serializable => exact settlesWithin_serializable hfaithful none levels

end Recursion

/-- Every message that a reader gets is settled. Induction on the fuel. -/
theorem Message.settlesWithin (hreach : r.Reachable) (hfaithful : r.Faithful) (fuel levels : Nat) :
    (readingNoted r fuel levels).SettlesWithin r levels fuel := by
  induction fuel generalizing levels with
  | zero =>
    intro source m notes rest _ h
    cases h
  | succ fuel ih =>
    intro source m notes rest hlength h
    rcases Reading.run_bind_eq_ok h with ⟨k, mid, hk, hmessage⟩
    obtain rfl := Reading.run_u8_eq_ok hk
    rcases Reading.run_ofExcept_bind_eq_ok hmessage with ⟨blank, hfind, hparts⟩
    rcases Reading.run_bind_eq_ok hparts with ⟨⟨e, noted⟩, left, he, hbody⟩
    rcases Reading.run_bind_eq_ok hbody with ⟨⟨b, more⟩, _, hb, hdone⟩
    cases hdone
    have hleft : left.length ≤ fuel := by
      have hle := Reading.length_le_of_run he
      rw [List.length_cons] at hlength
      omega
    rcases Envelope.tidies_readingNoted hfaithful he with ⟨hheaders, henvelope⟩
    rcases Body.settlesWithin hfaithful ih hreach hfind levels left b more rest hleft hb with
      ⟨rfl, hsettled, hrest⟩
    have htidies : (readingNoted r (fuel + 1) levels).Tidies (noted ++ more) (b.kind :: mid) rest
        (mk e b).emit :=
      ((Reading.respells_u8 hk).tidies hk (Emission.result_byte _)).bind hk
        (Reading.Tidies.ofExcept_bind hfind
          (henvelope.bind he (hrest.bind_done hb rfl)))
    rcases htidies.exists_result with ⟨written, hwritten⟩
    exact ⟨⟨⟨hheaders, hsettled.readable⟩, hsettled.nests, congrArg (mk e) hsettled.norm, written,
      hwritten⟩, rfl, htidies⟩

/-! ## Normal forms -/

/-- Every input that is accepted has a normal form, which is what the message is encoded to. It
begins with the same kind and is no longer than the input; it is as long just if no block of headers
in the input, at any depth, had a layer more than once. The normal form is accepted for the same
message, and that is encoded to it again. And it is the input itself if each layer came once, every
window came with a length and every truth value was spelled as 0 or 1. -/
theorem Message.decode_normalForm (hreach : r.Reachable) (hfaithful : r.Faithful) {w : Bytes}
    {m : Message D} (hdecode : decode r w = .ok m) : ∃ w', m.encode = .ok w' ∧
      w.head? = some m.kind ∧ w'.head? = some m.kind ∧
      w'.length ≤ w.length ∧ (w'.length = w.length ↔ LayersOnce (notes r w)) ∧
      decode r w' = .ok m ∧ (∀ m', decode r w' = .ok m' → m'.encode = .ok w') ∧
      (LayersOnce (notes r w) → WindowsGiven (notes r w) →
        (reading r w.length maxNesting).Plain w → w' = w) := by
  have hread := decode_eq_ok.mp hdecode
  have hnoted := run_readingNoted_of_read hread
  rcases settlesWithin hreach hfaithful w.length maxNesting w m (notes r w) [] (Nat.le_refl _)
    hnoted with ⟨hsettled, hhead, taken, w', hsource, hemit, htidied⟩
  rw [List.append_nil] at hsource
  subst hsource
  have hback : decode r w' = .ok m := by
    have hrestored := (restorable hreach m hsettled.readable).decode hsettled.nests hemit
    rwa [hsettled.norm] at hrestored
  have hencode : m.encode = .ok w' := encode_eq_ok_iff_emit.mpr hemit
  have hkind : w'.head? = some m.kind := by
    rw [emit_eq_byte_append] at hemit
    rcases (Emission.result_append_eq_ok_of_ok (Emission.result_byte _)).mp hemit with ⟨v, -, rfl⟩
    rfl
  refine ⟨w', hencode, hhead, hkind, htidied.length_le, htidied.length_eq_iff, hback, ?_, ?_⟩
  · intro m' hm'
    rw [hback] at hm'
    cases hm'
    exact hencode
  · intro honce hgiven hplain
    rw [← map_fst_readingNoted, Reading.map_eq_bind] at hplain
    exact htidied.eq_of_plain honce hgiven hplain.of_bind.1

/-- A wrapper from the address 1, which is marked with a 7, around a fragment with two headers of
one layer and a window without a length. -/
def Catalogue.looseInput : Bytes :=
  [41, 0, 0, 0, 0, 7, 0, 0, 0, 0, 0, 0, 0, 0, 0, 0, 0, 0, 0, 0, 0, 1, 0, 0, 0, 0,
    5, 0, 0, 0, 0, 0, 0, 0, 0, 2, 0, 7, 3, 233, 0, 0, 0, 1, 0, 7, 3, 233, 0, 0, 0, 2,
    255, 255, 255, 255]

/-- A buffer of one byte, for direct memory. -/
def Catalogue.plainInput : Bytes :=
  [1, 0, 0, 0, 0, 0, 0, 0, 0, 0, 0, 0, 0, 1, 1, 1]

/-- An input that is not in normal form, and one that is. -/
theorem Message.decode_normalForm_samples :
    (∃ m w', decode Catalogue.smallRegistry Catalogue.looseInput = .ok m ∧ m.encode = .ok w' ∧
      w'.length < Catalogue.looseInput.length ∧ decode Catalogue.smallRegistry w' = .ok m) ∧
    ∃ m, decode Catalogue.smallRegistry Catalogue.plainInput = .ok m ∧
      m.encode = .ok Catalogue.plainInput := by
  constructor
  · obtain ⟨m, hdecode⟩ : ∃ m, decode Catalogue.smallRegistry Catalogue.looseInput = .ok m :=
      ⟨_, rfl⟩
    obtain ⟨w', hencode, -, -, hle, heq, hback, -, -⟩ := decode_normalForm
      Catalogue.smallRegistry_reachable Catalogue.smallRegistry_faithful hdecode
    have hnotes : notes Catalogue.smallRegistry Catalogue.looseInput
        = [.layers [], .layers [7, 7], .window none] := rfl
    have htwice : ¬ LayersOnce (notes Catalogue.smallRegistry Catalogue.looseInput) := by
      intro honce
      have hnodup := honce [7, 7] (by rw [hnotes]; simp)
      simp at hnodup
    exact ⟨m, w', hdecode, hencode, Nat.lt_of_le_of_ne hle (mt heq.mp htwice), hback⟩
  · obtain ⟨m, hdecode⟩ : ∃ m, decode Catalogue.smallRegistry Catalogue.plainInput = .ok m :=
      ⟨_, rfl⟩
    obtain ⟨w', hencode, -, -, -, -, -, -, hsame⟩ := decode_normalForm
      Catalogue.smallRegistry_reachable Catalogue.smallRegistry_faithful hdecode
    have hnotes : notes Catalogue.smallRegistry Catalogue.plainInput = [.layers []] := rfl
    have honce : LayersOnce (notes Catalogue.smallRegistry Catalogue.plainInput) := by
      rw [hnotes]
      simp [LayersOnce]
    have hgiven : WindowsGiven (notes Catalogue.smallRegistry Catalogue.plainInput) := by
      rw [hnotes]
      simp [WindowsGiven]
    have hbits : ∀ byte ∈ Catalogue.plainInput, byte = 0 ∨ byte = 1 := by
      simp [Catalogue.plainInput]
    rw [hsame honce hgiven (Reading.plain_of_le_one _ hbits)] at hencode
    exact ⟨m, hdecode, hencode⟩

end Groupcast
