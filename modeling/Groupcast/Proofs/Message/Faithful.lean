import Groupcast.Proofs.Message.Readable
import Groupcast.Proofs.Message.Tidied

/-!
# What is written for the parts of a message

Everything in a message but the messages in it is written as it was read: addresses, headers, views,
objects and parcels. Of values of the application this has to be asked: what a registered blank
reads is of the kind under which the blank was found, can be read back, and is written as it was
read but for the spelling of truth values.
-/

namespace Groupcast

variable {D : Dialect}

/-! ## Contracts -/

/-- What is asked of a blank that is found under a kind. -/
def Streamable.Faithful {α : Type} [Streamable α] (find : UInt16 → Except DecodeError α)
    (k : UInt16) (blank : α) : Prop :=
  ∀ source value rest, (refill blank).run source = (.ok value, rest) →
    kind value = k ∧ ReadsBack find value ∧ (refill blank).Respells source (pieces value).flatten

/-- Whether some bytes spell what a script takes from a source, with the messages that it reads as
they are written. -/
def BodyScript.Respells {σ : Type} (r : Registry D) :
    BodyScript σ → (source written : Bytes) → Prop
  | done _, _, written => written = []
  | fail _, _, _ => False
  | take _ count next, source, written => ∃ taken rest spelled more, taken.length = count ∧
      source = taken ++ rest ∧ written = spelled ++ more ∧ SpelledFor next taken spelled ∧
        (next taken).Respells r rest more
  | ask next, source, written => (next source.length).Respells r source written
  | message next, source, written => ∃ m rest first more, Message.read r source = (.ok m, rest) ∧
      m.emit.result = .ok first ∧ written = first ++ more ∧ next.Respells r rest more

/-- What is asked of a blank body that is found under a kind. If the messages held can be written,
so can the body, and what it takes besides them is written as it was. -/
def CustomBody.Faithful (r : Registry D) (k : UInt8) (blank : D.Custom) : Prop :=
  ∀ source s held rest, Body.read r (.custom blank []) source = (.ok (), .custom s held, rest) →
    kind s = k ∧ ReadsBack r s held ∧
      ((∀ m ∈ held, ∃ w, m.emit.result = .ok w) → ∃ written,
        (emit s (emissions held)).result = .ok written ∧ (refill blank).Respells r source written)

/-- A registry whose blanks keep what is asked of them. -/
structure Registry.Faithful (r : Registry D) : Prop where
  header {k : UInt16} {blank : Record D} (hfind : r.header k = .ok blank) :
    Streamable.Faithful r.header k blank
  object {k : UInt16} {blank : Record D} (hfind : r.object k = .ok blank) :
    Streamable.Faithful r.object k blank
  custom {k : UInt8} {s : D.Custom} (hfind : r.body k = .ok (.custom s [])) :
    CustomBody.Faithful r k s

section Parts

variable {source rest : Bytes}

/-! ## Addresses and views -/

theorem FlagSet.toNat_ofNat_of_lt {φ : Type} [FlagKind φ] {n : Nat}
    (h : n < 2 ^ FlagKind.width φ) : (ofNat n : FlagSet φ).toNat = n := by
  rw [ofNat, toNat, BitVec.toNat_ofNat]
  exact Nat.mod_eq_of_lt h

theorem Address.toNat_ofNat_of_lt {n : Nat} (h : n < 256 ^ 16) : (ofNat n).toNat = n := by
  rw [ofNat, toNat, BitVec.toNat_ofNat]
  exact Nat.mod_eq_of_lt h

theorem Address.tidies_reading {a : Option Address} (h : reading.run source = (.ok a, rest)) :
    reading.Tidies [] source rest (emit a) := by
  rcases Reading.run_bind_eq_ok h with ⟨given, mid, hflag, hnext⟩
  have hgiven := (Reading.respells_flag hflag).tidies hflag (Emission.result_flag given)
  cases given with
  | false =>
    cases hnext
    exact hgiven.bind_done hflag rfl
  | true =>
    rcases Reading.run_bind_eq_ok hnext with ⟨n, last, hnumber, hdone⟩
    cases hdone
    rcases Reading.respells_natural hnumber with ⟨hlt, hspelled⟩
    rw [emit, toNat_ofNat_of_lt hlt]
    exact hgiven.bind hflag
      ((hspelled.tidies hnumber (Emission.result_piece _)).bind_done hnumber rfl)

namespace View

theorem norm_whole (buffer : Bytes) : (whole buffer).norm = whole buffer := by
  rw [norm, data_whole]

/-- A view that was read shows a buffer of its own, and is written as it was. -/
theorem tidies_readingOptional {view : Option View}
    (h : readingOptional.run source = (.ok view, rest)) :
    view.map norm = view ∧
      readingOptional.Tidies [] source rest (view.elim Emission.absent View.emit) := by
  rcases Reading.run_bind_eq_ok h with ⟨length, mid, hlength, hnext⟩
  rcases Reading.respells_optionalLength hlength with ⟨hfits, hspelled⟩
  cases length with
  | none =>
    cases hnext
    exact ⟨rfl, (hspelled.tidies hlength Emission.result_absent).bind_done hlength rfl⟩
  | some n =>
    rcases Reading.run_bind_eq_ok hnext with ⟨bytes, last, hbytes, hdone⟩
    cases hdone
    rcases Reading.respells_bytes hbytes with ⟨rfl, hspelled'⟩
    have hboth : readingOptional.Respells source (Bytes.bigEndian 4 bytes.length ++ bytes) :=
      hspelled.bind hlength (hspelled'.bind_done hbytes rfl)
    refine ⟨congrArg some (norm_whole bytes), hboth.tidies h (result_emit_eq_ok.mpr ⟨?_, ?_⟩)⟩
    · exact hfits _ rfl
    · rw [data_whole]
      rfl

/-- A buffer that was read is written as it was, in pieces or not. -/
theorem tidies_readingBuffer {found : Option (Bool × View)}
    (h : readingBuffer.run source = (.ok found, rest)) :
    (∀ wish view, found = some (wish, view) → view.norm = view) ∧
      ∀ inPieces, readingBuffer.Tidies [] source rest
        (emitBuffer (found.map Prod.snd) (found.elim false Prod.fst) inPieces) := by
  rcases Reading.run_bind_eq_ok h with ⟨length, mid, hlength, hnext⟩
  rcases Reading.respells_optionalLength hlength with ⟨hfits, hspelled⟩
  cases length with
  | none =>
    cases hnext
    refine ⟨by simp, fun _ => ?_⟩
    exact (hspelled.tidies hlength Emission.result_absent).bind_done hlength rfl
  | some n =>
    rcases Reading.run_bind_eq_ok hnext with ⟨wish, last, hwish, hdata⟩
    rcases Reading.run_bind_eq_ok hdata with ⟨bytes, end', hbytes, hdone⟩
    cases hdone
    rcases Reading.respells_bytes hbytes with ⟨rfl, hspelled'⟩
    have hall : readingBuffer.Respells source
        (Bytes.bigEndian 4 bytes.length ++ ([if wish then 1 else 0] ++ bytes)) :=
      hspelled.bind hlength
        ((Reading.respells_flag hwish).bind hwish (hspelled'.bind_done hbytes rfl))
    refine ⟨?_, fun inPieces => hall.tidies h (result_emitBuffer_eq_ok.mpr ⟨hfits _ rfl, ?_⟩)⟩
    · rintro _ _ ⟨⟩
      exact norm_whole bytes
    · rw [data_whole]
      rfl

end View

/-! ## Headers -/

section HeaderMap

variable {α : Type} [Streamable α] {find : UInt16 → Except DecodeError α}
  (hfaithful : ∀ {k blank}, find k = .ok blank → Streamable.Faithful find k blank)

include hfaithful

/-- Headers can be read back and are written as they were. Induction on their number. -/
theorem HeaderMap.respells_readingEntries {n : Nat} {entries : List (HeaderId × α)}
    (h : (readingEntries find n).run source = (.ok entries, rest)) :
    entries.length = n ∧ (∀ entry ∈ entries, Streamable.ReadsBack find entry.2) ∧
      (readingEntries find n).Respells source (entriesBytes entries) := by
  induction n generalizing source entries with
  | zero =>
    cases h
    exact ⟨rfl, fun _ hentry => absurd hentry List.not_mem_nil, rfl⟩
  | succ n ih =>
    rcases Reading.run_bind_eq_ok h with ⟨id, _, hid, h⟩
    rcases Reading.run_bind_eq_ok h with ⟨k, _, hk, h⟩
    rcases Reading.run_ofExcept_bind_eq_ok h with ⟨blank, hfind, h⟩
    rcases Reading.run_bind_eq_ok h with ⟨header, _, hheader, h⟩
    rcases Reading.run_bind_eq_ok h with ⟨others, _, hothers, hdone⟩
    cases hdone
    rcases hfaithful hfind _ _ _ hheader with ⟨hkind, hback, hrefill⟩
    rcases ih hothers with ⟨hlength, hbacks, hrest⟩
    refine ⟨congrArg Nat.succ hlength, List.forall_mem_cons.mpr ⟨hback, hbacks⟩, ?_⟩
    rw [entriesBytes_cons, entryBytes, List.append_assoc, List.append_assoc, hkind]
    refine (Reading.respells_u16 hid).bind hid ((Reading.respells_u16 hk).bind hk ?_)
    simp only [Reading.bind_eq_bind, Reading.ofExcept_bind_of_ok hfind]
    exact hrefill.bind hheader (hrest.bind_done hothers rfl)

/-- A map that was read can be read back, and is written with the headers that are left. -/
theorem HeaderMap.tidies_readingNoted {m : HeaderMap α} {notes : List Note}
    (h : (readingNoted find).run source = (.ok (m, notes), rest)) :
    (∀ entry ∈ m.entries, Streamable.ReadsBack find entry.2) ∧
      (readingNoted find).Tidies notes source rest (m.emit []) := by
  rcases Reading.run_bind_eq_ok h with ⟨count, _, hcount, hnext⟩
  rcases Reading.run_bind_eq_ok hnext with ⟨entries, _, hentries, hdone⟩
  cases hdone
  rcases respells_readingEntries hfaithful hentries with ⟨hlength, hback, hspelled⟩
  have hblock : (readingNoted find).Respells source (blockBytes entries) := by
    rw [blockBytes, hlength]
    exact (Reading.respells_u32 hcount).bind hcount (hspelled.bind_done hentries rfl)
  have hfits : (ofList entries).entries.length < UInt32.size := by
    have hle : (ofList entries).entries.length ≤ entries.length := by
      have := length_entries_putAll_le empty entries
      rwa [show (empty : HeaderMap α).entries.length = 0 from rfl, Nat.zero_add] at this
    have hlt : count.toNat < UInt32.size := count.toNat_lt
    omega
  refine ⟨fun entry hentry => ?_, ?_⟩
  · rcases mem_entries_putAll (m := empty) hentry with hentry | hentry
    · exact absurd hentry List.not_mem_nil
    · exact hback entry hentry
  · exact (hblock.tidies h (Emission.result_piece _)).trans (Emission.result_piece _)
      (tidied_blockBytes entries) (result_emit_of_lt hfits)

end HeaderMap

section Registry

variable {r : Registry D} (hfaithful : r.Faithful)

include hfaithful

/-- An envelope that was read can be read back, and is written with the headers that are left. -/
theorem Envelope.tidies_readingNoted {e : Envelope D} {notes : List Note}
    (h : (readingNoted r).run source = (.ok (e, notes), rest)) :
    (∀ entry ∈ e.headers.entries, Streamable.ReadsBack r.header entry.2) ∧
      (readingNoted r).Tidies notes source rest e.emit := by
  rcases Reading.run_bind_eq_ok h with ⟨flags, _, hflags, h₁⟩
  rcases Reading.run_bind_eq_ok h₁ with ⟨transient, _, htransient, h₂⟩
  rcases Reading.run_bind_eq_ok h₂ with ⟨dest, _, hdest, h₃⟩
  rcases Reading.run_bind_eq_ok h₃ with ⟨src, _, hsrc, h₄⟩
  rcases Reading.run_bind_eq_ok h₄ with ⟨⟨headers, noted⟩, _, hheaders, hdone⟩
  cases hdone
  rcases HeaderMap.tidies_readingNoted hfaithful.header hheaders with ⟨hback, htidies⟩
  rcases Reading.respells_natural hflags with ⟨hlt, hspelled⟩
  rcases Reading.respells_natural htransient with ⟨hlt', hspelled'⟩
  refine ⟨hback, ?_⟩
  unfold emit emitWith
  rw [FlagSet.toNat_ofNat_of_lt hlt, FlagSet.toNat_ofNat_of_lt hlt']
  simp only [Emission.append_assoc]
  exact (hspelled.tidies hflags (Emission.result_piece _)).bind hflags
    ((hspelled'.tidies htransient (Emission.result_piece _)).bind htransient
      ((Address.tidies_reading hdest).bind hdest ((Address.tidies_reading hsrc).bind hsrc
        (htidies.bind_done hheaders rfl))))

/-! ## Objects -/

theorem Record.tidies_reading {record : Record D}
    (h : (reading r).run source = (.ok record, rest)) :
    Streamable.ReadsBack r.object record ∧
      (reading r).Tidies [] source rest record.emitTagged := by
  rcases Reading.run_bind_eq_ok h with ⟨k, _, hk, hnext⟩
  rcases Reading.run_ofExcept_bind_eq_ok hnext with ⟨blank, hfind, hrecord⟩
  rcases hfaithful.object hfind _ _ _ hrecord with ⟨rfl, hback, hspelled⟩
  have hkind := (Reading.respells_u16 hk).tidies hk (Emission.result_u16 _)
  have hpieces := hspelled.tidies hrecord (Emission.result_ofPieces _)
  exact ⟨hback, hkind.bind hk (Reading.Tidies.ofExcept_bind hfind hpieces)⟩

theorem Parcel.tidies_reading {parcel : Option (Parcel D)}
    (h : (reading r).run source = (.ok parcel, rest)) :
    (∀ p ∈ parcel, p.Readable r) ∧ parcel.map norm = parcel ∧
      (reading r).Tidies [] source rest (emit parcel) := by
  rcases Reading.run_bind_eq_ok h with ⟨own, _, hown, hnext⟩
  have hflag := (Reading.respells_flag hown).tidies hown (Emission.result_flag own)
  cases own with
  | true =>
    rcases Reading.run_bind_eq_ok hnext with ⟨x, _, hx, hdone⟩
    cases hdone
    rcases Record.tidies_reading hfaithful hx with ⟨hback, htidies⟩
    refine ⟨?_, rfl, hflag.bind hown (htidies.bind_done hx rfl)⟩
    rintro _ ⟨⟩
    exact hback
  | false =>
    rcases Reading.run_bind_eq_ok hnext with ⟨length, _, hlength, hnext⟩
    rcases Reading.respells_optionalLength hlength with ⟨hfits, hspelled⟩
    cases length with
    | none =>
      cases hnext
      have habsent := hspelled.tidies hlength Emission.result_absent
      exact ⟨by simp, rfl, hflag.bind hown (habsent.bind_done hlength rfl)⟩
    | some n =>
      rcases Reading.run_bind_eq_ok hnext with ⟨bytes, _, hbytes, hdone⟩
      cases hdone
      rcases Reading.respells_bytes hbytes with ⟨rfl, hspelled'⟩
      have hfits := Emission.result_length_eq_ok.mpr ⟨hfits _ rfl, rfl⟩
      have hdata := hspelled'.tidies hbytes (Emission.result_piece bytes)
      refine ⟨?_, rfl, hflag.bind hown ((hspelled.tidies hlength hfits).bind hlength
        (hdata.bind_done hbytes rfl))⟩
      rintro _ ⟨⟩
      trivial

end Registry

end Parts

end Groupcast
