import Groupcast.Proofs.Message.Writing
import Groupcast.Proofs.Reading.Restore

/-!
# Round trip of envelopes

Addresses, headers and whole envelopes are restored from what they write. Headers are values of the
application: each must be restored by the blank that is registered under its kind.
-/

namespace Groupcast

/-- What a self-describing value must keep for a reader that finds blanks by kind: its kind has a
blank, and that blank, refilled from the value's encoding, is the value. -/
def Streamable.ReadsBack [Streamable α] (find : UInt16 → Except DecodeError α) (value : α) :
    Prop :=
  ∃ blank, find (kind value) = .ok blank ∧
    (refill blank).Restores (pieces value).flatten value

theorem FlagSet.ofNat_toNat {φ : Type} [FlagKind φ] (s : FlagSet φ) : ofNat s.toNat = s := by
  simp [ofNat, toNat]

theorem Address.ofNat_toNat (a : Address) : ofNat a.toNat = a := by
  simp [ofNat, toNat]

theorem Address.restores_emit {a : Option Address} {w : Bytes}
    (h : (emit a).result = .ok w) : reading.Restores w a := by
  cases a with
  | none =>
    obtain rfl : [0] = w := by simpa [emit] using h
    exact (Reading.restores_flag false).bind (Reading.restores_done none)
  | some a =>
    rcases Emission.result_append_eq_ok.mp h with ⟨u, v, hu, hv, rfl⟩
    obtain rfl : [1] = u := by simpa using hu
    obtain rfl : Bytes.bigEndian 16 a.toNat = v := by simpa using hv
    have hlt : a.toNat < 256 ^ 16 := a.value.isLt
    have hnumber := (Reading.restores_natural 16 hlt).map fun n => some (ofNat n)
    rw [ofNat_toNat] at hnumber
    exact (Reading.restores_flag true).bind hnumber

namespace HeaderMap

/-- A header under a new layer goes to the end. -/
theorem entries_put_of_not_mem (m : HeaderMap α) {id : HeaderId} (header : α)
    (hnew : id ∉ m.ids) : (m.put id header).entries = m.entries ++ [(id, header)] := by
  rw [← contains_iff_mem_ids] at hnew
  simp [put, hnew]

theorem ext_entries {m n : HeaderMap α} (h : m.entries = n.entries) : m = n := by
  cases m
  cases n
  simpa using h

section Wire

variable [Streamable α] {find : UInt16 → Except DecodeError α}

/-- Headers of new layers are read one by one to the end of a map. Induction on the headers left:
the layers of the map and of the headers left stay apart. -/
theorem restores_entries {entries : List (HeaderId × α)}
    (hback : ∀ entry ∈ entries, Streamable.ReadsBack find entry.2) {m last : HeaderMap α}
    (hlast : last.entries = m.entries ++ entries) {w : Bytes}
    (h : (Emission.concat (entries.map emitEntry)).result = .ok w) :
    (readingInto find entries.length m).Restores w last := by
  induction entries generalizing m w with
  | nil =>
    obtain rfl : [] = w := by simpa using h
    obtain rfl : last = m := ext_entries (by simpa using hlast)
    exact Reading.restores_done last
  | cons entry entries ih =>
    rcases entry with ⟨id, header⟩
    rcases Emission.result_concat_cons_eq_ok.mp h with ⟨u, v, hu, hv, rfl⟩
    rw [result_emitEntry] at hu
    cases hu
    -- The layers of a map differ from each other, so this one is not among those read before.
    have hnew : id ∉ m.ids := by
      have hdistinct := last.distinct
      rw [hlast, List.map_append, List.map_cons, List.nodup_append] at hdistinct
      exact fun hmem => hdistinct.2.2 id hmem id (by simp) rfl
    have hput : last.entries = (m.put id header).entries ++ entries := by
      rw [entries_put_of_not_mem m header hnew, hlast, List.append_assoc, List.singleton_append]
    rcases hback (id, header) List.mem_cons_self with ⟨blank, hfind, hrefill⟩
    have hothers : ∀ entry ∈ entries, Streamable.ReadsBack find entry.2 := by
      intro entry hmem
      exact hback entry (List.mem_cons_of_mem _ hmem)
    have hrest := ih hothers hput hv
    simp only [List.append_assoc]
    refine (Reading.restores_u16 id).bind ((Reading.restores_u16 _).bind ?_)
    simp only [Reading.bind_eq_bind, Reading.ofExcept_bind_of_ok hfind]
    exact hrefill.bind hrest

/-- A map is restored from what it writes. -/
theorem restores_emit {m : HeaderMap α}
    (hback : ∀ entry ∈ m.entries, Streamable.ReadsBack find entry.2) {w : Bytes}
    (h : (m.emit []).result = .ok w) : (reading find).Restores w m := by
  rcases result_emit_eq_ok.mp h with ⟨hcount, v, hv, rfl⟩
  rw [retained_nil] at hcount hv ⊢
  have hnumber := Reading.restores_u32 (UInt32.ofNat m.entries.length)
  rw [UInt32.toNat_ofNat_of_lt' hcount] at hnumber
  refine hnumber.bind ?_
  rw [UInt32.toNat_ofNat_of_lt' hcount]
  exact restores_entries hback (by simp [empty]) hv

end Wire

end HeaderMap

namespace Envelope

variable {D : Dialect}

/-- An envelope is restored from what it writes: addresses, all bits of both sets of flags, and the
headers in their order. -/
theorem restores_emit {r : Registry D} {e : Envelope D}
    (hback : ∀ entry ∈ e.headers.entries, Streamable.ReadsBack r.header entry.2) {w : Bytes}
    (h : e.emit.result = .ok w) : (reading r).Restores w e := by
  unfold emit emitWith at h
  rcases Emission.result_append_eq_ok.mp h with ⟨w₄, headers, h₄, hheaders, rfl⟩
  rcases Emission.result_append_eq_ok.mp h₄ with ⟨w₃, src, h₃, hsrc, rfl⟩
  rcases Emission.result_append_eq_ok.mp h₃ with ⟨w₂, dest, h₂, hdest, rfl⟩
  rcases Emission.result_append_eq_ok.mp h₂ with ⟨flags, transient, hflags, htransient, rfl⟩
  rw [Emission.result_piece] at hflags htransient
  cases hflags
  cases htransient
  -- The fields are read in the order in which they were written.
  simp only [List.append_assoc]
  have hflags : e.flags.toNat < 256 ^ 2 := e.flags.bits.isLt
  have htransient : e.transient.toNat < 256 ^ 1 := e.transient.bits.isLt
  refine (Reading.restores_natural 2 hflags).bind
    ((Reading.restores_natural 1 htransient).bind
      ((Address.restores_emit hdest).bind ((Address.restores_emit hsrc).bind ?_)))
  simp only [FlagSet.ofNat_toNat]
  exact (HeaderMap.restores_emit hback hheaders).map fun map => { e with headers := map }

end Envelope

end Groupcast
