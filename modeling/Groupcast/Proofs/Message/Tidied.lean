import Groupcast.Proofs.Message.Envelope
import Groupcast.Proofs.Message.Noted

/-!
# What is written for what was read

A message that was read is written in no more bytes than it was read from. It takes fewer if a block
of headers held several of one layer, of which the last is left; and it takes the same bytes if
there was no such block, no window without a length, and no byte but 1 for a truth value that is
true.
-/

namespace Groupcast

/-! ## Notes -/

/-- Whether in every block of headers that was noted each layer came once. -/
def LayersOnce (notes : List Note) : Prop :=
  ∀ ids, .layers ids ∈ notes → ids.Nodup

/-- Whether every window that was noted came with a length. -/
def WindowsGiven (notes : List Note) : Prop :=
  .window none ∉ notes

theorem layersOnce_append {notes more : List Note} :
    LayersOnce (notes ++ more) ↔ LayersOnce notes ∧ LayersOnce more := by
  simp only [LayersOnce, List.mem_append, or_imp, forall_and]

theorem windowsGiven_append {notes more : List Note} :
    WindowsGiven (notes ++ more) ↔ WindowsGiven notes ∧ WindowsGiven more := by
  simp only [WindowsGiven, List.mem_append, not_or]

/-! ## Bytes read and written -/

/-- What bytes that were read have to do with those that are written for them, given what was noted
of the former and whether all truth values in them were plain. -/
structure Tidied (notes : List Note) (plain : Prop) (taken written : Bytes) : Prop where
  length_le : written.length ≤ taken.length
  length_eq_iff : written.length = taken.length ↔ LayersOnce notes
  eq_of_plain : LayersOnce notes → WindowsGiven notes → plain → written = taken

/-- Where nothing was noted, bytes of the same number are written. -/
theorem tidied_nil {plain : Prop} {taken written : Bytes} (hlength : written.length = taken.length)
    (hsame : plain → written = taken) : Tidied [] plain taken written where
  length_le := Nat.le_of_eq hlength
  length_eq_iff := iff_of_true hlength fun _ hmem => absurd hmem List.not_mem_nil
  eq_of_plain _ _ := hsame

theorem Tidied.append {notes more : List Note} {plain first second : Prop} {s t u v : Bytes}
    (hfirst : Tidied notes first s u) (hsecond : Tidied more second t v)
    (hplain : plain → first ∧ second) : Tidied (notes ++ more) plain (s ++ t) (u ++ v) where
  length_le := by
    rw [List.length_append, List.length_append]
    exact Nat.add_le_add hfirst.length_le hsecond.length_le
  length_eq_iff := by
    -- Neither part grows, so none may shrink.
    have hle := hfirst.length_le
    have hle' := hsecond.length_le
    rw [layersOnce_append, ← hfirst.length_eq_iff, ← hsecond.length_eq_iff, List.length_append,
      List.length_append]
    omega
  eq_of_plain := by
    intro honce hgiven h
    rw [layersOnce_append] at honce
    rw [windowsGiven_append] at hgiven
    rw [hfirst.eq_of_plain honce.1 hgiven.1 (hplain h).1,
      hsecond.eq_of_plain honce.2 hgiven.2 (hplain h).2]

/-- A window without a length may be written with another field of the same size. -/
theorem tidied_window {length : Option Nat} {taken written : Bytes}
    (hlength : written.length = taken.length) (hsame : length ≠ none → written = taken) :
    Tidied [.window length] True taken written where
  length_le := Nat.le_of_eq hlength
  length_eq_iff := iff_of_true hlength (by simp [LayersOnce])
  eq_of_plain _ hgiven _ := hsame (by rintro rfl; exact hgiven List.mem_cons_self)

/-- What is written for bytes may itself be tidied. -/
theorem Tidied.trans {notes more : List Note} {plain : Prop} {taken middle written : Bytes}
    (hfirst : Tidied notes plain taken middle) (hsecond : Tidied more True middle written) :
    Tidied (notes ++ more) plain taken written where
  length_le := Nat.le_trans hsecond.length_le hfirst.length_le
  length_eq_iff := by
    have hle := hfirst.length_le
    have hle' := hsecond.length_le
    rw [layersOnce_append, ← hfirst.length_eq_iff, ← hsecond.length_eq_iff]
    omega
  eq_of_plain := by
    intro honce hgiven h
    rw [layersOnce_append] at honce
    rw [windowsGiven_append] at hgiven
    rw [hsecond.eq_of_plain honce.2 hgiven.2 trivial, hfirst.eq_of_plain honce.1 hgiven.1 h]

namespace Reading

variable {α β : Type} {a : Reading α} {f : α → Reading β} {x : α} {source mid rest : Bytes}

/-- Whether an emission is what is to be written for the bytes that a reading takes from a source,
given what it leaves and what was noted. -/
def Tidies (a : Reading α) (notes : List Note) (source rest : Bytes) (e : Emission) : Prop :=
  ∃ taken written, source = taken ++ rest ∧ e.result = .ok written ∧
    Tidied notes (a.Plain source) taken written

theorem Tidies.exists_result {notes : List Note} {e : Emission}
    (h : a.Tidies notes source rest e) : ∃ w, e.result = .ok w := by
  rcases h with ⟨-, written, -, he, -⟩
  exact ⟨written, he⟩

theorem Respells.tidies {written : Bytes} (h : a.Respells source written)
    (hrun : a.run source = (.ok x, rest)) {e : Emission} (he : e.result = .ok written) :
    a.Tidies [] source rest e := by
  rcases h.exists_taken hrun with ⟨taken, hsource, hlength, hsame⟩
  exact ⟨taken, written, hsource, he, tidied_nil hlength hsame⟩

theorem Tidies.bind {notes more : List Note} {e e' : Emission} (hu : a.Tidies notes source mid e)
    (hrun : a.run source = (.ok x, mid)) (hv : (f x).Tidies more mid rest e') :
    (a.bind f).Tidies (notes ++ more) source rest (e ++ e') := by
  rcases hu with ⟨first, u, rfl, he, hfirst⟩
  rcases hv with ⟨second, v, rfl, he', hsecond⟩
  refine ⟨first ++ second, u ++ v, (List.append_assoc _ _ _).symm,
    Emission.result_append_eq_ok.mpr ⟨u, v, he, he', rfl⟩, hfirst.append hsecond fun hplain => ?_⟩
  rcases hplain.of_bind with ⟨ha, hf⟩
  exact ⟨ha, hf x _ hrun⟩

theorem tidies_done (value : α) (source : Bytes) :
    (done value).Tidies [] source source Emission.empty :=
  (respells_done value source).tidies rfl rfl

theorem Tidies.take {how : Transfer} {count : Nat} {next : Bytes → Reading α} {notes : List Note}
    {taken spelled more : Bytes} (hcount : taken.length = count)
    (hspelled : SpelledFor next taken spelled)
    (h : (next taken).Tidies notes mid rest (Emission.piece more)) :
    (take how count next).Tidies notes (taken ++ mid) rest (Emission.piece (spelled ++ more)) := by
  rcases h with ⟨others, written, rfl, he, htidied⟩
  rw [Emission.result_piece] at he
  cases he
  have hfirst : Tidied [] (∀ byte, taken = [byte] → TakenAsFlag next → byte = 0 ∨ byte = 1)
      taken spelled :=
    tidied_nil hspelled.length_eq hspelled.eq_of_plain
  exact ⟨taken ++ others, spelled ++ more, (List.append_assoc _ _ _).symm,
    Emission.result_piece _, hfirst.append htidied fun hplain => hplain taken _ hcount rfl⟩

/-- After a part that is tidied nothing more is taken. -/
theorem Tidies.bind_done {notes : List Note} {e : Emission} {y : β}
    (h : a.Tidies notes source rest e) (hrun : a.run source = (.ok x, rest))
    (hf : f x = done y) : (a.bind f).Tidies notes source rest e := by
  have hnothing : (f x).Tidies [] rest rest Emission.empty := hf ▸ tidies_done y rest
  have hboth := h.bind hrun hnothing
  rwa [List.append_nil, Emission.append_empty] at hboth

/-- What is written for the bytes taken may itself be tidied. -/
theorem Tidies.trans {notes more : List Note} {e e' : Emission} {middle written : Bytes}
    (h : a.Tidies notes source rest e) (he : e.result = .ok middle)
    (hmore : Tidied more True middle written) (he' : e'.result = .ok written) :
    a.Tidies (notes ++ more) source rest e' := by
  rcases h with ⟨taken, _, hsource, he₁, htidied⟩
  rw [he] at he₁
  cases he₁
  exact ⟨taken, written, hsource, he', htidied.trans hmore⟩

/-- Only what comes of an emission matters. -/
theorem Tidies.of_result {notes : List Note} {e e' : Emission} {written : Bytes}
    (h : a.Tidies notes source rest e) (he : e.result = .ok written)
    (he' : e'.result = .ok written) : a.Tidies notes source rest e' := by
  have hsame := h.trans he (tidied_nil rfl fun _ => rfl) he'
  rwa [List.append_nil] at hsame

/-- What is found without reading is not written. -/
theorem Tidies.ofExcept_bind {result : Except DecodeError α} (hresult : result = .ok x)
    {notes : List Note} {e : Emission} (h : (f x).Tidies notes source rest e) :
    ((ofExcept result).bind f).Tidies notes source rest e := by
  subst hresult
  exact h

end Reading

/-! ## Blocks of headers -/

namespace HeaderMap

variable {α : Type}

theorem replaced_of_not_mem {entries : List (HeaderId × α)} {id : HeaderId}
    (hnew : id ∉ entries.map Prod.fst) (header : α) : replaced entries id header = entries := by
  have hkept : ∀ entry ∈ entries,
      (if entry.1 = id then (id, header) else entry) = entry := by
    intro entry hentry
    exact if_neg fun h => hnew (List.mem_map.mpr ⟨entry, hentry, h⟩)
  exact (List.map_congr_left hkept).trans (List.map_id' entries)

theorem entries_put_of_mem (m : HeaderMap α) {id : HeaderId} (header : α) (hold : id ∈ m.ids) :
    (m.put id header).entries = replaced m.entries id header := by
  rw [← contains_iff_mem_ids] at hold
  simp [put, hold]

theorem ids_put_of_not_mem {m : HeaderMap α} {id : HeaderId} (header : α) (hnew : id ∉ m.ids) :
    (m.put id header).ids = m.ids ++ [id] := by
  rw [ids, entries_put_of_not_mem m header hnew, List.map_append]
  rfl

theorem mem_entries_put {m : HeaderMap α} {id : HeaderId} {header : α} {entry : HeaderId × α}
    (h : entry ∈ (m.put id header).entries) : entry ∈ m.entries ∨ entry = (id, header) := by
  by_cases hold : id ∈ m.ids
  · rw [entries_put_of_mem m header hold] at h
    rcases List.mem_map.mp h with ⟨old, hmem, rfl⟩
    split
    · exact Or.inr rfl
    · exact Or.inl hmem
  · rw [entries_put_of_not_mem m header hold] at h
    simpa using h

/-- No header comes from elsewhere. -/
theorem mem_entries_putAll {m : HeaderMap α} {entries : List (HeaderId × α)}
    {entry : HeaderId × α} (h : entry ∈ (m.putAll entries).entries) :
    entry ∈ m.entries ∨ entry ∈ entries := by
  induction entries generalizing m with
  | nil => exact Or.inl h
  | cons first entries ih =>
    rcases ih h with h | h
    · rcases mem_entries_put h with h | rfl
      · exact Or.inl h
      · exact Or.inr List.mem_cons_self
    · exact Or.inr (List.mem_cons_of_mem _ h)

theorem length_entries_put_le (m : HeaderMap α) (id : HeaderId) (header : α) :
    (m.put id header).entries.length ≤ m.entries.length + 1 := by
  by_cases hold : id ∈ m.ids
  · rw [entries_put_of_mem m header hold, replaced, List.length_map]
    exact Nat.le_succ _
  · rw [entries_put_of_not_mem m header hold, List.length_append]
    exact Nat.le_refl _

theorem length_entries_putAll_le (m : HeaderMap α) (entries : List (HeaderId × α)) :
    (m.putAll entries).entries.length ≤ m.entries.length + entries.length := by
  induction entries generalizing m with
  | nil => exact Nat.le_refl _
  | cons first entries ih =>
    have hrest := ih (m.put first.1 first.2)
    have hfirst := m.length_entries_put_le first.1 first.2
    show ((m.put first.1 first.2).putAll entries).entries.length ≤ _
    rw [List.length_cons]
    omega

/-- Headers of layers that differ are kept in order. -/
theorem entries_putAll_of_nodup {m : HeaderMap α} {entries : List (HeaderId × α)}
    (h : (m.ids ++ entries.map Prod.fst).Nodup) :
    (m.putAll entries).entries = m.entries ++ entries := by
  induction entries generalizing m with
  | nil => exact (List.append_nil _).symm
  | cons first entries ih =>
    rcases first with ⟨id, header⟩
    have hnew : id ∉ m.ids := by
      rw [List.nodup_append] at h
      exact fun hmem => h.2.2 _ hmem _ List.mem_cons_self rfl
    have hrest : ((m.put id header).ids ++ entries.map Prod.fst).Nodup := by
      rw [ids_put_of_not_mem header hnew, List.append_assoc]
      exact h
    show ((m.put id header).putAll entries).entries = _
    rw [ih hrest, entries_put_of_not_mem m header hnew, List.append_assoc]
    rfl

section Wire

variable [Streamable α]

/-- A header as it is written. -/
def entryBytes (entry : HeaderId × α) : Bytes :=
  Bytes.bigEndian 2 entry.1.toNat
    ++ (Bytes.bigEndian 2 (Streamable.kind entry.2).toNat ++ (Streamable.pieces entry.2).flatten)

/-- Headers in a row as they are written. -/
def entriesBytes (entries : List (HeaderId × α)) : Bytes :=
  entries.flatMap entryBytes

theorem entriesBytes_cons (entry : HeaderId × α) (entries : List (HeaderId × α)) :
    entriesBytes (entry :: entries) = entryBytes entry ++ entriesBytes entries := rfl

theorem entriesBytes_append (entries others : List (HeaderId × α)) :
    entriesBytes (entries ++ others) = entriesBytes entries ++ entriesBytes others :=
  List.flatMap_append

theorem result_concat_emitEntry (entries : List (HeaderId × α)) :
    (Emission.concat (entries.map emitEntry)).result = .ok (entriesBytes entries) := by
  induction entries with
  | nil => rfl
  | cons entry entries ih =>
    exact Emission.result_concat_cons_eq_ok.mpr ⟨_, _, result_emitEntry entry, ih, rfl⟩

/-- A header in the place of another saves the bytes of the other, which are some. -/
theorem length_entriesBytes_replaced {entries : List (HeaderId × α)} {id : HeaderId}
    (hdistinct : (entries.map Prod.fst).Nodup) (hold : id ∈ entries.map Prod.fst) (header : α) :
    (entriesBytes (replaced entries id header)).length
      < (entriesBytes entries).length + (entryBytes (id, header)).length := by
  induction entries with
  | nil => exact absurd hold List.not_mem_nil
  | cons entry entries ih =>
    have hreplaced : replaced (entry :: entries) id header
        = (if entry.1 = id then (id, header) else entry) :: replaced entries id header := rfl
    rw [hreplaced, entriesBytes_cons, entriesBytes_cons, List.length_append, List.length_append]
    rw [List.map_cons, List.nodup_cons] at hdistinct
    by_cases hid : entry.1 = id
    · have hsome : 0 < (entryBytes entry).length := by
        simp only [entryBytes, List.length_append, Bytes.length_bigEndian]
        omega
      rw [if_pos hid, replaced_of_not_mem (hid ▸ hdistinct.1)]
      omega
    · have hlater : id ∈ entries.map Prod.fst := by
        rcases List.mem_cons.mp hold with h | h
        · exact absurd h.symm hid
        · exact h
      have hrest := ih hdistinct.2 hlater
      rw [if_neg hid]
      omega

/-- Headers that are put into a map one after the other take no more bytes there, and as many only
if all layers differ. Induction on the headers. -/
theorem length_entriesBytes_putAll (m : HeaderMap α) (entries : List (HeaderId × α)) :
    (entriesBytes (m.putAll entries).entries).length
        ≤ (entriesBytes m.entries).length + (entriesBytes entries).length ∧
      ((entriesBytes (m.putAll entries).entries).length
          = (entriesBytes m.entries).length + (entriesBytes entries).length →
        (m.ids ++ entries.map Prod.fst).Nodup) := by
  induction entries generalizing m with
  | nil =>
    refine ⟨Nat.le_refl _, fun _ => ?_⟩
    rw [List.map_nil, List.append_nil]
    exact m.distinct
  | cons first entries ih =>
    rcases first with ⟨id, header⟩
    rcases ih (m.put id header) with ⟨hle, hnodup⟩
    have hcons : m.putAll ((id, header) :: entries) = (m.put id header).putAll entries := rfl
    rw [hcons, entriesBytes_cons, List.length_append]
    by_cases hold : id ∈ m.ids
    · have hless := length_entriesBytes_replaced m.distinct hold header
      rw [← entries_put_of_mem m header hold] at hless
      exact ⟨by omega, fun _ => by omega⟩
    · have hlength : (entriesBytes (m.put id header).entries).length
          = (entriesBytes m.entries).length + (entryBytes (id, header)).length := by
        rw [entries_put_of_not_mem m header hold, entriesBytes_append, List.length_append]
        simp [entriesBytes]
      rw [hlength] at hle hnodup
      rw [ids_put_of_not_mem header hold, List.append_assoc] at hnodup
      exact ⟨by omega, fun h => hnodup (by omega)⟩

/-- A block of headers as it is written: their number, and the headers in a row. -/
def blockBytes (entries : List (HeaderId × α)) : Bytes :=
  Bytes.bigEndian 4 entries.length ++ entriesBytes entries

/-- A map is written as a block of its headers, if they can be counted. -/
theorem result_emit_of_lt {m : HeaderMap α} (h : m.entries.length < UInt32.size) :
    (m.emit []).result = .ok (blockBytes m.entries) := by
  refine result_emit_eq_ok.mpr ?_
  rw [retained_nil]
  exact ⟨h, _, result_concat_emitEntry m.entries, rfl⟩

/-- A block of headers is tidied to the headers that are left of it. -/
theorem tidied_blockBytes (entries : List (HeaderId × α)) :
    Tidied [.layers (entries.map Prod.fst)] True (blockBytes entries)
      (blockBytes (ofList entries).entries) := by
  have hempty : entriesBytes (empty : HeaderMap α).entries = [] := rfl
  rcases length_entriesBytes_putAll empty entries with ⟨hle, hnodup⟩
  rw [hempty, List.length_nil, Nat.zero_add] at hle hnodup
  have hlayers : LayersOnce [.layers (entries.map Prod.fst)] ↔ (entries.map Prod.fst).Nodup := by
    simp [LayersOnce]
  have hsame : (entries.map Prod.fst).Nodup → (ofList entries).entries = entries :=
    fun h => entries_putAll_of_nodup (m := empty) h
  have hlength : ∀ entries : List (HeaderId × α),
      (blockBytes entries).length = 4 + (entriesBytes entries).length := by
    intro entries
    rw [blockBytes, List.length_append, Bytes.length_bigEndian]
  refine ⟨?_, ?_, fun honce _ _ => ?_⟩
  · rw [hlength, hlength]
    exact Nat.add_le_add_left hle 4
  · rw [hlayers, hlength, hlength]
    exact ⟨fun h => hnodup (Nat.add_left_cancel h), fun h => by rw [hsame h]⟩
  · rw [hsame (hlayers.mp honce)]

end Wire

end HeaderMap

end Groupcast
