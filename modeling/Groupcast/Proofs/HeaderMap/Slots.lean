import Groupcast.HeaderMap.Slots
import Groupcast.Proofs.Message.KnownSender
import Groupcast.Proofs.Message.Tidied

/-!
# Slots keep the layers apart

Slots that are changed by operations, from none, are always the entries of a header map: each layer
has one slot at most, and so the first slot of a layer is the only one. A block of headers is read
into slots as its headers would be put one by one.
-/

namespace Groupcast

/-! ## Searching -/

namespace HeaderMap

/-- The header of a layer is the one that lies in the map under it. -/
theorem get?_eq_some_iff {m : HeaderMap α} {id : HeaderId} {header : α} :
    m.get? id = some header ↔ (id, header) ∈ m.entries := by
  unfold get?
  rw [List.lookup_eq_some_iff]
  constructor
  · rintro ⟨before, after, hentries, -⟩
    rw [hentries]
    exact List.mem_append_right _ List.mem_cons_self
  · intro hmem
    obtain ⟨before, after, hentries⟩ := List.append_of_mem hmem
    refine ⟨before, after, hentries, fun entry hbefore => ?_⟩
    -- The layers differ, so none before has this one.
    have hdistinct := m.distinct
    rw [hentries, List.map_append, List.nodup_append] at hdistinct
    have hne : entry.1 ≠ id :=
      hdistinct.2.2 entry.1 (List.mem_map_of_mem hbefore) id List.mem_cons_self
    exact bne_iff_ne.mpr hne.symm

/-- After a header is put, it lies under its layer, and the others as before. -/
theorem mem_entries_put_iff {m : HeaderMap α} {id layer : HeaderId} {header value : α} :
    (layer, value) ∈ (m.put id header).entries ↔
      (layer = id ∧ value = header) ∨ (layer ≠ id ∧ (layer, value) ∈ m.entries) := by
  by_cases hold : id ∈ m.ids
  · rw [entries_put_of_mem m header hold, replaced, List.mem_map]
    constructor
    · rintro ⟨entry, hmem, hentry⟩
      by_cases hlayer : entry.1 = id
      · rw [if_pos hlayer] at hentry
        cases hentry
        exact Or.inl ⟨rfl, rfl⟩
      · rw [if_neg hlayer] at hentry
        subst hentry
        exact Or.inr ⟨hlayer, hmem⟩
    · rintro (⟨rfl, rfl⟩ | ⟨hlayer, hmem⟩)
      · obtain ⟨entry, hmem, hentry⟩ := List.mem_map.mp hold
        exact ⟨entry, hmem, if_pos hentry⟩
      · exact ⟨(layer, value), hmem, if_neg hlayer⟩
  · rw [entries_put_of_not_mem m header hold, List.mem_append, List.mem_singleton, Prod.mk.injEq]
    constructor
    · rintro (hmem | hnew)
      · refine Or.inr ⟨?_, hmem⟩
        rintro rfl
        exact hold (List.mem_map.mpr ⟨_, hmem, rfl⟩)
      · exact Or.inl hnew
    · rintro (hnew | ⟨-, hmem⟩)
      · exact Or.inr hnew
      · exact Or.inl hmem

theorem ids_put_of_mem {m : HeaderMap α} {id : HeaderId} (header : α) (hold : id ∈ m.ids) :
    (m.put id header).ids = m.ids := by
  rw [ids, entries_put_of_mem m header hold]
  exact map_fst_replaced m.entries id header

theorem mem_ids_put_iff {m : HeaderMap α} {id layer : HeaderId} (header : α) :
    layer ∈ (m.put id header).ids ↔ layer = id ∨ layer ∈ m.ids := by
  by_cases hold : id ∈ m.ids
  · rw [ids_put_of_mem header hold]
    constructor
    · exact Or.inr
    · rintro (rfl | hmem)
      · exact hold
      · exact hmem
  · rw [ids_put_of_not_mem header hold, List.mem_append, List.mem_singleton, or_comm]

end HeaderMap

/-! ## Slots and maps -/

namespace Slots

/-- Where slots of other layers come first, it is the next slots that are changed. -/
theorem put_append {front back : Slots α} {id : HeaderId} (header : α)
    (hfront : id ∉ front.map Prod.fst) :
    put (front ++ back) id header = (front ++ (back.put id header).1, (back.put id header).2) := by
  induction front with
  | nil => rfl
  | cons slot front ih =>
    rw [List.map_cons, List.mem_cons, not_or] at hfront
    rw [List.cons_append, put, if_neg fun h => hfront.1 h.symm, ih hfront.2]
    rfl

/-- Where no slot has the layer, a header is put at the end. -/
theorem put_of_not_mem {slots : Slots α} {id : HeaderId} (header : α)
    (hnew : id ∉ slots.map Prod.fst) : slots.put id header = (slots ++ [(id, header)], none) := by
  have hend : put (slots ++ []) id header = (slots ++ [(id, header)], none) :=
    put_append header hnew
  rwa [List.append_nil] at hend

theorem remove_append {front back : Slots α} {id : HeaderId} (hfront : id ∉ front.map Prod.fst) :
    remove (front ++ back) id = (front ++ (back.remove id).1, (back.remove id).2) := by
  induction front with
  | nil => rfl
  | cons slot front ih =>
    rw [List.map_cons, List.mem_cons, not_or] at hfront
    rw [List.cons_append, remove, if_neg fun h => hfront.1 h.symm, ih hfront.2]
    rfl

theorem remove_of_not_mem {slots : Slots α} {id : HeaderId} (hnone : id ∉ slots.map Prod.fst) :
    slots.remove id = (slots, none) := by
  have hend : remove (slots ++ []) id = (slots ++ [], none) := remove_append hnone
  rwa [List.append_nil] at hend

end Slots

namespace HeaderMap

/-- A layer that has a header has one slot, and the header is in it. -/
theorem exists_slot {m : HeaderMap α} {id : HeaderId} (hold : id ∈ m.ids) :
    ∃ front old back, m.entries = front ++ (id, old) :: back ∧ m.get? id = some old ∧
      id ∉ front.map Prod.fst ∧ id ∉ back.map Prod.fst := by
  obtain ⟨⟨_, old⟩, hmem, rfl⟩ := List.mem_map.mp hold
  obtain ⟨front, back, hentries⟩ := List.append_of_mem hmem
  have hdistinct := m.distinct
  rw [hentries, List.map_append, List.map_cons, List.nodup_append, List.nodup_cons] at hdistinct
  obtain ⟨-, ⟨hback, -⟩, hfront⟩ := hdistinct
  exact ⟨front, old, back, hentries, get?_eq_some_iff.mpr hmem,
    fun h => hfront _ h _ List.mem_cons_self rfl, hback⟩

theorem get?_of_not_mem {m : HeaderMap α} {id : HeaderId} (hnew : id ∉ m.ids) :
    m.get? id = none := by
  rw [← contains_iff_mem_ids, contains] at hnew
  simpa using hnew

/-- A header that is put in a slot changes the map, and gives back what the map had. -/
theorem put_entries (m : HeaderMap α) (id : HeaderId) (header : α) :
    Slots.put m.entries id header = ((m.put id header).entries, m.get? id) := by
  by_cases hold : id ∈ m.ids
  · obtain ⟨front, old, back, hentries, hget, hfront, hback⟩ := exists_slot hold
    rw [entries_put_of_mem m header hold, hget, hentries, Slots.put_append header hfront,
      Slots.put, if_pos rfl, replaced, List.map_append, List.map_cons, if_pos rfl]
    have hfrontKept := replaced_of_not_mem hfront header
    have hbackKept := replaced_of_not_mem hback header
    rw [replaced] at hfrontKept hbackKept
    rw [hfrontKept, hbackKept]
  · rw [entries_put_of_not_mem m header hold, get?_of_not_mem hold,
      Slots.put_of_not_mem header hold]

theorem entries_erase (m : HeaderMap α) (id : HeaderId) :
    (m.erase id).entries = m.entries.filter (·.1 ≠ id) := rfl

/-- A slot that is taken out is taken out of the map, and gives back what the map had. -/
theorem remove_entries (m : HeaderMap α) (id : HeaderId) :
    Slots.remove m.entries id = ((m.erase id).entries, m.get? id) := by
  have hkeep : ∀ {slots : Slots α}, id ∉ slots.map Prod.fst →
      slots.filter (·.1 ≠ id) = slots := by
    intro slots hnone
    rw [List.filter_eq_self]
    intro slot hmem
    exact decide_eq_true fun h => hnone (List.mem_map.mpr ⟨slot, hmem, h⟩)
  by_cases hold : id ∈ m.ids
  · obtain ⟨front, old, back, hentries, hget, hfront, hback⟩ := exists_slot hold
    rw [entries_erase, hget, hentries, Slots.remove_append hfront, Slots.remove, if_pos rfl,
      List.filter_append, hkeep hfront, List.filter_cons_of_neg (by simp), hkeep hback]
  · rw [entries_erase, get?_of_not_mem hold, Slots.remove_of_not_mem hold, hkeep hold]

end HeaderMap

/-! ## Blocks of headers -/

section Wire

variable [Streamable α] (find : UInt16 → Except DecodeError α)

/-- Slots are read as a map is. Induction on the headers to be read. -/
theorem Slots.readingInto_eq (n : Nat) (m : HeaderMap α) :
    readingInto find n m.entries = HeaderMap.entries <$> HeaderMap.readingInto find n m := by
  induction n generalizing m with
  | zero => rfl
  | succ n ih =>
    simp only [readingInto, HeaderMap.readingInto, map_bind, ← ih, HeaderMap.put_entries]

theorem Slots.reading_eq : reading find = HeaderMap.entries <$> HeaderMap.reading find := by
  simp only [reading, HeaderMap.reading, map_bind, ← readingInto_eq]
  rfl

namespace HeaderMap

/-- Reads the headers of a block, each with its layer. -/
def readingBlock : Reading (List (HeaderId × α)) := do
  let count ← Reading.u32
  readingEntries find count.toNat

/-- A block is read as its headers would be put one by one. -/
theorem reading_eq_ofList : reading find = ofList <$> readingBlock find := by
  simp only [reading, readingBlock, map_bind, readingInto_eq]
  rfl

variable {find}

/-- Headers in a row are read back, several of one layer too. -/
theorem restores_readingEntries {entries : List (HeaderId × α)}
    (hback : ∀ entry ∈ entries, Streamable.ReadsBack find entry.2) :
    (readingEntries find entries.length).Restores (entriesBytes entries) entries := by
  induction entries with
  | nil => exact Reading.restores_done []
  | cons entry entries ih =>
    obtain ⟨blank, hfind, hrefill⟩ := hback entry List.mem_cons_self
    have hothers := ih fun entry hmem => hback entry (List.mem_cons_of_mem _ hmem)
    rw [entriesBytes_cons, entryBytes]
    simp only [List.append_assoc]
    refine (Reading.restores_u16 entry.1).bind ((Reading.restores_u16 _).bind ?_)
    simp only [Reading.bind_eq_bind, Reading.ofExcept_bind_of_ok hfind]
    exact hrefill.bind (hothers.map fun others => entry :: others)

/-- So are the headers of a block, if they can be counted. -/
theorem restores_blockBytes {entries : List (HeaderId × α)}
    (hback : ∀ entry ∈ entries, Streamable.ReadsBack find entry.2)
    (hcount : entries.length < UInt32.size) :
    (readingBlock find).Restores (blockBytes entries) entries := by
  have hnumber := Reading.restores_u32 (UInt32.ofNat entries.length)
  rw [UInt32.toNat_ofNat_of_lt' hcount] at hnumber
  refine hnumber.bind ?_
  rw [UInt32.toNat_ofNat_of_lt' hcount]
  exact restores_readingEntries hback

omit [Streamable α] in
/-- There are no more layers than 16-bit numbers. -/
theorem length_entries_lt (m : HeaderMap α) : m.entries.length < UInt32.size := by
  have hdistinct : (m.ids.map UInt16.toNat).Nodup :=
    List.pairwise_map.mpr (m.distinct.imp fun hne h => hne (UInt16.toNat_inj.mp h))
  have hbound : m.ids.map UInt16.toNat ⊆ List.range UInt16.size := by
    intro n hmem
    obtain ⟨id, -, rfl⟩ := List.mem_map.mp hmem
    exact List.mem_range.mpr id.toNat_lt
  have hlength := hdistinct.length_le_of_subset hbound
  rw [List.length_map, List.length_range, ids, List.length_map] at hlength
  exact Nat.lt_of_le_of_lt hlength (by decide)

/-- What is written of a map without some layers takes the bytes declared for it, and is read back
as the map without them. -/
theorem restores_emit_excluded {m : HeaderMap α} {excluded : List HeaderId}
    (hback : ∀ entry ∈ m.retained excluded, Streamable.ReadsBack find entry.2)
    (hkeeps : ∀ entry ∈ m.retained excluded, Streamable.KeepsSize entry.2) :
    ∃ w, (m.emit excluded).result = .ok w ∧ w.length = m.wireSize excluded ∧
      (reading find).Restores w (m.eraseAll excluded) := by
  rw [← entries_eraseAll] at hback hkeeps
  rw [← emit_eraseAll, ← wireSize_eraseAll]
  generalize m.eraseAll excluded = reduced at hback hkeeps ⊢
  have hresult := result_emit_of_lt reduced.length_entries_lt
  refine ⟨_, hresult, (wireSize_of_emit hkeeps hresult).symm, ?_⟩
  have hwhole : ofList reduced.entries = reduced :=
    ext_entries (entries_putAll_of_nodup (m := empty) reduced.distinct)
  have hread := (restores_blockBytes hback reduced.length_entries_lt).map ofList
  rwa [hwhole, ← reading_eq_ofList] at hread

end HeaderMap

end Wire

end Groupcast
