import Mathlib.Data.List.Induction
import Groupcast.Proofs.Catalogue.Contract
import Groupcast.Proofs.HeaderMap.Slots

/-!
# Histories of headers

What lies in a header map is told by what happened to it. An operation comes down to changes: a
header is put under a layer, or the headers of some layers are dropped. The header of a layer is the
one put last that was not dropped since; and a layer has the place that it got when a header was put
under it while there was none, if it was not dropped since. Both are of the form `Since`, and both
are shown by induction on the changes, the last of which is looked at first.
-/

namespace Groupcast

/-- Whether there is an item of which `p` holds, given those before it, with only items after it of
which `q` holds. -/
def Since {β : Type} (p : List β → β → Prop) (q : β → Prop) (items : List β) : Prop :=
  ∃ before item after, items = before ++ item :: after ∧ p before item ∧ ∀ later ∈ after, q later

section Since

variable {β : Type} {p : List β → β → Prop} {q : β → Prop}

theorem not_since_nil : ¬ Since p q [] := by
  rintro ⟨before, item, after, hitems, -⟩
  exact List.append_ne_nil_of_right_ne_nil before (List.cons_ne_nil item after) hitems.symm

/-- The item is the last one, or one before, and the last keeps to what is asked of those after. -/
theorem since_snoc {items : List β} {last : β} :
    Since p q (items ++ [last]) ↔ p items last ∨ (q last ∧ Since p q items) := by
  constructor
  · rintro ⟨before, item, after, hitems, hp, hq⟩
    rcases List.eq_nil_or_concat after with rfl | ⟨after, next, rfl⟩
    · obtain ⟨rfl, hlast⟩ := List.append_inj' hitems rfl
      cases hlast
      exact Or.inl hp
    · rw [List.concat_eq_append] at hitems hq
      rw [← List.cons_append, ← List.append_assoc] at hitems
      obtain ⟨rfl, hlast⟩ := List.append_inj' hitems rfl
      cases hlast
      refine Or.inr ⟨hq last (by simp), before, item, after, rfl, hp, ?_⟩
      intro later hlater
      exact hq later (List.mem_append_left _ hlater)
  · rintro (hp | ⟨hlast, before, item, after, rfl, hp, hq⟩)
    · exact ⟨items, last, [], rfl, hp, by simp⟩
    · refine ⟨before, item, after ++ [last], by simp, hp, ?_⟩
      intro later hlater
      rcases List.mem_append.mp hlater with hafter | hnext
      · exact hq later hafter
      · rw [List.mem_singleton.mp hnext]
        exact hlast

end Since

namespace HeaderMap

variable {α : Type}

/-! ## Changes -/

/-- A change to the headers of layers. -/
inductive Change (α : Type) where
  | put (id : HeaderId) (header : α)
  /-- The headers of all layers of which this is true are dropped. -/
  | drop (gone : HeaderId → Bool)

namespace Change

/-- Whether a layer loses its header. -/
def Drops (id : HeaderId) : Change α → Prop
  | put _ _ => False
  | drop gone => gone id

/-- Whether the header of a layer is another one afterwards. -/
def Concerns (id : HeaderId) : Change α → Prop
  | put layer _ => layer = id
  | drop gone => gone id

end Change

/-- Whether a header was put under a layer, with no other put there and none dropped since. -/
def LastPut (changes : List (Change α)) (id : HeaderId) (header : α) : Prop :=
  Since (fun _ change => change = .put id header) (fun change => ¬ change.Concerns id) changes

/-- Whether a layer got its place with the change of this number: a header was put under it then,
while there was none, and was not dropped since. -/
def EnteredAt (changes : List (Change α)) (id : HeaderId) (n : Nat) : Prop :=
  Since (fun before change => before.length = n ∧ (∃ header, change = .put id header) ∧
    ¬ ∃ header, LastPut before id header) (fun change => ¬ change.Drops id) changes

theorem lastPut_snoc {changes : List (Change α)} {change : Change α} {id : HeaderId} {header : α} :
    LastPut (changes ++ [change]) id header ↔
      change = .put id header ∨ (¬ change.Concerns id ∧ LastPut changes id header) :=
  since_snoc

theorem enteredAt_snoc {changes : List (Change α)} {change : Change α} {id : HeaderId} {n : Nat} :
    EnteredAt (changes ++ [change]) id n ↔
      (changes.length = n ∧ (∃ header, change = .put id header) ∧
        ¬ ∃ header, LastPut changes id header) ∨
      (¬ change.Drops id ∧ EnteredAt changes id n) :=
  since_snoc

theorem EnteredAt.lt_length {changes : List (Change α)} {id : HeaderId} {n : Nat}
    (h : EnteredAt changes id n) : n < changes.length := by
  obtain ⟨before, change, after, rfl, ⟨rfl, -⟩, -⟩ := h
  rw [List.length_append, List.length_cons]
  omega

/-- The map after a change. -/
def change (m : HeaderMap α) : Change α → HeaderMap α
  | .put id header => m.put id header
  | .drop gone =>
    ⟨m.entries.filter (!gone ·.1), m.distinct.sublist (List.filter_sublist.map _)⟩

/-- The map after some changes, from an empty one. -/
def replay (changes : List (Change α)) : HeaderMap α :=
  changes.foldl change empty

theorem replay_snoc (changes : List (Change α)) (last : Change α) :
    replay (changes ++ [last]) = (replay changes).change last := by
  rw [replay, List.foldl_append]
  rfl

theorem mem_entries_drop {m : HeaderMap α} {gone : HeaderId → Bool} {entry : HeaderId × α} :
    entry ∈ (m.change (.drop gone)).entries ↔ ¬ gone entry.1 ∧ entry ∈ m.entries := by
  show entry ∈ m.entries.filter (!gone ·.1) ↔ _
  rw [List.mem_filter, and_comm]
  simp

theorem ids_drop (m : HeaderMap α) (gone : HeaderId → Bool) :
    (m.change (.drop gone)).ids = m.ids.filter (!gone ·) := by
  rw [ids, ids, List.filter_map]
  rfl

/-! ## What lies in a map -/

/-- The header of a layer is the one put last. -/
theorem mem_entries_replay {changes : List (Change α)} {id : HeaderId} {header : α} :
    (id, header) ∈ (replay changes).entries ↔ LastPut changes id header := by
  induction changes using List.reverseRecOn with
  | nil => exact iff_of_false List.not_mem_nil not_since_nil
  | append_singleton changes last ih =>
    rw [replay_snoc, lastPut_snoc, ← ih]
    cases last with
    | put layer value =>
      show (id, header) ∈ ((replay changes).put layer value).entries ↔ _
      rw [mem_entries_put_iff, Change.put.injEq]
      simp only [Change.Concerns, eq_comm]
    | drop gone =>
      rw [mem_entries_drop]
      simp [Change.Concerns]

theorem mem_ids_replay {changes : List (Change α)} {id : HeaderId} :
    id ∈ (replay changes).ids ↔ ∃ header, LastPut changes id header := by
  simp only [ids, List.mem_map, ← mem_entries_replay]
  constructor
  · rintro ⟨⟨_, header⟩, hmem, rfl⟩
    exact ⟨header, hmem⟩
  · rintro ⟨header, hmem⟩
    exact ⟨_, hmem, rfl⟩

/-! ## The places of layers -/

/-- A layer has a header just if it got a place. -/
theorem mem_ids_iff_enteredAt {changes : List (Change α)} {id : HeaderId} :
    id ∈ (replay changes).ids ↔ ∃ n, EnteredAt changes id n := by
  induction changes using List.reverseRecOn with
  | nil => exact iff_of_false List.not_mem_nil fun ⟨_, h⟩ => not_since_nil h
  | append_singleton changes last ih =>
    rw [replay_snoc]
    simp only [enteredAt_snoc, ← mem_ids_replay]
    cases last with
    | put layer value =>
      show id ∈ ((replay changes).put layer value).ids ↔ _
      rw [mem_ids_put_iff]
      constructor
      · intro hmem
        by_cases hold : id ∈ (replay changes).ids
        · obtain ⟨n, hn⟩ := ih.mp hold
          exact ⟨n, Or.inr ⟨not_false, hn⟩⟩
        · obtain rfl : id = layer := hmem.resolve_right hold
          exact ⟨_, Or.inl ⟨rfl, ⟨value, rfl⟩, hold⟩⟩
      · rintro ⟨n, ⟨-, ⟨header, hput⟩, -⟩ | ⟨-, hn⟩⟩
        · cases hput
          exact Or.inl rfl
        · exact Or.inr (ih.mpr ⟨n, hn⟩)
    | drop gone =>
      rw [ids_drop, List.mem_filter, ih]
      constructor
      · rintro ⟨⟨n, hn⟩, hkept⟩
        exact ⟨n, Or.inr ⟨by simpa [Change.Drops] using hkept, hn⟩⟩
      · rintro ⟨n, ⟨-, ⟨header, hput⟩, -⟩ | ⟨hkept, hn⟩⟩
        · cases hput
        · exact ⟨⟨n, hn⟩, by simpa [Change.Drops] using hkept⟩

/-- A layer got its place once. -/
theorem EnteredAt.unique {changes : List (Change α)} {id : HeaderId} {i j : Nat}
    (hi : EnteredAt changes id i) (hj : EnteredAt changes id j) : i = j := by
  induction changes using List.reverseRecOn with
  | nil => exact absurd hi not_since_nil
  | append_singleton changes last ih =>
    have hheld : ∀ {n}, EnteredAt changes id n → ∃ header, LastPut changes id header :=
      fun hn => mem_ids_replay.mp (mem_ids_iff_enteredAt.mpr ⟨_, hn⟩)
    rcases enteredAt_snoc.mp hi with ⟨rfl, -, hfree⟩ | ⟨-, hi⟩
    · rcases enteredAt_snoc.mp hj with ⟨rfl, -, -⟩ | ⟨-, hj⟩
      · rfl
      · exact absurd (hheld hj) hfree
    · rcases enteredAt_snoc.mp hj with ⟨rfl, -, hfree⟩ | ⟨-, hj⟩
      · exact absurd (hheld hi) hfree
      · exact ih hi hj

/-- The layers stand in the order in which they got their places. -/
theorem pairwise_ids_replay (changes : List (Change α)) :
    (replay changes).ids.Pairwise fun a b =>
      ∃ i j, EnteredAt changes a i ∧ EnteredAt changes b j ∧ i < j := by
  induction changes using List.reverseRecOn with
  | nil => exact List.Pairwise.nil
  | append_singleton changes last ih =>
    -- Layers that are not dropped keep their places.
    have hkept : ∀ {ids : List HeaderId}, (∀ id ∈ ids, ¬ last.Drops id) →
        ids.Sublist (replay changes).ids → ids.Pairwise fun a b =>
          ∃ i j, EnteredAt (changes ++ [last]) a i ∧ EnteredAt (changes ++ [last]) b j ∧ i < j := by
      intro ids hids hsub
      refine (ih.sublist hsub).imp_of_mem fun {a b} ha hb ⟨i, j, hi, hj, hlt⟩ => ?_
      exact ⟨i, j, enteredAt_snoc.mpr (Or.inr ⟨hids a ha, hi⟩),
        enteredAt_snoc.mpr (Or.inr ⟨hids b hb, hj⟩), hlt⟩
    rw [replay_snoc]
    cases last with
    | drop gone =>
      rw [ids_drop]
      refine hkept (fun id hmem => ?_) List.filter_sublist
      simpa [Change.Drops] using (List.mem_filter.mp hmem).2
    | put id header =>
      show ((replay changes).put id header).ids.Pairwise _
      by_cases hold : id ∈ (replay changes).ids
      · rw [ids_put_of_mem header hold]
        exact hkept (fun _ _ => not_false) (List.Sublist.refl _)
      · rw [ids_put_of_not_mem header hold]
        refine List.pairwise_append.mpr
          ⟨hkept (fun _ _ => not_false) (List.Sublist.refl _), List.pairwise_singleton _ _, ?_⟩
        intro a ha b hb
        obtain rfl := List.mem_singleton.mp hb
        obtain ⟨i, hi⟩ := mem_ids_iff_enteredAt.mp ha
        exact ⟨i, changes.length, enteredAt_snoc.mpr (Or.inr ⟨not_false, hi⟩),
          enteredAt_snoc.mpr (Or.inl ⟨rfl, ⟨header, rfl⟩, mt mem_ids_replay.mpr hold⟩),
          hi.lt_length⟩

/-! ## Operations -/

variable [Streamable α]

/-- What an operation comes to. The headers of a block that is read are put one by one, after all
others are dropped. -/
def changesOf : HeaderOperation α → List (Change α)
  | .put id header => [.put id header]
  | .remove id => [.drop (· = id)]
  | .copy => []
  | .copyFrom first => [.drop (· < first)]
  | .read blank source =>
    match ((readingBlock blank).run source).1 with
    | .ok entries => .drop (fun _ => true) :: entries.map fun entry => .put entry.1 entry.2
    | .error _ => []

/-- An operation takes a map where its changes do. -/
theorem step_eq_foldl (m : HeaderMap α) (operation : HeaderOperation α) :
    m.step operation = (changesOf operation).foldl change m := by
  cases operation with
  | put id header => rfl
  | remove id =>
    apply ext_entries
    show m.entries.filter (·.1 ≠ id) = m.entries.filter fun entry => !decide (entry.1 = id)
    simp only [ne_eq, decide_not]
  | copy => rfl
  | copyFrom first =>
    apply ext_entries
    show m.entries.filter (first ≤ ·.1) = m.entries.filter fun entry => !decide (entry.1 < first)
    refine List.filter_congr fun entry _ => ?_
    simp only [← decide_not, UInt16.not_lt]
  | read blank source =>
    have hnone : m.change (.drop fun _ => true) = empty := by
      apply ext_entries
      exact List.filter_eq_nil_iff.mpr fun _ _ => by simp
    simp only [step, changesOf, reading_eq_ofList, Reading.run_map]
    cases ((readingBlock blank).run source).1 with
    | error error => rfl
    | ok entries =>
      rw [List.foldl_cons, List.foldl_map, hnone]
      rfl

/-- The changes that some operations come to, one after the other. -/
def changesOfAll (history : List (HeaderOperation α)) : List (Change α) :=
  history.flatMap changesOf

theorem after_eq_replay (history : List (HeaderOperation α)) :
    after history = replay (changesOfAll history) := by
  unfold after replay changesOfAll
  generalize (empty : HeaderMap α) = m
  induction history generalizing m with
  | nil => rfl
  | cons operation history ih =>
    rw [List.foldl_cons, ih, List.flatMap_cons, List.foldl_append, step_eq_foldl]

/-- Slots are changed as the map is that has their entries. -/
theorem step_entries (m : HeaderMap α) (operation : HeaderOperation α) :
    (Slots.step m.entries operation).1 = (m.step operation).entries := by
  cases operation with
  | put id header => exact congrArg Prod.fst (put_entries m id header)
  | remove id => exact congrArg Prod.fst (remove_entries m id)
  | copy => rfl
  | copyFrom first => rfl
  | read blank source =>
    simp only [Slots.step, step, Slots.reading_eq, Reading.run_map]
    cases ((reading blank).run source).1 <;> rfl

theorem entries_after (history : List (HeaderOperation α)) :
    (after history).entries = Slots.after history := by
  have hrun : ∀ m : HeaderMap α, (history.foldl step m).entries
      = history.foldl (fun slots operation => (Slots.step slots operation).1) m.entries := by
    induction history with
    | nil => exact fun _ => rfl
    | cons operation history ih =>
      intro m
      rw [List.foldl_cons, List.foldl_cons, ih, step_entries]
  exact hrun empty

/-- What slots are to be like after some changes: the layers differ, the header of each is the one
put last, and they stand in the order in which they got their places. -/
structure InsertionOrdered (changes : List (Change α)) (slots : Slots α) : Prop where
  distinct : (slots.map Prod.fst).Nodup
  lookup_iff : ∀ id header, slots.lookup id = some header ↔ LastPut changes id header
  mem_iff : ∀ id, id ∈ slots.map Prod.fst ↔ ∃ n, EnteredAt changes id n
  place_unique : ∀ id i j, EnteredAt changes id i → EnteredAt changes id j → i = j
  ordered : (slots.map Prod.fst).Pairwise fun a b =>
    ∃ i j, EnteredAt changes a i ∧ EnteredAt changes b j ∧ i < j

omit [Streamable α] in
theorem insertionOrdered_replay (changes : List (Change α)) :
    InsertionOrdered changes (replay changes).entries where
  distinct := (replay changes).distinct
  lookup_iff _ _ := get?_eq_some_iff.trans mem_entries_replay
  mem_iff _ := mem_ids_iff_enteredAt
  place_unique _ _ _ := EnteredAt.unique
  ordered := pairwise_ids_replay changes

/-- A header map is a map in order of insertion, over every history. Whatever is done to slots, from
none: they hold the headers that were put last, in the order in which their layers got their places;
and a header that is put or taken out gives back what was found under its layer. A block that is
read is put header by header, and any block of headers that can be read back is read so, several
headers of one layer included. What is written without some layers is the map without them, takes
the bytes declared for it, and is read back from in front of anything. -/
theorem insertionOrdered_after :
    (∀ history : List (HeaderOperation α),
      InsertionOrdered (changesOfAll history) (Slots.after history) ∧
      (after history).entries = Slots.after history ∧
      ∀ id header,
        (Slots.put (Slots.after history) id header).2 = (Slots.after history).lookup id ∧
        (Slots.remove (Slots.after history) id).2 = (Slots.after history).lookup id) ∧
    (∀ (find : UInt16 → Except DecodeError α) (source : Bytes), (reading find).run source
      = (((readingBlock find).run source).1.map ofList, ((readingBlock find).run source).2)) ∧
    (∀ (find : UInt16 → Except DecodeError α) (entries : List (HeaderId × α)),
      (∀ entry ∈ entries, Streamable.ReadsBack find entry.2) → entries.length < UInt32.size →
      ∀ rest, (reading find).run (blockBytes entries ++ rest) = (.ok (ofList entries), rest)) ∧
    ∀ (find : UInt16 → Except DecodeError α) (m : HeaderMap α) (excluded : List HeaderId),
      (∀ entry ∈ m.entries, entry.1 ∉ excluded →
        Streamable.ReadsBack find entry.2 ∧ Streamable.KeepsSize entry.2) →
      ∃ w reduced, (m.emit excluded).result = .ok w ∧ w.length = m.wireSize excluded ∧
        reduced.entries = m.entries.filter (·.1 ∉ excluded) ∧
        ∀ rest, (reading find).run (w ++ rest) = (.ok reduced, rest) := by
  refine ⟨?_, ?_, ?_, ?_⟩
  · intro history
    rw [← entries_after]
    refine ⟨?_, rfl, fun id header => ⟨?_, ?_⟩⟩
    · rw [after_eq_replay]
      exact insertionOrdered_replay _
    · rw [put_entries]
      rfl
    · rw [remove_entries]
      rfl
  · intro find source
    rw [reading_eq_ofList, Reading.run_map]
  · intro find entries hback hcount
    have hread := (restores_blockBytes hback hcount).map ofList
    rwa [← reading_eq_ofList] at hread
  · intro find m excluded hkept
    have hretained : m.retained excluded = m.entries.filter (·.1 ∉ excluded) := by
      simp [retained]
    have hboth : ∀ entry ∈ m.retained excluded,
        Streamable.ReadsBack find entry.2 ∧ Streamable.KeepsSize entry.2 := by
      intro entry hmem
      rw [hretained, List.mem_filter] at hmem
      exact hkept entry hmem.1 (of_decide_eq_true hmem.2)
    obtain ⟨w, hresult, hlength, hread⟩ := restores_emit_excluded
      (fun entry hmem => (hboth entry hmem).1) (fun entry hmem => (hboth entry hmem).2)
    exact ⟨w, _, hresult, hlength, (entries_eraseAll m excluded).trans hretained, hread⟩

section Sample

open Catalogue

/-- A block with two headers of layer 5. -/
def repeatingBlock : Bytes :=
  blockBytes (α := Record dialect) [(5, .item (.seq 1)), (3, .item (.seq 2)), (5, .item (.seq 3))]

/-- Headers are put and removed, and then dropped for those of a block, of which not all are copied.
One that is left is put once more, after another. -/
def sampleHistory : List (HeaderOperation (Record dialect)) :=
  [.put 3 (.item (.seq 7)), .put 1 (.item (.seq 8)), .remove 3, .put 3 (.item (.seq 9)),
    .read registry.header repeatingBlock, .put 9 (.item (.seq 4)), .copyFrom 4, .copy,
    .put 5 (.item (.seq 6))]

/-- Two headers are left in the end, and one of them when the other is not written. -/
theorem insertionOrdered_after_sample :
    Slots.after sampleHistory = [(5, .item (.seq 6)), (9, .item (.seq 4))] ∧
    LastPut (changesOfAll sampleHistory) 5 (.item (.seq 6)) ∧
    (∃ i j, EnteredAt (changesOfAll sampleHistory) 5 i ∧
      EnteredAt (changesOfAll sampleHistory) 9 j ∧ i < j) ∧
    (∀ rest, ∃ m, (reading registry.header).run (repeatingBlock ++ rest) = (.ok m, rest) ∧
      m.entries = [(5, .item (.seq 3)), (3, .item (.seq 2))]) ∧
    ∃ w reduced, ((after sampleHistory).emit [9]).result = .ok w ∧ w.length = 12 ∧
      reduced.entries = [(5, .item (.seq 6))] ∧
      ∀ rest, (reading registry.header).run (w ++ rest) = (.ok reduced, rest) := by
  obtain ⟨hhistory, -, hblock, hwire⟩ := insertionOrdered_after (α := Record dialect)
  obtain ⟨hordered, hentries, -⟩ := hhistory sampleHistory
  have hslots : Slots.after sampleHistory = [(5, .item (.seq 6)), (9, .item (.seq 4))] := rfl
  have hback : ∀ n : UInt32, Streamable.ReadsBack registry.header (.item (.seq n)) :=
    fun n => Item.seq_readsBack rfl n
  have hplaces := hordered.ordered
  rw [hslots] at hplaces
  obtain ⟨w, reduced, hresult, hlength, hreduced, hread⟩ :=
    hwire registry.header (after sampleHistory) [9] (by
      intro entry hmem _
      rw [hentries, hslots] at hmem
      refine ⟨?_, keepsSize_record entry.2⟩
      simp only [List.mem_cons, List.not_mem_nil, or_false] at hmem
      rcases hmem with rfl | rfl <;> exact hback _)
  refine ⟨hslots, (hordered.lookup_iff 5 _).mp (by rw [hslots]; rfl), ?_, ?_, ?_⟩
  · exact (List.pairwise_cons.mp hplaces).1 9 List.mem_cons_self
  · intro rest
    refine ⟨_, hblock registry.header
      [(5, .item (.seq 1)), (3, .item (.seq 2)), (5, .item (.seq 3))] ?_ (by decide) rest, rfl⟩
    intro entry hmem
    simp only [List.mem_cons, List.not_mem_nil, or_false] at hmem
    rcases hmem with rfl | rfl | rfl <;> exact hback _
  · exact ⟨w, reduced, hresult, hlength, hreduced, hread⟩

end Sample

end HeaderMap

end Groupcast
