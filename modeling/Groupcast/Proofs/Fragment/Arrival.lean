import Mathlib.Data.List.Sort
import Groupcast.Proofs.Fragment.Numbering

/-!
# Fragments in any order

Fragments arrive in any order, mixed with those of other batches, and some arrive twice. Their tags
are enough to sort this out: no two fragments that a fragmenter hands out have the same tag, so the
fragments of a batch are those with its number, each once, in the order of their places.
-/

namespace Groupcast

variable {D : Dialect}

/-! ## Tags -/

/-- The tag of a fragment, which is its header under the number of a layer. -/
def Message.tag? (layer : HeaderId) (m : Message D) : Option FragmentTag :=
  (m.header? layer).bind Record.tag?

/-- The number of the batch and the place in it, by which a fragment is known. -/
def Message.label? (layer : HeaderId) (m : Message D) : Option (UInt64 × UInt32) :=
  (m.tag? layer).map fun tag => (tag.id, tag.index)

/-- The place of a fragment in its batch. -/
def Message.place (layer : HeaderId) (m : Message D) : Nat :=
  (m.tag? layer).elim 0 (·.index.toNat)

theorem Message.place_eq_of_label?_eq {layer : HeaderId} {m m' : Message D}
    (h : m.label? layer = m'.label? layer) : m.place layer = m'.place layer := by
  have hplace : ∀ m : Message D, m.place layer = (m.label? layer).elim 0 (·.2.toNat) := by
    intro m
    unfold place label?
    cases m.tag? layer <;> rfl
  rw [hplace, h, ← hplace]

theorem Message.tag?_fragment (whole : Message D) (layer : HeaderId) (tag : FragmentTag)
    (window : Window) : (whole.fragment layer tag window).norm.tag? layer = some tag := by
  unfold tag? header?
  rw [envelope_norm]
  simp [fragment, envelope, HeaderMap.put, HeaderMap.contains, HeaderMap.get?, HeaderMap.empty,
    Record.tag?]

/-! ## Arrival -/

/-- What arrives of a message that is sent, if it can be encoded and decoded. -/
def Message.delivered (r : Registry D) (m : Message D) : Option (Message D) :=
  m.encode.toOption.bind fun w => (decode r w).toOption

/-- A fragment that can be encoded arrives in normal form. -/
theorem Message.delivered_of_encode_fragment {r : Registry D} (hreach : r.Reachable)
    {whole : Message D} {layer : HeaderId} {tag : FragmentTag} {window : Window} {w : Bytes}
    (hencode : (whole.fragment layer tag window).encode = .ok w) :
    (whole.fragment layer tag window).delivered r
      = some (whole.fragment layer tag window).norm := by
  unfold delivered
  rw [hencode]
  show (decode r w).toOption = _
  rw [decode_of_encode_fragment hreach hencode]
  rfl

theorem Message.delivered_fragment {r : Registry D} (hreach : r.Reachable) {whole m : Message D}
    {layer : HeaderId} {tag : FragmentTag} {window : Window}
    (h : (whole.fragment layer tag window).delivered r = some m) :
    m = (whole.fragment layer tag window).norm := by
  cases hencode : (whole.fragment layer tag window).encode with
  | error error =>
    unfold delivered at h
    rw [hencode] at h
    cases h
  | ok w =>
    rw [delivered_of_encode_fragment hreach hencode] at h
    exact (Option.some.inj h).symm

/-- A fragment that can be encoded arrives with a window. -/
theorem Message.receivedWindow_of_encode_fragment {whole : Message D} {layer : HeaderId}
    {tag : FragmentTag} {window : Window} {w : Bytes}
    (hencode : (whole.fragment layer tag window).encode = .ok w) :
    (whole.fragment layer tag window).norm.receivedWindow
      = .ok (whole.emit.window window).bytes := by
  rcases encode_eq_ok.mp hencode with ⟨-, hemit⟩
  rcases Emission.result_append_eq_ok.mp hemit with ⟨-, t, -, ht, -⟩
  rcases Emission.result_append_eq_ok.mp ht with ⟨-, v, -, hv, -⟩
  rcases Emission.result_append_eq_ok.mp hv with ⟨-, cut, -, hcut, -⟩
  have hnorm : (whole.fragment layer tag window).norm
      = .mk (whole.fragment layer tag window).envelope (.received (View.whole cut)) := by
    simp only [fragment, norm, Body.norm, envelope, hcut]
  rw [(Emission.result_eq_ok.mp hcut).2, hnorm]
  simp only [receivedWindow, body, View.data_whole]

/-- The fragments of a batch that arrive, in the order of the batch. -/
def Batch.delivered (r : Registry D) (b : Batch D) : List (Message D) :=
  b.fragments.filterMap (Message.delivered r)

/-- Whether every fragment of a batch can be encoded. -/
def Batch.Encodable (b : Batch D) : Prop :=
  ∀ fragment ∈ b.fragments, ∃ w, fragment.encode = .ok w

/-- The fragments with the number of a batch among those that arrived, each place once, in the order
of the places. -/
def collect (layer : HeaderId) (id : UInt64) (arrived : List (Message D)) : List (Message D) :=
  let own := arrived.filter fun m => (m.tag? layer).any (·.id = id)
  let once := own.pwFilter fun m m' => m.place layer ≠ m'.place layer
  once.mergeSort fun m m' => m.place layer ≤ m'.place layer

section Collect

variable {layer : HeaderId} {id : UInt64} {arrived : List (Message D)}

/-- What is collected has arrived, and has the number. -/
theorem mem_of_mem_collect {m : Message D} (h : m ∈ collect layer id arrived) :
    m ∈ arrived ∧ ∃ tag, m.tag? layer = some tag ∧ tag.id = id := by
  unfold collect at h
  rw [List.mem_mergeSort] at h
  have hown := List.pwFilter_subset _ h
  rw [List.mem_filter] at hown
  refine ⟨hown.1, ?_⟩
  cases htag : m.tag? layer with
  | none => simp [htag] at hown
  | some tag => exact ⟨tag, rfl, by simpa [htag] using hown.2⟩

/-- Of every fragment that has arrived and has the number, one in its place is collected. -/
theorem exists_mem_collect {m : Message D} (hmem : m ∈ arrived) {tag : FragmentTag}
    (htag : m.tag? layer = some tag) (hid : tag.id = id) :
    ∃ m' ∈ collect layer id arrived, m'.place layer = m.place layer := by
  let own := arrived.filter fun m => (m.tag? layer).any (·.id = id)
  have hown : m ∈ own := List.mem_filter.mpr ⟨hmem, by simp [htag, hid]⟩
  have hsplit : ∀ {x y z : Message D}, x.place layer ≠ z.place layer →
      x.place layer ≠ y.place layer ∨ y.place layer ≠ z.place layer := by
    intro x y z hne
    by_cases h : x.place layer = y.place layer
    · exact Or.inr (h ▸ hne)
    · exact Or.inl h
  -- If no fragment in that place were kept, this one would have been.
  by_contra hnone
  have hkept : ∀ m' ∈ own.pwFilter fun m m' => m.place layer ≠ m'.place layer,
      m.place layer ≠ m'.place layer := by
    intro m' hmem' hplace
    exact hnone ⟨m', List.mem_mergeSort.mpr hmem', hplace.symm⟩
  exact (List.forall_mem_pwFilter (R := fun m m' : Message D => m.place layer ≠ m'.place layer)
    hsplit m own).mp hkept m hown rfl

/-- What is collected is in the order of the places, and no place occurs twice. -/
theorem pairwise_collect :
    (collect layer id arrived).Pairwise fun m m' => m.place layer < m'.place layer := by
  let once := (arrived.filter fun m => (m.tag? layer).any (·.id = id)).pwFilter
    fun m m' => m.place layer ≠ m'.place layer
  have hordered : (collect layer id arrived).Pairwise fun m m' =>
      decide (m.place layer ≤ m'.place layer) = true :=
    List.pairwise_mergeSort (fun _ _ _ => by simpa using Nat.le_trans)
      (fun _ _ => by simpa using Nat.le_total _ _) once
  have honce : (collect layer id arrived).Pairwise fun m m' => m.place layer ≠ m'.place layer :=
    (List.mergeSort_perm once _).symm.pairwise (List.pairwise_pwFilter _) Ne.symm
  exact (hordered.and honce).imp fun h => Nat.lt_of_le_of_ne (of_decide_eq_true h.1) h.2

/-- Fragments in the order of their places are collected if they are those with the number that
arrived, in whatever order and however often. -/
theorem collect_eq_of_mem_iff {ms : List (Message D)}
    (hordered : ms.Pairwise fun m m' => m.place layer < m'.place layer)
    (hmem : ∀ m, m ∈ ms ↔ m ∈ arrived ∧ ∃ tag, m.tag? layer = some tag ∧ tag.id = id) :
    collect layer id arrived = ms := by
  have hplaces : (ms.map (Message.place layer)).Nodup :=
    List.pairwise_map.mpr (hordered.imp Nat.ne_of_lt)
  have hirrefl : Std.Irrefl fun m m' : Message D => m.place layer < m'.place layer :=
    ⟨fun _ => Nat.lt_irrefl _⟩
  have hantisymm : Std.Antisymm fun m m' : Message D => m.place layer < m'.place layer :=
    ⟨fun _ _ h h' => absurd h (Nat.lt_asymm h')⟩
  refine List.Pairwise.eq_of_mem_iff pairwise_collect hordered fun m => ⟨?_, ?_⟩
  · exact fun h => (hmem m).mpr (mem_of_mem_collect h)
  · intro h
    rcases (hmem m).mp h with ⟨harrived, tag, htag, hid⟩
    rcases exists_mem_collect harrived htag hid with ⟨m', hcollected, hplace⟩
    -- Of fragments in the same place there is one only.
    obtain rfl : m' = m := List.inj_on_of_nodup_map hplaces
      ((hmem m').mpr (mem_of_mem_collect hcollected)) h hplace
    exact hcollected

end Collect

/-! ## What arrives of a batch -/

namespace Fragmenter

/-- The fragments of a batch are numbered through, and their tags count them right. -/
theorem fragments_of_call {f : Fragmenter} {c : Call D} {b : Batch D}
    (h : (f.call c).1 = .ok b) : b.id = f.next ∧ ∃ (m : Message D) (windows : List Window),
      windows.length < UInt32.size ∧
        b.fragments = windows.zipIdx.map (f.fragmentAt m windows.length) := by
  cases c with
  | split m =>
    rcases of_split_eq_ok h with ⟨hid, windows, hwindows, hfragments⟩
    rcases of_windows_eq_ok hwindows with ⟨size, -, hcount, rfl⟩
    refine ⟨hid, m, _, ?_, hfragments⟩
    rwa [Window.length_tile]
  | allocate =>
    cases h
    exact ⟨rfl, default, [], by decide, rfl⟩

section Delivered

variable {f : Fragmenter} {c : Call D} {b : Batch D} (hcall : (f.call c).1 = .ok b)
  {r : Registry D} (hreach : r.Reachable)

include hcall hreach

/-- A fragment that arrives still has the tag that it was given. -/
theorem tag?_of_mem_delivered {m : Message D} (hm : m ∈ b.delivered r) :
    ∃ tag, m.tag? f.config.layer = some tag ∧ tag.id = b.id ∧
      tag.count.toNat = b.fragments.length := by
  rcases fragments_of_call hcall with ⟨hid, whole, windows, hcount, hfragments⟩
  rcases List.mem_filterMap.mp hm with ⟨fragment, hfragment, hdelivered⟩
  rw [hfragments] at hfragment
  rcases List.mem_map.mp hfragment with ⟨place, -, rfl⟩
  refine ⟨⟨f.next, UInt32.ofNat place.2, UInt32.ofNat windows.length, true⟩, ?_, hid.symm, ?_⟩
  · rw [Message.delivered_fragment hreach hdelivered]
    exact Message.tag?_fragment _ _ _ _
  · rw [hfragments, List.length_map, List.length_zipIdx, UInt32.toNat_ofNat_of_lt' hcount]

/-- The fragments that arrive are in the order of their places. -/
theorem pairwise_delivered :
    (b.delivered r).Pairwise fun m m' => m.place f.config.layer < m'.place f.config.layer := by
  rcases fragments_of_call hcall with ⟨hid, whole, windows, hcount, hfragments⟩
  have hplace : ∀ place ∈ windows.zipIdx, ∀ m,
      (f.fragmentAt whole windows.length place).delivered r = some m →
        m.place f.config.layer = place.2 := by
    intro place hplace m hdelivered
    have hlt : place.2 < UInt32.size :=
      Nat.lt_trans (by simpa using List.snd_lt_of_mem_zipIdx hplace) hcount
    have htag : m.tag? f.config.layer
        = some ⟨f.next, UInt32.ofNat place.2, UInt32.ofNat windows.length, true⟩ := by
      rw [Message.delivered_fragment hreach hdelivered]
      exact Message.tag?_fragment _ _ _ _
    rw [Message.place, htag]
    exact UInt32.toNat_ofNat_of_lt' hlt
  have hordered : windows.zipIdx.Pairwise fun place place' => place.2 < place'.2 := by
    rw [← List.pairwise_map, List.zipIdx_map_snd]
    exact List.pairwise_lt_range'
  unfold Batch.delivered
  rw [hfragments, List.pairwise_filterMap, List.pairwise_map]
  refine List.Pairwise.imp_of_mem ?_ hordered
  intro place place' hmem hmem' hlt m hdelivered m' hdelivered'
  rwa [hplace place hmem m hdelivered, hplace place' hmem' m' hdelivered']

end Delivered

/-- If all fragments of a batch can be encoded, all arrive, in normal form. -/
theorem map_delivered_eq {r : Registry D} (hreach : r.Reachable) {f : Fragmenter} {b : Batch D}
    {m : Message D} {count : Nat} {places : List (Window × Nat)}
    (hfragments : b.fragments = places.map (f.fragmentAt m count))
    (hencodes : ∀ place ∈ places, ∃ w, (f.fragmentAt m count place).encode = .ok w) :
    b.fragments.map (Message.delivered r) = (b.delivered r).map some ∧
      b.delivered r = places.map fun place => (f.fragmentAt m count place).norm := by
  have harrives : ∀ place ∈ places, (f.fragmentAt m count place).delivered r
      = some (f.fragmentAt m count place).norm := by
    intro place hplace
    rcases hencodes place hplace with ⟨w, hencode⟩
    exact Message.delivered_of_encode_fragment hreach hencode
  have hdelivered : b.delivered r = places.map fun place => (f.fragmentAt m count place).norm := by
    unfold Batch.delivered
    rw [hfragments, List.filterMap_map, ← List.filterMap_eq_map]
    exact List.filterMap_congr harrives
  refine ⟨?_, hdelivered⟩
  rw [hdelivered, hfragments, List.map_map, List.map_map]
  exact List.map_congr_left harrives

/-- If all fragments of a batch can be encoded, all arrive, each with a window. -/
theorem delivered_of_encodable {f : Fragmenter} {c : Call D} {b : Batch D}
    (hcall : (f.call c).1 = .ok b) (hencodable : b.Encodable) {r : Registry D}
    (hreach : r.Reachable) :
    b.fragments.map (Message.delivered r) = (b.delivered r).map some ∧
      ∃ windows, (b.delivered r).mapM Message.receivedWindow = .ok windows := by
  rcases fragments_of_call hcall with ⟨-, whole, windows, -, hfragments⟩
  have hencodes : ∀ place ∈ windows.zipIdx,
      ∃ w, (f.fragmentAt whole windows.length place).encode = .ok w := by
    intro place hplace
    apply hencodable
    rw [hfragments]
    exact List.mem_map_of_mem hplace
  rcases map_delivered_eq hreach hfragments hencodes with ⟨hall, hdelivered⟩
  refine ⟨hall, windows.zipIdx.map fun place => (whole.emit.window place.1).bytes, ?_⟩
  rw [hdelivered, List.mapM_map]
  apply mapM_eq_ok
  intro place hplace
  rcases hencodes place hplace with ⟨w, hencode⟩
  exact Message.receivedWindow_of_encode_fragment hencode

/-- A batch is of the windows of the encoding, if the message can be encoded. -/
theorem fragments_of_split {f : Fragmenter} {m : Message D} {b : Batch D} {w : Bytes}
    (hkeeps : m.KeepsSize) (hemit : m.emit.result = .ok w) (hsplit : (f.split m).1 = .ok b) :
    Window.count w.length f.config.windowLength < UInt32.size ∧
      b.fragments = (f.tiles w).zipIdx.map (f.fragmentAt m (f.tiles w).length) := by
  by_cases hcount : Window.count w.length f.config.windowLength < UInt32.size
  · rw [split_eq_ok hkeeps hemit hcount] at hsplit
    cases hsplit
    exact ⟨hcount, rfl⟩
  · -- A message of too many windows is not split.
    have hwindows : f.windows m
        = .error (.tooManyFragments (Window.count w.length f.config.windowLength)) := by
      unfold windows
      rw [Message.sizeExact m hkeeps w hemit]
      exact if_neg hcount
    unfold split at hsplit
    rw [hwindows] at hsplit
    cases hsplit

/-- All fragments of a message that can be encoded can be, and those that arrive hold the windows of
its encoding. -/
theorem encodable_of_split {f : Fragmenter} {m : Message D} {b : Batch D} {w : Bytes}
    (hkeeps : m.KeepsSize) (hencode : m.encode = .ok w)
    (hlength : f.config.windowLength ≤ Emission.maxLength) (hsplit : (f.split m).1 = .ok b) :
    b.Encodable ∧ ∀ r : Registry D, r.Reachable → ∃ windows,
      (b.delivered r).mapM Message.receivedWindow = .ok windows ∧ windows.flatten = w := by
  rcases Message.encode_eq_ok.mp hencode with ⟨-, hemit⟩
  rcases fragments_of_split hkeeps hemit hsplit with ⟨hcount, hfragments⟩
  have hposition : w.length ≤ maxPosition :=
    Window.le_maxPosition_of_count f.config.windowLength_pos hlength hcount
  let fragment : Window × Nat → Message D := f.fragmentAt m (f.tiles w).length
  have hencodes : ∀ place ∈ (f.tiles w).zipIdx,
      ∃ w, (fragment place).encode = .ok w := by
    intro place hplace
    rcases length_le_of_mem_tiles hplace with ⟨hmost, hinside⟩
    exact ⟨_, Message.encode_fragment hemit hinside hposition _ _ (Nat.le_trans hmost hlength)⟩
  refine ⟨?_, fun r hreach => ⟨(f.tiles w).zipIdx.map fun place => place.1.cut w, ?_,
    f.flatten_cut_tiles w⟩⟩
  · intro part hpart
    rw [hfragments] at hpart
    rcases List.mem_map.mp hpart with ⟨place, hplace, rfl⟩
    exact hencodes place hplace
  · rw [(map_delivered_eq hreach hfragments hencodes).2, List.mapM_map]
    apply mapM_eq_ok
    intro place hplace
    have hnorm : (fragment place).norm
        = .mk (fragment place).envelope (.received (View.whole (place.1.cut w))) :=
      Message.norm_fragment hemit (length_le_of_mem_tiles hplace).2 hposition _ _
    show (fragment place).norm.receivedWindow = _
    simp only [hnorm, Message.receivedWindow, Message.body, View.data_whole]

/-! ## What arrives of a run -/

/-- Every fragment of a run that arrives. -/
def delivered (f : Fragmenter) (r : Registry D) (calls : List (Call D)) : List (Message D) :=
  (f.batches calls).flatMap (Batch.delivered r)

section Run

variable {f : Fragmenter} {calls : List (Call D)}
  (hcount : (f.batches calls).length ≤ UInt64.size) {r : Registry D} (hreach : r.Reachable)

include hreach

/-- What arrives of a run has a tag, with the number of its batch. -/
theorem tag?_of_mem_batches {b : Batch D} (hb : b ∈ f.batches calls) {m : Message D}
    (hm : m ∈ b.delivered r) : ∃ tag, m.tag? f.config.layer = some tag ∧ tag.id = b.id ∧
      tag.count.toNat = b.fragments.length := by
  rcases mem_batches.mp hb with ⟨c, hanswer⟩
  rcases exists_call_of_mem_run hanswer with ⟨g, hconfig, hcall⟩
  rw [← hconfig]
  exact tag?_of_mem_delivered hcall hreach hm

/-- No two fragments of a batch have the same label. -/
theorem nodup_label?_delivered {b : Batch D} (hb : b ∈ f.batches calls) :
    ((b.delivered r).map (Message.label? f.config.layer)).Nodup := by
  rcases mem_batches.mp hb with ⟨c, hanswer⟩
  rcases exists_call_of_mem_run hanswer with ⟨g, hconfig, hcall⟩
  have hordered := pairwise_delivered hcall hreach
  rw [hconfig] at hordered
  refine List.pairwise_map.mpr (hordered.imp fun hlt hlabel => ?_)
  exact absurd (Message.place_eq_of_label?_eq hlabel) (Nat.ne_of_lt hlt)

include hcount

/-- No two fragments of a run have the same label. -/
theorem nodup_label?_run :
    ((f.delivered r calls).map (Message.label? f.config.layer)).Nodup := by
  unfold delivered
  rw [List.map_flatMap, List.nodup_flatMap]
  refine ⟨fun b hb => nodup_label?_delivered hreach hb, ?_⟩
  have hids : (f.batches calls).Pairwise fun b b' => b.id ≠ b'.id :=
    List.pairwise_map.mp (nodup_map_id_batches hcount)
  refine List.Pairwise.imp_of_mem ?_ hids
  intro b b' hb hb' hne label hlabel hlabel'
  -- A label in two batches would have the numbers of both.
  rcases List.mem_map.mp hlabel with ⟨m, hm, rfl⟩
  rcases List.mem_map.mp hlabel' with ⟨m', hm', hsame⟩
  rcases tag?_of_mem_batches hreach hb hm with ⟨tag, htag, hid, -⟩
  rcases tag?_of_mem_batches hreach hb' hm' with ⟨tag', htag', hid', -⟩
  simp only [Message.label?, htag, htag', Option.map_some, Option.some.injEq, Prod.mk.injEq]
    at hsame
  exact hne (hid.symm.trans (hsame.1.symm.trans hid'))

/-- The fragments that arrive of a batch are those that arrive of the run and have its number. -/
theorem mem_delivered_iff {b : Batch D} (hb : b ∈ f.batches calls) {m : Message D} :
    m ∈ b.delivered r ↔ m ∈ f.delivered r calls ∧
      ∃ tag, m.tag? f.config.layer = some tag ∧ tag.id = b.id := by
  constructor
  · intro hm
    rcases tag?_of_mem_batches hreach hb hm with ⟨tag, htag, hid, -⟩
    exact ⟨List.mem_flatMap.mpr ⟨b, hb, hm⟩, tag, htag, hid⟩
  · rintro ⟨hm, tag, htag, hid⟩
    rcases List.mem_flatMap.mp hm with ⟨b', hb', hm'⟩
    rcases tag?_of_mem_batches hreach hb' hm' with ⟨tag', htag', hid', -⟩
    obtain rfl : tag = tag' := Option.some.inj (htag.symm.trans htag')
    -- Of batches with the same number there is one only.
    obtain rfl : b' = b := List.inj_on_of_nodup_map (nodup_map_id_batches hcount) hb' hb
      (hid'.symm.trans hid)
    exact hm'

end Run

/-- Fragments tell for themselves where they belong. Whatever a fragmenter is asked for, the numbers
that it gives away are consecutive, and a message that cannot be split takes none. Every fragment
that arrives has a tag, and no two of them have the same number and place, if no more numbers are
given away than there are. So however the fragments that arrive are shuffled and repeated, those
with the number of a batch, each once and in the order of their places, are the fragments of that
batch, and as many as each of them says. All fragments of a message arrive if the message can be
encoded, and then they hold its encoding. -/
theorem collect_run {f : Fragmenter} {calls : List (Call D)}
    (hcount : (f.batches calls).length ≤ UInt64.size) {r : Registry D} (hreach : r.Reachable) :
    (∀ k b, (f.batches calls)[k]? = some b → b.id.toNat = (f.next.toNat + k) % UInt64.size) ∧
    (∀ (g : Fragmenter) (m : Message D) error, (g.split m).1 = .error error → (g.split m).2 = g) ∧
    (∀ m ∈ f.delivered r calls, ∃ tag, m.tag? f.config.layer = some tag) ∧
    ((f.delivered r calls).map (Message.label? f.config.layer)).Nodup ∧
    ∀ arrived, (∀ m, m ∈ arrived ↔ m ∈ f.delivered r calls) →
      ∀ whole b, (.split whole, .ok b) ∈ calls.zip (f.run calls) →
        collect f.config.layer b.id arrived = b.delivered r ∧
        (b.Encodable → b.fragments.map (Message.delivered r) = (b.delivered r).map some ∧
          (∃ windows, (b.delivered r).mapM Message.receivedWindow = .ok windows) ∧
          ∀ m ∈ b.delivered r, ∃ tag, m.tag? f.config.layer = some tag ∧
            tag.count.toNat = (b.delivered r).length) ∧
        (whole.KeepsSize → ∀ w, whole.encode = .ok w →
          f.config.windowLength ≤ Emission.maxLength → b.Encodable ∧ ∃ windows,
            (b.delivered r).mapM Message.receivedWindow = .ok windows ∧ windows.flatten = w) := by
  refine ⟨fun k b => toNat_id_of_getElem?, fun g m error => split_of_error, ?_,
    nodup_label?_run hcount hreach, ?_⟩
  · intro m hm
    rcases List.mem_flatMap.mp hm with ⟨b, hb, hm⟩
    rcases tag?_of_mem_batches hreach hb hm with ⟨tag, htag, -, -⟩
    exact ⟨tag, htag⟩
  · intro arrived harrived whole b hanswer
    have hb : b ∈ f.batches calls := mem_batches.mpr ⟨_, hanswer⟩
    rcases exists_call_of_mem_run hanswer with ⟨g, hconfig, hcall⟩
    have hordered := pairwise_delivered hcall hreach
    rw [hconfig] at hordered
    have hcollect : collect f.config.layer b.id arrived = b.delivered r := by
      refine collect_eq_of_mem_iff hordered fun m => ?_
      rw [harrived]
      exact mem_delivered_iff hcount hreach hb
    refine ⟨hcollect, fun hencodable => ?_, fun hkeeps w hencode hlength => ?_⟩
    · rcases delivered_of_encodable hcall hencodable hreach with ⟨hall, hwindows⟩
      refine ⟨hall, hwindows, fun m hm => ?_⟩
      rcases tag?_of_mem_batches hreach hb hm with ⟨tag, htag, -, hnumber⟩
      have hlengths := congrArg List.length hall
      rw [List.length_map, List.length_map] at hlengths
      exact ⟨tag, htag, hnumber.trans hlengths⟩
    · rw [← hconfig] at hlength
      rcases encodable_of_split hkeeps hencode hlength hcall with ⟨hencodable, hwindows⟩
      exact ⟨hencodable, hwindows r hreach⟩

/-- Windows of 20 bytes, and one number left before they wrap around. -/
def wrapping : Fragmenter :=
  startingAt ⟨20, 36, by decide⟩ (-1)

/-- Calls of all kinds: a message, a number, a message that cannot be split,
and the first message again. -/
def sampleCalls : List (Call Catalogue.dialect) :=
  [.split Catalogue.sample, .allocate, .split (.ofBody (.serializable (some (.object
    (.refusing "no"))))), .split Catalogue.sample]

/-- The second batch of a message, after the numbers have wrapped around, from fragments that arrive
in the opposite order and then once more. -/
theorem collect_run_sample : ∃ b windows,
    (.split Catalogue.sample, .ok b) ∈ sampleCalls.zip (wrapping.run sampleCalls) ∧ b.id = 1 ∧
    (collect 36 b.id ((wrapping.delivered Catalogue.registry sampleCalls).reverse ++
      wrapping.delivered Catalogue.registry sampleCalls)).mapM Message.receivedWindow
        = .ok windows ∧
    Catalogue.sample.encode = .ok windows.flatten := by
  have hthree : (wrapping.batches sampleCalls).length = 3 := rfl
  have hcount : (wrapping.batches sampleCalls).length ≤ UInt64.size := by
    rw [hthree]
    decide
  obtain ⟨-, -, -, -, hcollect⟩ := collect_run hcount Catalogue.registry_reachable
  obtain ⟨b, hid, hmem⟩ : ∃ b : Batch Catalogue.dialect, b.id = 1 ∧
      (.split Catalogue.sample, .ok b) ∈ sampleCalls.zip (wrapping.run sampleCalls) :=
    ⟨_, rfl, List.mem_iff_getElem?.mpr ⟨3, rfl⟩⟩
  have harrived : ∀ {ms : List (Message Catalogue.dialect)} m, m ∈ ms.reverse ++ ms ↔ m ∈ ms := by
    intro ms m
    rw [List.mem_append, List.mem_reverse, or_self]
  obtain ⟨hcollect, -, hwindows⟩ := hcollect _ harrived Catalogue.sample b hmem
  obtain ⟨-, windows, hwindows, hflatten⟩ :=
    hwindows Catalogue.sample_keepsSize _ Catalogue.encode_sample (by decide)
  refine ⟨b, windows, hmem, hid, ?_, ?_⟩
  · exact hcollect ▸ hwindows
  · rw [hflatten]
    exact Catalogue.encode_sample

end Fragmenter

end Groupcast
