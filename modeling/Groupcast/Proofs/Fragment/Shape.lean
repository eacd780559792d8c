import Mathlib.Algebra.Order.Floor.Div
import Groupcast.Fragment.Steps
import Groupcast.Proofs.Fragment.Lossless
import Groupcast.Proofs.Message.Tally

/-!
# The shape of a batch

A message whose encoding takes `total` bytes is split into `total ⌈/⌉ most` fragments when windows
have at most `most` bytes. The `k`-th of them shows the bytes from `k * most` on, and its tag says
so. The loops that make the fragments keep this up with three quantities of their own: the position
of the window, what remains, and the place of the fragment. They start from what the message adds
up, which is its size if that is a word.
-/

namespace Groupcast

variable {D : Dialect}

/-! ## Windows -/

namespace Window

/-- The number of windows is a quotient rounded up. -/
theorem count_eq_ceilDiv (total most : Nat) : count total most = total ⌈/⌉ most :=
  (Nat.ceilDiv_eq_add_pred_div total most).symm

theorem count_le_iff {total most n : Nat} (hmost : 0 < most) :
    count total most ≤ n ↔ total ≤ most * n := by
  rw [count_eq_ceilDiv]
  exact ceilDiv_le_iff_le_mul hmost

/-- Fewer positions have no more windows. -/
theorem count_mono {total total' most : Nat} (hmost : 0 < most) (h : total ≤ total') :
    count total most ≤ count total' most := by
  have hcovers : total' ≤ most * count total' most := (count_le_iff hmost).mp (Nat.le_refl _)
  exact (count_le_iff hmost).mpr (Nat.le_trans h hcovers)

/-- Where there is anything, there is a window. -/
theorem count_pos {total most : Nat} (hmost : 0 < most) (htotal : 0 < total) :
    0 < count total most := by
  refine Nat.pos_of_ne_zero fun hnone => ?_
  have hle := (count_le_iff hmost).mp (Nat.le_of_eq hnone)
  omega

/-- There is more than one window exactly if one is too short. -/
theorem one_lt_count_iff {total most : Nat} (hmost : 0 < most) :
    1 < count total most ↔ most < total := by
  rw [← Nat.not_le, ← Nat.not_le, count_le_iff hmost, Nat.mul_one]

theorem count_zero {most : Nat} (hmost : 0 < most) : count 0 most = 0 :=
  Nat.le_zero.mp ((count_le_iff hmost).mpr (Nat.zero_le _))

/-- The first window leaves one fewer. -/
theorem count_sub {total most : Nat} (hmost : 0 < most) (htotal : 0 < total) :
    count total most = count (total - min total most) most + 1 := by
  have hless : ∀ n, count total most ≤ n + 1 ↔ count (total - min total most) most ≤ n := by
    intro n
    rw [count_le_iff hmost, count_le_iff hmost, Nat.mul_succ]
    omega
  have hpos := count_pos hmost htotal
  have hle := (hless (count (total - min total most) most)).mpr (Nat.le_refl _)
  have hge := (hless (count total most - 1)).mp (by omega)
  omega

/-- A tiling starts with the first window and goes on with a tiling of what remains. -/
theorem tile_eq_cons {base total most : Nat} (hmost : 0 < most) (htotal : 0 < total) :
    tile base total most =
      ⟨base, min total most⟩ ::
        tile (base + min total most) (total - min total most) most := by
  unfold tile
  rw [count_sub hmost htotal, List.range_succ_eq_map, List.map_cons, List.map_map, Nat.zero_mul,
    Nat.add_zero, Nat.sub_zero, Nat.min_comm most total]
  congr 1
  refine List.map_congr_left fun i hi => ?_
  -- A window after the first starts a whole window later.
  have hbefore := mul_lt_of_lt_count (List.mem_range.mp hi)
  have hstep : (i + 1) * most = most + i * most := by rw [Nat.succ_mul, Nat.add_comm]
  have hfull : min total most = most := by omega
  simp only [Function.comp, hstep, hfull, Nat.add_assoc, Nat.sub_sub]

/-- The loop plans a tiling if its last position is a word. Induction on what remains. -/
theorem planFrom_eq_tile (build : Build) {most : Nat} (hmost : 0 < most) {position remaining : Nat}
    (hwords : position + remaining < UInt64.size) :
    planFrom build hmost position remaining = .ok (tile position remaining most) := by
  induction remaining using Nat.strongRecOn generalizing position with
  | ind remaining ih =>
    rw [planFrom]
    split
    case isTrue hdone =>
      subst hdone
      simp [tile, count_zero hmost]
    case isFalse hremains =>
      have hpos : 0 < remaining := Nat.pos_of_ne_zero hremains
      have hafter : build.word (position + min remaining most)
          = .ok (position + min remaining most) := build.word_of_lt (by omega)
      have hothers : planFrom build hmost (position + min remaining most)
            (remaining - min remaining most)
          = .ok (tile (position + min remaining most) (remaining - min remaining most) most) :=
        ih (remaining - min remaining most) (by omega) (by omega)
      simp only [hafter, tile_eq_cons hmost hpos]
      show (do
        let others ← planFrom build hmost (position + min remaining most)
          (remaining - min remaining most)
        return (⟨position, min remaining most⟩ : Window) :: others) = _
      rw [hothers]
      rfl

/-- There can be room for 2 ^ 59 - 1 windows. -/
theorem footprints_le_iff {n : Nat} : n * footprint ≤ maxRoom ↔ n < 2 ^ 59 := by
  unfold footprint maxRoom
  omega

/-- Windows are planned as a tiling if the last position is a word and there is room for them. -/
theorem plan_eq_tile (build : Build) {most : Nat} (hmost : 0 < most) {base total : Nat}
    (hwords : base + total < UInt64.size) (hroom : count total most < 2 ^ 59) :
    plan build hmost base total = .ok (tile base total most) := by
  rw [plan, makeRoom_of_le (footprints_le_iff.mpr hroom)]
  exact planFrom_eq_tile build hmost hwords

theorem plan_of_no_room (build : Build) {most : Nat} (hmost : 0 < most) {base total : Nat}
    (hroom : 2 ^ 59 ≤ count total most) : plan build hmost base total = .error .noRoom := by
  have hlarge : maxRoom < count total most * footprint := by
    rw [← Nat.not_le, footprints_le_iff, Nat.not_lt]
    exact hroom
  rw [plan, makeRoom_of_lt hlarge]
  rfl

/-- The window in a place. -/
theorem getElem?_tile {total most k : Nat} (hk : k < count total most) :
    (tile 0 total most)[k]? = some ⟨k * most, min most (total - k * most)⟩ := by
  simp [tile, hk]

/-- A window ends where the next one would start, or with the whole. -/
theorem stop_tile {total most k : Nat} (hk : k < count total most) :
    (⟨k * most, min most (total - k * most)⟩ : Window).stop = min ((k + 1) * most) total := by
  have hlt := mul_lt_of_lt_count hk
  rw [Nat.succ_mul]
  show k * most + min most (total - k * most) = min (k * most + most) total
  omega

end Window

/-! ## Places -/

namespace FragmentTag

/-- There is a place after each that is counted. -/
theorem nextIndex?_of_lt {place : UInt32} {count : Nat} (hplace : place.toNat < count)
    (hcount : count < UInt32.size) :
    nextIndex? place = some (place + 1) ∧ (place + 1).toNat = place.toNat + 1 := by
  have hnext : place.toNat + 1 < UInt32.size := by omega
  refine ⟨if_pos hnext, ?_⟩
  rw [UInt32.toNat_add, UInt32.toNat_one]
  exact Nat.mod_eq_of_lt hnext

/-- The last of the places counted is the last one. -/
theorem isLast_iff {tag : FragmentTag} (hindex : tag.index.toNat < tag.count.toNat) :
    tag.isLast = true ↔ tag.index.toNat + 1 = tag.count.toNat := by
  have hcount : tag.count.toNat < UInt32.size := tag.count.toNat_lt
  rw [isLast, decide_eq_true_iff]
  omega

end FragmentTag

/-! ## Batches -/

/-- An encoding has its kind byte at least. -/
theorem Message.encodedSize_pos {m : Message D} {total : Nat} (h : m.encodedSize = .ok total) :
    0 < total := by
  obtain ⟨size, -, rfl⟩ := encodedSize_eq_ok.mp h
  omega

/-- What is in place `k` of the `n` fragments of a message whose encoding takes `total` bytes. It
shows the bytes from `k` windows on, its only header says so, and the rest of its envelope is that
of the message, without transient flags. -/
structure Message.IsPart (f : Fragmenter) (whole : Message D) (total n k : Nat)
    (part : Message D) : Prop where
  shows : ∃ window, part.body = .excerpt whole window ∧
    window.offset = k * f.config.windowLength ∧
    window.stop = min ((k + 1) * f.config.windowLength) total
  tagged : ∃ tag : FragmentTag, part.envelope.headers.entries = [(f.config.layer, .tag tag)] ∧
    tag.id = f.next ∧ tag.index.toNat = k ∧ tag.count.toNat = n ∧ tag.needsDecoding = true ∧
    (tag.isLast = true ↔ k + 1 = n) ∧ (FragmentTag.nextIndex? tag.index).isSome
  dest : part.envelope.dest = whole.envelope.dest
  src : part.envelope.src = whole.envelope.src
  flags : part.envelope.flags = whole.envelope.flags
  transient : part.envelope.transient = FlagSet.empty

namespace Fragmenter

/-- The loop over the windows puts each fragment in the place after the one before. No place is past
the last one a tag can name, since the windows are counted in a tag as well. Induction on the
windows. -/
theorem fragmentsFrom_eq (f : Fragmenter) (m : Message D) {count : Nat}
    (hcount : count < UInt32.size) {place : UInt32} {windows : List Window}
    (hplace : place.toNat + windows.length ≤ count) :
    f.fragmentsFrom f.next m count place windows
      = .ok ((windows.zipIdx place.toNat).map (f.fragmentAt m count)) := by
  induction windows generalizing place with
  | nil => rfl
  | cons window windows ih =>
    rw [List.length_cons] at hplace
    have hcounted : place.toNat < count := by omega
    obtain ⟨hnext, htoNat⟩ := FragmentTag.nextIndex?_of_lt hcounted hcount
    have hleft : (place + 1).toNat + windows.length ≤ count := by omega
    have hothers := ih hleft
    rw [htoNat] at hothers
    have hfirst : f.fragmentAt m count (window, place.toNat)
        = m.fragment f.config.layer ⟨f.next, place, UInt32.ofNat count, true⟩ window := by
      rw [fragmentAt, UInt32.ofNat_toNat]
    rw [List.zipIdx_cons, List.map_cons, hfirst, fragmentsFrom, hnext]
    simp only [hothers]
    rfl

variable {f : Fragmenter} {m : Message D} {total : Nat}

/-- A message whose windows can be counted is split into a fragment for each of them. -/
theorem split_of_encodedSize (hsize : m.encodedSize = .ok total)
    (hcount : Window.count total f.config.windowLength < UInt32.size) :
    f.split m =
      (.ok ⟨f.next, f.fragments f.next m (Window.tile 0 total f.config.windowLength)⟩,
        f.allocate.2) := by
  have hwindows : f.windows m = .ok (Window.tile 0 total f.config.windowLength) := by
    unfold windows
    simp only [hsize, hcount, if_true]
  simp only [split, hwindows]
  rfl

/-- A message whose windows cannot be counted is refused. -/
theorem split_of_tooMany (hsize : m.encodedSize = .ok total)
    (hcount : ¬ Window.count total f.config.windowLength < UInt32.size) :
    f.split m = (.error (.tooManyFragments (Window.count total f.config.windowLength)), f) := by
  have hwindows : f.windows m
      = .error (.tooManyFragments (Window.count total f.config.windowLength)) := by
    unfold windows
    simp only [hsize, hcount, if_false]
  simp only [split, hwindows]

/-- There is a fragment for each window. -/
theorem length_fragments (n : Nat) :
    (f.fragments f.next m (Window.tile 0 n f.config.windowLength)).length
      = Window.count n f.config.windowLength := by
  rw [fragments, List.length_mapIdx, Window.length_tile]

/-- The tag of place `k` in a batch of `n` fragments. -/
def tagAt (f : Fragmenter) (n k : Nat) : FragmentTag :=
  ⟨f.next, UInt32.ofNat k, UInt32.ofNat n, true⟩

/-- A tag names its place and the number of places, as long as there is room for them. -/
theorem toNat_tagAt {n k : Nat} (hk : k < n) (hn : n < UInt32.size) :
    (f.tagAt n k).index.toNat = k ∧ (f.tagAt n k).count.toNat = n :=
  ⟨UInt32.toNat_ofNat_of_lt (Nat.lt_trans hk hn), UInt32.toNat_ofNat_of_lt hn⟩

/-- Only the tag of the last place says that it is the last, -/
theorem isLast_tagAt {n k : Nat} (hk : k < n) (hn : n < UInt32.size) :
    (f.tagAt n k).isLast = true ↔ k + 1 = n := by
  obtain ⟨hindex, hcount⟩ := toNat_tagAt (f := f) hk hn
  have hless : (f.tagAt n k).index.toNat < (f.tagAt n k).count.toNat := by
    rw [hindex, hcount]
    exact hk
  rw [FragmentTag.isLast_iff hless, hindex, hcount]

/-- and even after the last place there is one more that could be counted. -/
theorem nextIndex?_tagAt {n k : Nat} (hk : k < n) (hn : n < UInt32.size) :
    FragmentTag.nextIndex? (f.tagAt n k).index = some ((f.tagAt n k).index + 1) := by
  have hless : (f.tagAt n k).index.toNat < n := by
    rw [(toNat_tagAt hk hn).1]
    exact hk
  exact (FragmentTag.nextIndex?_of_lt hless hn).1

/-- The fragment in a place of a batch has the shape that goes with the place. -/
theorem isPart_fragments {k : Nat} (hk : k < Window.count total f.config.windowLength)
    (hcount : Window.count total f.config.windowLength < UInt32.size) :
    ∃ part, (f.fragments f.next m (Window.tile 0 total f.config.windowLength))[k]? = some part ∧
      Message.IsPart f m total (Window.count total f.config.windowLength) k part := by
  have hplace : (f.fragments f.next m (Window.tile 0 total f.config.windowLength))[k]?
      = some (m.fragment f.config.layer (f.tagAt (Window.count total f.config.windowLength) k)
          ⟨k * f.config.windowLength,
            min f.config.windowLength (total - k * f.config.windowLength)⟩) := by
    rw [fragments, List.getElem?_mapIdx, Window.getElem?_tile hk, Window.length_tile]
    rfl
  refine ⟨_, hplace, ?_⟩
  obtain ⟨hindex, hnumber⟩ := toNat_tagAt (f := f) hk hcount
  constructor
  case shows => exact ⟨_, rfl, rfl, Window.stop_tile hk⟩
  case tagged =>
    exact ⟨_, rfl, rfl, hindex, hnumber, rfl, isLast_tagAt hk hcount,
      Option.isSome_of_eq_some (nextIndex?_tagAt hk hcount)⟩
  case dest => rfl
  case src => rfl
  case flags => rfl
  case transient => rfl

/-- What a message adds up decides how it is split: a fragment for each window of that many bytes,
if there is room for the windows and they can be counted. Where nothing is added up, it takes an
unchecked program to make a batch. -/
theorem splitIn_of_run {build : Build} (hrun : m.encodedTally.run build = .ok (.ok total))
    (hwords : total < UInt64.size) (hroom : Window.count total f.config.windowLength < 2 ^ 59)
    (hpos : 0 < total ∨ build = .unchecked) :
    f.splitIn build m =
      if Window.count total f.config.windowLength < UInt32.size then
        (.ok (.ok ⟨f.next, f.fragments f.next m (Window.tile 0 total f.config.windowLength)⟩),
          f.allocate.2)
      else (.ok (.error (.tooManyFragments (Window.count total f.config.windowLength))), f) := by
  have hplan : Window.plan build f.config.windowLength_pos 0 total
      = .ok (Window.tile 0 total f.config.windowLength) :=
    Window.plan_eq_tile build _ (by rwa [Nat.zero_add]) hroom
  unfold splitIn
  simp only [hrun, hplan, Window.length_tile]
  by_cases hcount : Window.count total f.config.windowLength < UInt32.size
  · have hmade : f.fragmentsFrom f.next m (Window.count total f.config.windowLength) 0
        (Window.tile 0 total f.config.windowLength)
        = .ok (f.fragments f.next m (Window.tile 0 total f.config.windowLength)) := by
      rw [fragments_eq_map, Window.length_tile]
      exact f.fragmentsFrom_eq m hcount (by simp)
    have hasserted : build.assert (!(f.fragments f.next m
        (Window.tile 0 total f.config.windowLength)).isEmpty) .emptyBatch = .ok () := by
      rcases hpos with hpos | rfl
      · have hsome : (f.fragments f.next m
            (Window.tile 0 total f.config.windowLength)).isEmpty = false := by
          rw [List.isEmpty_eq_false_iff, ← List.length_pos_iff, length_fragments]
          exact Window.count_pos f.config.windowLength_pos hpos
        rw [hsome]
        exact build.assert_true _
      · rfl
    simp only [hcount, if_true, allocate, hmade, hasserted]
    rfl
  · simp only [hcount, if_false]

/-- Splitting in words, step by step, is splitting, if the size is a word and there is room for the
windows. -/
theorem splitIn_eq_split (f : Fragmenter) (build : Build) (hwords : m.encodedTally.InWords)
    (hroom : ∀ total, m.encodedSize = .ok total →
      Window.count total f.config.windowLength < 2 ^ 59) :
    f.splitIn build m = (.ok (f.split m).1, (f.split m).2) := by
  have hrun := Tally.run_of_inWords build hwords
  rw [m.value_encodedTally] at hrun
  cases hsize : m.encodedSize with
  | error error =>
    rw [hsize] at hrun
    simp only [splitIn, hrun, split, windows, hsize]
  | ok total =>
    have hvalue := m.value_encodedTally
    rw [hsize] at hrun hvalue
    have htotal : total < UInt64.size := (Tally.inWords_iff_of_value hvalue).mp hwords
    have hpos : 0 < total := Message.encodedSize_pos hsize
    rw [splitIn_of_run hrun htotal (hroom total hsize) (Or.inl hpos)]
    by_cases hcount : Window.count total f.config.windowLength < UInt32.size
    · rw [if_pos hcount, split_of_encodedSize hsize hcount]
    · rw [if_neg hcount, split_of_tooMany hsize hcount]

theorem needsSplitIn_eq_needsSplit (f : Fragmenter) (build : Build)
    (hwords : m.encodedTally.InWords) : f.needsSplitIn build m = .ok (f.needsSplit m) := by
  rw [needsSplitIn, Tally.run_of_inWords build hwords, m.value_encodedTally, needsSplit]
  cases m.encodedSize <;> rfl

/-- A checked program stops at a message whose size is no word, and takes no number for it. -/
theorem stops_of_not_inWords (f : Fragmenter) (hwords : ¬ m.encodedTally.InWords) :
    f.needsSplitIn .checked m = .error .overflow ∧ f.splitIn .checked m = (.error .overflow, f) := by
  have hrun := Tally.run_checked_of_not_inWords hwords
  constructor
  · rw [needsSplitIn, hrun]
    rfl
  · simp only [splitIn, hrun]

/-- The batch of a message of `size` bytes besides its kind, where `n` windows cover the encoding
and `n` can be counted in 32 bits. If the bytes of the encoding can be counted in 64 bits, splitting
yields `n` fragments and there is at least one; each place from 0 to `n` has the fragment that
belongs in it; and the message is said to need splitting exactly if there is more than one. If they
cannot, a checked program stops, and an unchecked one splits what is left of their number. -/
theorem splitIn_shape {size : Nat} (hsize : m.wireSize = .ok size)
    (hcount : (1 + size) ⌈/⌉ f.config.windowLength < UInt32.size) :
    (1 + size < 2 ^ 64 → ∀ build, ∃ batch,
      f.splitIn build m = (.ok (.ok batch), f.allocate.2) ∧ batch.id = f.next ∧
      batch.fragments.length = (1 + size) ⌈/⌉ f.config.windowLength ∧
      batch.fragments ≠ [] ∧
      (∀ k < (1 + size) ⌈/⌉ f.config.windowLength, ∃ part, batch.fragments[k]? = some part ∧
        Message.IsPart f m (1 + size) ((1 + size) ⌈/⌉ f.config.windowLength) k part) ∧
      f.needsSplitIn build m = .ok (.ok (decide (1 < batch.fragments.length)))) ∧
    (2 ^ 64 ≤ 1 + size →
      f.needsSplitIn .checked m = .error .overflow ∧
      f.splitIn .checked m = (.error .overflow, f) ∧
      f.needsSplitIn .unchecked m
        = .ok (.ok (decide (f.config.windowLength < (1 + size) % 2 ^ 64))) ∧
      ∃ batch, f.splitIn .unchecked m = (.ok (.ok batch), f.allocate.2) ∧
        batch.fragments.length = (1 + size) % 2 ^ 64 ⌈/⌉ f.config.windowLength) := by
  have htotal : m.encodedSize = .ok (1 + size) :=
    Message.encodedSize_eq_ok.mpr ⟨size, hsize, rfl⟩
  have hvalue : m.encodedTally.value = .ok (1 + size) := m.value_encodedTally.trans htotal
  simp only [← Window.count_eq_ceilDiv] at hcount ⊢
  have hroom : ∀ n, Window.count n f.config.windowLength < UInt32.size →
      Window.count n f.config.windowLength < 2 ^ 59 :=
    fun n hn => Nat.lt_trans hn (by decide)
  constructor
  · intro hwords build
    have hinWords := (Tally.inWords_iff_of_value hvalue).mpr hwords
    have hsplit : f.splitIn build m = _ := splitIn_eq_split f build hinWords fun total hencoded => by
      obtain rfl : 1 + size = total := Except.ok.inj (htotal.symm.trans hencoded)
      exact hroom _ hcount
    rw [split_of_encodedSize htotal hcount] at hsplit
    refine ⟨_, hsplit, rfl, length_fragments _, ?_, fun k hk => isPart_fragments hk hcount, ?_⟩
    · rw [← List.length_pos_iff, length_fragments]
      exact Window.count_pos f.config.windowLength_pos (Message.encodedSize_pos htotal)
    · have hone : 1 < Window.count (1 + size) f.config.windowLength
          ↔ f.config.windowLength < 1 + size :=
        Window.one_lt_count_iff f.config.windowLength_pos
      simp only [needsSplitIn_eq_needsSplit f build hinWords, needsSplit, htotal, length_fragments, hone]
  · intro hlarge
    have hnot : ¬ m.encodedTally.InWords := by
      rw [Tally.inWords_iff_of_value hvalue]
      exact Nat.not_lt.mpr hlarge
    obtain ⟨hneeds, hstops⟩ := stops_of_not_inWords f hnot
    -- What is left of the size has no more windows than the size.
    have hrun : m.encodedTally.run .unchecked = .ok (.ok ((1 + size) % 2 ^ 64)) := by
      rw [Tally.run_unchecked, hvalue]
      rfl
    have hfewer := Window.count_mono f.config.windowLength_pos (Nat.mod_le (1 + size) (2 ^ 64))
    have hleft := Nat.lt_of_le_of_lt hfewer hcount
    have hsplit : f.splitIn .unchecked m = _ :=
      splitIn_of_run hrun (Nat.mod_lt _ (by decide)) (hroom _ hleft) (Or.inr rfl)
    rw [if_pos hleft] at hsplit
    refine ⟨hneeds, hstops, ?_, _, hsplit, length_fragments _⟩
    rw [needsSplitIn, hrun]
    rfl

/-- A composite of 80 bytes is split into windows of 30, 30 and 20 bytes. -/
theorem splitIn_shape_sample : ∃ batch,
    ((startingAt ⟨30, 36, by decide⟩ 0).splitIn .checked Catalogue.sample).1 = .ok (.ok batch) ∧
      batch.fragments.length = 3 ∧
      (∀ k < 3, ∃ part, batch.fragments[k]? = some part ∧
        Message.IsPart (startingAt ⟨30, 36, by decide⟩ 0) Catalogue.sample 80 3 k part) := by
  have hsize : Catalogue.sample.wireSize = .ok 79 := rfl
  obtain ⟨hwords, -⟩ := splitIn_shape (f := startingAt ⟨30, 36, by decide⟩ 0) hsize (by decide)
  obtain ⟨batch, hsplit, -, hlength, -, hparts, -⟩ := hwords (by decide) .checked
  exact ⟨batch, congrArg Prod.fst hsplit, hlength, hparts⟩

/-- Two windows of 2 ^ 63 bytes cover the encoding of a message of 2 ^ 64 - 1 bytes besides its
kind, and their number can be counted. But the bytes cannot: a checked program stops, and an
unchecked one says that the message need not be split and makes a batch without fragments. -/
theorem splitIn_leaves_words :
    (Message.windowOfEmpty (2 ^ 64 - 14)).wireSize = .ok (2 ^ 64 - 1) ∧
    (1 + (2 ^ 64 - 1)) ⌈/⌉ 2 ^ 63 = 2 ∧
    (startingAt ⟨2 ^ 63, 1, by decide⟩ 0).needsSplitIn .checked
        (Message.windowOfEmpty (2 ^ 64 - 14)) = .error .overflow ∧
    ((startingAt ⟨2 ^ 63, 1, by decide⟩ 0).splitIn .checked
        (Message.windowOfEmpty (2 ^ 64 - 14))).1 = .error .overflow ∧
    (startingAt ⟨2 ^ 63, 1, by decide⟩ 0).needsSplitIn .unchecked
        (Message.windowOfEmpty (2 ^ 64 - 14)) = .ok (.ok false) ∧
    ((startingAt ⟨2 ^ 63, 1, by decide⟩ 0).splitIn .unchecked
        (Message.windowOfEmpty (2 ^ 64 - 14))).1 = .ok (.ok ⟨0, []⟩) := by
  have hsize : (Message.windowOfEmpty (2 ^ 64 - 14)).encodedSize = .ok (2 ^ 64) :=
    Message.encodedSize_windowOfEmpty _
  have hvalue := (Message.value_encodedTally _).trans hsize
  have hnot : ¬ (Message.windowOfEmpty (2 ^ 64 - 14)).encodedTally.InWords := by
    rw [Tally.inWords_iff_of_value hvalue]
    decide
  obtain ⟨hneeds, hstops⟩ := stops_of_not_inWords (startingAt ⟨2 ^ 63, 1, by decide⟩ 0) hnot
  -- Nothing is left of the size.
  have hrun : (Message.windowOfEmpty (2 ^ 64 - 14)).encodedTally.run .unchecked = .ok (.ok 0) := by
    rw [Tally.run_unchecked, hvalue]
    rfl
  refine ⟨rfl, ?_, hneeds, congrArg Prod.fst hstops, ?_, ?_⟩
  · rw [← Window.count_eq_ceilDiv]
    decide
  · rw [needsSplitIn, hrun]
    rfl
  · rw [splitIn_of_run hrun (by decide) (by decide) (Or.inr rfl)]
    rfl

end Fragmenter

end Groupcast
