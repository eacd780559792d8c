import Groupcast.Proofs.Clip.Calls
import Groupcast.Proofs.Fragment.Shape

/-!
# Windows tile their range

The loop that plans windows covers its range without gap or overlap, as long as the range ends at a
64-bit position and there is room for the windows, and computes in words throughout. So one clip for
each window of a byte string, each with a writing of the string of its own, put out the string
again.
-/

namespace Groupcast

namespace Window

/-- Windows of at most `most` positions that cover `[base, base + total)` from end to end. -/
structure Tiles (base total most : Nat) (windows : List Window) : Prop where
  length_eq : windows.length = total ⌈/⌉ most
  first : ∀ w : Window, windows[0]? = some w → w.offset = base
  next : ∀ k (w after : Window), windows[k]? = some w → windows[k + 1]? = some after →
    after.offset = w.stop
  last : ∀ k (w : Window), windows[k]? = some w → k + 1 = windows.length → w.stop = base + total
  bounded : ∀ w ∈ windows, 1 ≤ w.length ∧ w.length ≤ most
  full : ∀ k (w : Window), windows[k]? = some w → k + 1 < windows.length → w.length = most
  once : ∀ p, base ≤ p → p < base + total →
    ∃! k : Nat, ∃ w : Window, windows[k]? = some w ∧ w.offset ≤ p ∧ p < w.stop

/-- What is in a place of a tiling. -/
theorem getElem?_tile_eq_some {base total most k : Nat} {w : Window} :
    (tile base total most)[k]? = some w ↔
      k < count total most ∧ w = ⟨base + k * most, min most (total - k * most)⟩ := by
  by_cases hk : k < count total most
  · simp [tile, hk, eq_comm]
  · simp [tile, hk]

/-- A place that another one follows holds a full window. -/
theorem mul_le_of_succ_lt_count {total most k : Nat} (hk : k + 1 < count total most) :
    k * most + most < total := by
  have hlt := mul_lt_of_lt_count hk
  rwa [Nat.succ_mul] at hlt

/-- The window that holds a position is the quotient of its distance from the base. -/
theorem mem_place_iff {base total most k p : Nat} (hmost : 0 < most) (hbase : base ≤ p)
    (hp : p < base + total) :
    (∃ w, (tile base total most)[k]? = some w ∧ w.offset ≤ p ∧ p < w.stop) ↔
      k = (p - base) / most := by
  constructor
  · rintro ⟨w, hplace, hoffset, hstop⟩
    obtain ⟨-, rfl⟩ := getElem?_tile_eq_some.mp hplace
    have hlow : k * most ≤ p - base := by
      simp only at hoffset
      omega
    have hhigh : p - base < (k + 1) * most := by
      simp only [stop] at hstop
      rw [Nat.succ_mul]
      omega
    exact (Nat.div_eq_of_lt_le hlow hhigh).symm
  · rintro rfl
    -- The distance is the quotient's full windows and less than one more; since it is less than
    -- the total, the window of the quotient is planned and reaches beyond it.
    have hdiv : most * ((p - base) / most) + (p - base) % most = p - base :=
      Nat.div_add_mod (p - base) most
    have hmod : (p - base) % most < most := Nat.mod_lt _ hmost
    rw [Nat.mul_comm] at hdiv
    have hplace : (p - base) / most < count total most := by
      rw [← Nat.not_le, count_le_iff hmost, Nat.mul_comm]
      omega
    refine ⟨_, getElem?_tile_eq_some.mpr ⟨hplace, rfl⟩, ?_, ?_⟩
    · show base + (p - base) / most * most ≤ p
      omega
    · show p < base + (p - base) / most * most + min most (total - (p - base) / most * most)
      omega

theorem tiles_tile {most : Nat} (hmost : 0 < most) (base total : Nat) :
    Tiles base total most (tile base total most) where
  length_eq := by rw [length_tile, count_eq_ceilDiv]
  first w hplace := by
    obtain ⟨-, rfl⟩ := getElem?_tile_eq_some.mp hplace
    rw [Nat.zero_mul, Nat.add_zero]
  next k w after hplace hafter := by
    obtain ⟨-, rfl⟩ := getElem?_tile_eq_some.mp hplace
    obtain ⟨hk, rfl⟩ := getElem?_tile_eq_some.mp hafter
    have hfull := mul_le_of_succ_lt_count hk
    show base + (k + 1) * most = base + k * most + min most (total - k * most)
    rw [Nat.succ_mul]
    omega
  last k w hplace hlast := by
    obtain ⟨hk, rfl⟩ := getElem?_tile_eq_some.mp hplace
    have hlt := mul_lt_of_lt_count hk
    have hge := count_mul_ge total hmost
    rw [length_tile] at hlast
    rw [← hlast, Nat.succ_mul] at hge
    show base + k * most + min most (total - k * most) = base + total
    omega
  bounded w hw := by
    obtain ⟨k, hplace⟩ := List.getElem?_of_mem hw
    obtain ⟨hk, rfl⟩ := getElem?_tile_eq_some.mp hplace
    have hlt := mul_lt_of_lt_count hk
    show 1 ≤ min most (total - k * most) ∧ min most (total - k * most) ≤ most
    omega
  full k w hplace hbefore := by
    obtain ⟨-, rfl⟩ := getElem?_tile_eq_some.mp hplace
    rw [length_tile] at hbefore
    have hfull := mul_le_of_succ_lt_count hbefore
    show min most (total - k * most) = most
    omega
  once p hbase hp := by
    refine ⟨(p - base) / most, (mem_place_iff hmost hbase hp).mpr rfl, ?_⟩
    intro k hk
    exact (mem_place_iff hmost hbase hp).mp hk

/-! ## Outputs -/

/-- What a clip to a window puts out for some writes. -/
def output? (w : Window) (writes : List Write) : Option Bytes :=
  ((Clip.ofWindow w).serveAll? (writes.map Write.call)).map fun served => Clip.sunk served.2

/-- A row of steps that all have results. -/
theorem mapM_eq_some {α β : Type} {f : α → Option β} {g : α → β} {items : List α}
    (h : ∀ item ∈ items, f item = some (g item)) : items.mapM f = some (items.map g) := by
  induction items with
  | nil => rfl
  | cons item items ih =>
    rw [List.mapM_cons, h item List.mem_cons_self,
      ih fun other hother => h other (List.mem_cons_of_mem item hother)]
    rfl

/-- A clip puts out its window of what is written. -/
theorem output?_eq_cut {w : Window} {writes : List Write} {content : Bytes}
    (hoffset : w.offset ≤ maxPosition) (hcontent : Write.contents writes = content)
    (hsize : content.length ≤ maxPosition) : w.output? writes = some (w.cut content) := by
  subst hcontent
  obtain ⟨passedOn, hserved, -, hsunk, -⟩ := Clip.serveAll?_ofWindow hoffset writes hsize
  rw [output?, hserved, Option.map_some, hsunk]

/-- Windows are planned as a tiling of their range, `total ⌈/⌉ most` windows of which each starts
where the one before it ends. No sum leaves the words, neither in the loop nor in the end of a
window, if the range ends below 2 ^ 64. Only room is wanting, for as many as 2 ^ 59 windows, and
then no window is planned. The clips to the windows of a byte string, each with some writing of the
string, put out parts that make up the string. -/
theorem plan_tiles {most : Nat} (hmost : 0 < most) :
    (∀ build base total, base + total < UInt64.size →
      (total ⌈/⌉ most < 2 ^ 59 → ∃ windows, plan build hmost base total = .ok windows ∧
        Tiles base total most windows ∧
        ∀ w ∈ windows, w.stopIn build = .ok w.stop) ∧
      (2 ^ 59 ≤ total ⌈/⌉ most → plan build hmost base total = .error .noRoom)) ∧
    (∀ build (content : Bytes), content.length < UInt64.size →
      content.length ⌈/⌉ most < 2 ^ 59 →
      ∃ windows, plan build hmost 0 content.length = .ok windows ∧
        ∀ writing : Window → List Write,
          (∀ w ∈ windows, Write.contents (writing w) = content) →
          ∃ outputs, windows.mapM (fun w => w.output? (writing w)) = some outputs ∧
            outputs.flatten = content) := by
  simp only [← count_eq_ceilDiv]
  constructor
  · intro build base total hwords
    refine ⟨fun hroom => ?_, plan_of_no_room build hmost⟩
    refine ⟨_, plan_eq_tile build hmost hwords hroom, tiles_tile hmost base total, ?_⟩
    intro w hw
    obtain ⟨-, -, hstop⟩ := mem_tile hw
    exact build.word_of_lt (Nat.lt_of_le_of_lt hstop hwords)
  · intro build content hwords hroom
    have hlast : 0 + content.length < UInt64.size := by rwa [Nat.zero_add]
    refine ⟨_, plan_eq_tile build hmost hlast hroom, ?_⟩
    intro writing hwriting
    have houtputs : ∀ w ∈ tile 0 content.length most,
        w.output? (writing w) = some (w.cut content) := by
      intro w hw
      obtain ⟨-, -, hstop⟩ := mem_tile hw
      have hoffset : w.offset ≤ maxPosition :=
        Nat.le_trans (Nat.le_add_right _ _) (Nat.le_trans hstop (Nat.le_pred_of_lt hlast))
      exact output?_eq_cut hoffset (hwriting w hw) (Nat.le_pred_of_lt hwords)
    exact ⟨(tile 0 content.length most).map (·.cut content), mapM_eq_some houtputs,
      flatten_cut_tile content hmost⟩

/-- Five positions up to the last one, in three windows; and a string of five bytes, written in one
slice for the first window and in four writes for the others. -/
theorem plan_tiles_last :
    (∃ windows, plan .checked (show 0 < 2 by decide) 18446744073709551610 5 = .ok windows ∧
      windows.length = 3 ∧ Tiles 18446744073709551610 5 2 windows) ∧
    ∃ windows outputs, plan .checked (show 0 < 2 by decide) 0 5 = .ok windows ∧
      windows.mapM (fun w => w.output? (if w.offset = 0 then [.slice [1, 2, 3, 4, 5]]
        else [.byte 1, .u16 0x0203, .slice [], .slice [4, 5]])) = some outputs ∧
      outputs.flatten = [1, 2, 3, 4, 5] := by
  obtain ⟨hplan, houtput⟩ := plan_tiles (show 0 < 2 by decide)
  constructor
  · obtain ⟨windows, hwindows, htiles, -⟩ :=
      (hplan .checked 18446744073709551610 5 (by decide)).1 (by decide)
    exact ⟨windows, hwindows, htiles.length_eq, htiles⟩
  · obtain ⟨windows, hwindows, hwriting⟩ :=
      houtput .checked [1, 2, 3, 4, 5] (by decide) (by decide)
    obtain ⟨outputs, houtputs, hflatten⟩ := hwriting
      (fun w => if w.offset = 0 then [.slice [1, 2, 3, 4, 5]]
        else [.byte 1, .u16 0x0203, .slice [], .slice [4, 5]])
      (by
        intro w _
        by_cases hfirst : w.offset = 0
        · simp only [hfirst, if_true]
          rfl
        · simp only [hfirst, if_false]
          rfl)
    exact ⟨windows, outputs, hwindows, houtputs, hflatten⟩

/-- There is no room for 2 ^ 63 + 14 windows of one position each, though the last of these
positions is a word. -/
theorem no_room_for_narrow_windows :
    0 + (2 ^ 63 + 14) < UInt64.size ∧ (2 ^ 63 + 14) ⌈/⌉ 1 = 2 ^ 63 + 14 ∧
    plan .checked (show 0 < 1 by decide) 0 (2 ^ 63 + 14) = .error .noRoom := by
  refine ⟨by decide, ?_, plan_of_no_room .checked _ (by decide)⟩
  rw [← count_eq_ceilDiv]
  decide

end Window

end Groupcast
