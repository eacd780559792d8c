import Groupcast.Proofs.Emission

/-!
# What a clip passes on

However a content is split into writes, a clip passes on the part of it that lies in the window.
The invariant is `Clip.after`: the state of a clip depends only on the content written so far.

Consecutive windows cover a byte string, so the parts cut out by `Window.tile` make it up again.
-/

namespace Groupcast

/-! ## Windows -/

namespace Window

/-- A window is cut out of the front that ends where the window does. -/
theorem cut_eq_drop_take (w : Window) (items : List α) :
    w.cut items = (items.take w.stop).drop w.offset := by
  unfold cut stop
  rw [List.drop_take, Nat.add_sub_cancel_left]

theorem count_mul_ge (total : Nat) {most : Nat} (hmost : 0 < most) :
    total ≤ count total most * most := by
  unfold count
  have hdiv := Nat.div_add_mod (total + most - 1) most
  have hmod := Nat.mod_lt (total + most - 1) hmost
  rw [Nat.mul_comm most] at hdiv
  omega

/-- Every window of a tiling starts inside the range. -/
theorem mul_lt_of_lt_count {total most i : Nat} (hi : i < count total most) :
    i * most < total := by
  unfold count at hi
  have hmul : (i + 1) * most ≤ total + most - 1 :=
    Nat.le_trans (Nat.mul_le_mul_right most hi) (Nat.div_mul_le_self _ _)
  rw [Nat.succ_mul] at hmul
  rcases Nat.eq_zero_or_pos most with hzero | hpos
  · subst hzero
    simp at hi
  · omega

/-- The windows of a tiling are as long as the bound at most, and lie in the range. -/
theorem mem_tile {base total most : Nat} {w : Window} (hw : w ∈ tile base total most) :
    w.length ≤ most ∧ base ≤ w.offset ∧ w.stop ≤ base + total := by
  unfold tile at hw
  rcases List.mem_map.mp hw with ⟨i, hi, rfl⟩
  have hlt := mul_lt_of_lt_count (List.mem_range.mp hi)
  refine ⟨Nat.min_le_left _ _, Nat.le_add_right _ _, ?_⟩
  show base + i * most + min most (total - i * most) ≤ base + total
  omega

/-- The parts cut out by a tiling make up the whole. Induction on the number of windows: the first
`k` of them make up the first `k * most` items. -/
theorem flatten_cut_tile (items : List α) {most : Nat} (hmost : 0 < most) :
    ((tile 0 items.length most).map (·.cut items)).flatten = items := by
  have hfront : ∀ k, ((List.range k).map fun i =>
      (⟨0 + i * most, min most (items.length - i * most)⟩ : Window).cut items).flatten
        = items.take (k * most) := by
    intro k
    induction k with
    | zero => simp
    | succ k ih =>
      -- The next window holds as many items as it may, or what is left of them.
      have hpart : (⟨0 + k * most, min most (items.length - k * most)⟩ : Window).cut items
          = (items.drop (k * most)).take most := by
        simp only [cut, Nat.zero_add]
        rw [← List.length_drop, ← List.take_eq_take_min]
      rw [List.range_succ, List.map_append, List.flatten_append, ih, Nat.succ_mul, List.take_add,
        List.map_singleton, List.flatten_singleton, hpart]
  unfold tile
  rw [List.map_map]
  exact (hfront _).trans (List.take_of_length_le (count_mul_ge _ hmost))

end Window

/-! ## Clips -/

namespace Clip

/-- The part of a content that a clip to a window passes on. -/
def passed (w : Window) (content : Bytes) : Bytes :=
  (content.take (min w.stop maxPosition)).drop w.offset

/-- The state of a clip to a window after a content. -/
def after (w : Window) (content : Bytes) : Clip :=
  ⟨w.offset, min w.stop maxPosition, min content.length maxPosition, (passed w content).length⟩

@[simp] theorem passed_nil (w : Window) : passed w [] = [] := by simp [passed]

theorem ofWindow_eq_after (w : Window) : ofWindow w = after w [] := by
  simp [ofWindow, after]

/-- A window that ends at a 64-bit position is passed on as it is. -/
theorem passed_eq_cut {w : Window} (hstop : w.stop ≤ maxPosition) (content : Bytes) :
    passed w content = w.cut content := by
  unfold passed
  rw [Nat.min_eq_left hstop, Window.cut_eq_drop_take]

/-- The content of a write adds what the clip keeps of it. -/
theorem passed_append (w : Window) (content piece : Bytes) :
    passed w (content ++ piece) = passed w content ++ (after w content).kept piece := by
  unfold passed kept after
  rw [List.take_append, List.drop_append, List.length_take]
  congr 1
  rw [List.drop_take]
  by_cases hfull : min w.stop maxPosition ≤ content.length
  · -- The window has been passed, and nothing more is kept.
    have hnone : min w.stop maxPosition - content.length
        - (w.offset - min (min w.stop maxPosition) content.length) = 0 := by omega
    have hnone' : min w.stop maxPosition
        - max w.offset (min content.length maxPosition) = 0 := by omega
    simp only [hnone, hnone', List.take_zero]
  · -- The position is still exact.
    have hexact : min content.length maxPosition = content.length := by omega
    have hshort : min (min w.stop maxPosition) content.length = content.length := by omega
    simp only [hexact, hshort]
    congr 1
    omega

/-- One write takes the state for a content to the state for the content with the write. -/
theorem advance_after (w : Window) (content piece : Bytes) :
    (after w content).advance piece = after w (content ++ piece) := by
  unfold advance
  have hforwarded : (passed w (content ++ piece)).length
      = (passed w content).length + ((after w content).kept piece).length := by
    rw [passed_append, List.length_append]
  have hposition : min (min content.length maxPosition + piece.length) maxPosition
      = min (content ++ piece).length maxPosition := by
    rw [List.length_append]
    omega
  simp only [after] at hforwarded ⊢
  rw [hforwarded, hposition]

/-- A write is passed on as what is kept of it, if anything is. -/
theorem flatten_toList_write (c : Clip) (piece : Bytes) :
    (c.write piece).2.toList.flatten = c.kept piece := by
  unfold write
  by_cases hempty : (c.kept piece).isEmpty
  · simp only [hempty, if_true, Option.toList_none, List.flatten_nil]
    exact (List.isEmpty_iff.mp hempty).symm
  · simp [hempty]

/-- A sequence of writes takes the state for a content to the state for all that is written then,
and passes on what the longer content adds. -/
theorem writeAll_after (w : Window) (content : Bytes) (pieces : List Bytes) :
    ((after w content).writeAll pieces).1 = after w (content ++ pieces.flatten) ∧
      passed w (content ++ pieces.flatten)
        = passed w content ++ ((after w content).writeAll pieces).2.flatten := by
  induction pieces generalizing content with
  | nil => simp [writeAll]
  | cons piece pieces ih =>
    -- The first write makes the content longer; the others are taken from there.
    rcases ih (content ++ piece) with ⟨hstate, hpassed⟩
    have hwrite : ((after w content).write piece).1 = after w (content ++ piece) :=
      advance_after w content piece
    simp only [writeAll, hwrite, List.flatten_cons, ← List.append_assoc]
    refine ⟨hstate, ?_⟩
    rw [hpassed, passed_append, List.flatten_append, flatten_toList_write, List.append_assoc]

/-- A clip that has taken a sequence of writes has passed on the part of it in the window. -/
theorem writeAll_ofWindow (w : Window) (pieces : List Bytes) :
    ((ofWindow w).writeAll pieces).1 = after w pieces.flatten ∧
      ((ofWindow w).writeAll pieces).2.flatten = passed w pieces.flatten := by
  rcases writeAll_after w [] pieces with ⟨hstate, hpassed⟩
  rw [ofWindow_eq_after]
  exact ⟨hstate, by simpa using hpassed.symm⟩

end Clip

/-! ## Emissions in a window -/

namespace Emission

/-- A window of an emission succeeds when the emission does and the whole window lies in it. -/
theorem result_window_eq_ok {w : Window} {e : Emission} {u : Bytes} :
    (e.window w).result = .ok u ↔
      ∃ v, e.result = .ok v ∧ u = Clip.passed w v ∧ u.length = w.length := by
  rcases e with ⟨pieces, failure⟩
  rcases Clip.writeAll_ofWindow w pieces with ⟨hstate, hpassed⟩
  simp only [window, result_eq_ok, bytes, hstate]
  cases failure with
  | some error => simp
  | none =>
    -- What was passed on has the length of the window, or the window is not all there.
    simp only [Clip.after]
    by_cases hlength : (Clip.passed w pieces.flatten).length = w.length
    · simp only [hlength, if_true, hpassed]
      constructor
      · rintro ⟨-, rfl⟩
        exact ⟨_, ⟨trivial, rfl⟩, rfl, hlength⟩
      · rintro ⟨v, ⟨-, rfl⟩, rfl, -⟩
        exact ⟨trivial, rfl⟩
    · simp only [hlength, if_false]
      constructor
      · rintro ⟨hfailure, -⟩
        cases hfailure
      · rintro ⟨v, ⟨-, rfl⟩, rfl, hlength'⟩
        exact absurd hlength' hlength

end Emission

end Groupcast
