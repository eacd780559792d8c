import Groupcast.Catalogue.Dialect
import Groupcast.Message.Writing
import Groupcast.Proofs.Clip

/-!
# What an excerpt writes

An excerpt writes the length of its window, and then the whole message through a clip. What comes
out is the window of the encoding, as far as there is one; the writing fails if the whole message
cannot be written, or if its encoding ends before the window does. That the sink behind the clip may
be any, another clip too, is `Clip.foldl_writeInto`.
-/

namespace Groupcast

/-! ## Clips in front of sinks -/

namespace Clip

/-- One write to a sink behind a clip: the clip takes it, and the sink gets the part passed on. -/
def writeInto {σ : Type} (sink : σ → Bytes → σ) (state : Clip × σ) (piece : Bytes) : Clip × σ :=
  let (c, part) := state.1.write piece
  (c, part.toList.foldl sink state.2)

/-- A sink behind a clip gets what the clip makes of the writes. Induction on the writes. -/
theorem foldl_writeInto {σ : Type} (sink : σ → Bytes → σ) (c : Clip) (s : σ)
    (pieces : List Bytes) :
    pieces.foldl (writeInto sink) (c, s)
      = ((c.writeAll pieces).1, (c.writeAll pieces).2.foldl sink s) := by
  induction pieces generalizing c s with
  | nil => rfl
  | cons piece pieces ih =>
    rw [List.foldl_cons, writeInto, ih]
    simp only [writeAll, List.foldl_append]

/-- Content that ends at a 64-bit position is cut as if positions had no end. -/
theorem passed_eq_cut_of_length (w : Window) {content : Bytes}
    (hlength : content.length ≤ maxPosition) : passed w content = w.cut content := by
  unfold passed
  rw [Window.cut_eq_drop_take, List.take_eq_take_iff.mpr]
  omega

end Clip

/-! ## Windows that are not all there -/

namespace Window

/-- The positions that lie both in the window and in the list. -/
@[simp] theorem length_cut (w : Window) (items : List α) :
    (w.cut items).length = min w.stop items.length - w.offset := by
  unfold cut stop
  rw [List.length_take, List.length_drop]
  omega

/-- A window is cut out in full if it is empty or ends inside the list. -/
theorem length_cut_eq_iff {w : Window} {items : List α} :
    (w.cut items).length = w.length ↔ w.length = 0 ∨ w.stop ≤ items.length := by
  rw [length_cut]
  unfold stop
  omega

end Window

namespace Emission

/-- In a window, an emission writes the pieces that a clip to the window passes on. -/
theorem pieces_window (w : Window) (e : Emission) :
    (e.window w).pieces = ((Clip.ofWindow w).writeAll e.pieces).2 := by
  simp only [window]
  cases e.failure with
  | some error => rfl
  | none =>
    dsimp only
    split <;> rfl

theorem bytes_window (w : Window) (e : Emission) : (e.window w).bytes = Clip.passed w e.bytes := by
  rw [bytes, pieces_window]
  exact (Clip.writeAll_ofWindow w e.pieces).2

/-- An emission that fails does so in a window, wherever the window lies. -/
theorem failure_window_of_failure {w : Window} {e : Emission} {error : EncodeError}
    (hfailure : e.failure = some error) : (e.window w).failure = some error := by
  simp only [window, hfailure]

/-- An emission that succeeds fails in a window that is not all passed on. -/
theorem failure_window_of_none {w : Window} {e : Emission} (hfailure : e.failure = none) :
    (e.window w).failure = if (Clip.passed w e.bytes).length = w.length then none
      else some (.windowOutOfRange w (Clip.passed w e.bytes).length) := by
  rcases Clip.writeAll_ofWindow w e.pieces with ⟨hstate, -⟩
  simp only [window, hfailure, hstate, Clip.after, bytes]
  exact apply_ite Emission.failure _ _ _

theorem length_of_fits {n : Nat} (hfits : n ≤ maxLength) :
    length n = piece (Bytes.bigEndian 4 n) := if_pos hfits

theorem length_of_not_fits {n : Nat} (hlarge : maxLength < n) :
    length n = fail (.lengthOverflow n) := if_neg (Nat.not_le.mpr hlarge)

end Emission

/-! ## Excerpts -/

namespace Body

variable {D : Dialect}

/-- An excerpt whose length cannot be written writes nothing. -/
theorem emit_excerpt_of_not_fits (whole : Message D) {window : Window}
    (hlarge : Emission.maxLength < window.length) :
    (excerpt whole window).emit = Emission.fail (.lengthOverflow window.length) := by
  rw [emit, Emission.length_of_not_fits hlarge]
  rfl

/-- Otherwise it writes the length, and then the window of the whole message. -/
theorem emit_excerpt_of_fits (whole : Message D) {window : Window}
    (hfits : window.length ≤ Emission.maxLength) :
    (excerpt whole window).emit = ⟨Bytes.bigEndian 4 window.length
      :: (whole.emit.window window).pieces, (whole.emit.window window).failure⟩ := by
  rw [emit, Emission.length_of_fits hfits]
  rfl

/-- What an excerpt writes, whatever the whole message is. If the length of the window cannot be
written, that is the error, and nothing is written. Otherwise the length is written first, and what
follows is passed on by a clip in front of whatever sink there is. If the whole message cannot be
written, its error is that of the excerpt. If its encoding is `w`, then what follows the length is
the window of `w`; and if the window, not being empty, goes beyond `w`, the error says how much of
it there was. -/
theorem emit_excerpt (whole : Message D) (window : Window) :
    ((excerpt whole window).emit = Emission.fail (.lengthOverflow window.length) ↔
      Emission.maxLength < window.length) ∧
    (window.length ≤ Emission.maxLength → ∃ pieces,
      (excerpt whole window).emit.pieces = Bytes.bigEndian 4 window.length :: pieces ∧
      (∀ {σ : Type} (sink : σ → Bytes → σ) (s : σ), pieces.foldl sink s
        = (whole.emit.pieces.foldl (Clip.writeInto sink) (Clip.ofWindow window, s)).2) ∧
      (∀ error, whole.emit.failure = some error →
        (excerpt whole window).emit.failure = some error) ∧
      ∀ w, whole.emit.result = .ok w → w.length < UInt64.size →
        pieces.flatten = window.cut w ∧
        ((excerpt whole window).emit.failure = none ↔
          window.length = 0 ∨ window.stop ≤ w.length) ∧
        ((excerpt whole window).emit.failure ≠ none → (excerpt whole window).emit.failure
          = some (.windowOutOfRange window (window.cut w).length))) := by
  refine ⟨⟨?_, emit_excerpt_of_not_fits whole⟩, fun hfits => ?_⟩
  · -- An excerpt whose length fits has written that length, at least.
    intro hrefused
    apply Nat.lt_of_not_le
    intro hfits
    rw [emit_excerpt_of_fits whole hfits] at hrefused
    cases hrefused
  · rw [emit_excerpt_of_fits whole hfits]
    refine ⟨_, rfl, ?_, fun error => Emission.failure_window_of_failure, ?_⟩
    · intro σ sink s
      rw [Emission.pieces_window, Clip.foldl_writeInto]
    · intro w hresult hlength
      rcases Emission.result_eq_ok.mp hresult with ⟨hfailure, rfl⟩
      have hcut : Clip.passed window whole.emit.bytes = window.cut whole.emit.bytes :=
        Clip.passed_eq_cut_of_length window (Nat.le_pred_of_lt hlength)
      refine ⟨(Emission.bytes_window window whole.emit).trans hcut, ?_⟩
      simp only [Emission.failure_window_of_none hfailure, hcut]
      -- The clip has counted what it passed on, and that is compared with the window.
      by_cases hall : (window.cut whole.emit.bytes).length = window.length
      · simp only [hall, if_true, true_iff, ne_eq, not_true, false_implies, and_true]
        exact Window.length_cut_eq_iff.mp hall
      · simp only [hall, if_false, reduceCtorEq, false_iff, ne_eq, not_false_iff, true_implies,
          and_true]
        exact fun h => hall (Window.length_cut_eq_iff.mpr h)

/-- A message of 19 bytes: five bytes of the ten of an empty message. -/
def frontOfEmpty : Message Catalogue.dialect :=
  .ofBody (excerpt (.ofBody .empty) ⟨2, 5⟩)

/-- A window over the end of an excerpt, of which three bytes are there. What cannot be written
fails the same way in a window of its first byte. A window may be too long to be written at all. -/
theorem emit_excerpt_of_excerpt :
    (∃ pieces, (excerpt frontOfEmpty ⟨16, 8⟩).emit.pieces = [0, 0, 0, 8] :: pieces ∧
      pieces.flatten = [0, 0, 0] ∧
      (excerpt frontOfEmpty ⟨16, 8⟩).emit.failure = some (.windowOutOfRange ⟨16, 8⟩ 3)) ∧
    (excerpt (.ofBody (excerpt frontOfEmpty ⟨16, 8⟩)) ⟨0, 1⟩).emit.failure
      = some (.windowOutOfRange ⟨16, 8⟩ 3) ∧
    (excerpt frontOfEmpty ⟨0, 2147483648⟩).emit = Emission.fail (.lengthOverflow 2147483648) := by
  obtain ⟨pieces, hpieces, -, -, hwindow⟩ :=
    (emit_excerpt frontOfEmpty ⟨16, 8⟩).2 (by decide)
  obtain ⟨hcut, hsucceeds, hfails⟩ := hwindow _ rfl (by decide)
  have houtside : (excerpt frontOfEmpty ⟨16, 8⟩).emit.failure ≠ none :=
    fun h => absurd (hsucceeds.mp h) (by decide)
  obtain ⟨-, -, -, herror, -⟩ :=
    (emit_excerpt (.ofBody (excerpt frontOfEmpty ⟨16, 8⟩)) ⟨0, 1⟩).2 (by decide)
  exact ⟨⟨pieces, hpieces, hcut, hfails houtside⟩, herror _ rfl,
    (emit_excerpt frontOfEmpty ⟨0, 2147483648⟩).1.mpr (by decide)⟩

end Body

end Groupcast
