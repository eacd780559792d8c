import Groupcast.Clip.Calls
import Groupcast.Proofs.Message.Excerpt

/-!
# Every sequence of calls is clipped to the window

`Clip.serve?` never leaves the words, and comes to what `Clip.write` says, as long as fewer than
2 ^ 64 bytes are written. The invariant of a run is again `Clip.after`: how the bytes so far came in
calls makes no difference.
-/

namespace Groupcast

/-! ## Calls -/

/-- A call that is passed on with a part of its bytes. -/
def SinkCall.narrowed : SinkCall → Bytes → SinkCall
  | byte b, _ => byte b
  | slice _, part => slice part

theorem Write.contents_append (writes others : List Write) :
    Write.contents (writes ++ others) = Write.contents writes ++ Write.contents others :=
  List.flatMap_append

theorem Write.contents_eq_flatten (writes : List Write) :
    Write.contents writes = ((writes.map Write.call).map SinkCall.content).flatten := by
  rw [List.map_map, ← List.flatMap_def]
  rfl

theorem Write.length_contents_take_le (writes : List Write) (k : Nat) :
    (Write.contents (writes.take k)).length ≤ (Write.contents writes).length := by
  have hall : Write.contents writes
      = Write.contents (writes.take k) ++ Write.contents (writes.drop k) := by
    rw [← contents_append, List.take_append_drop]
  rw [hall, List.length_append]
  exact Nat.le_add_right _ _

/-! ## Words -/

theorem addWords?_of_le {a b : Nat} (h : a + b ≤ maxPosition) : addWords? a b = some (a + b) :=
  if_pos h

theorem subtractWords?_of_le {a b : Nat} (h : b ≤ a) : subtractWords? a b = some (a - b) :=
  if_pos h

theorem Bytes.between?_of_le {bytes : Bytes} {first past : Nat} (hfirst : first ≤ past)
    (hpast : past ≤ bytes.length) :
    bytes.between? first past = some ((bytes.take past).drop first) :=
  if_pos ⟨hfirst, hpast⟩

namespace Clip

/-! ## One call -/

/-- A clip that computes in words: its window lies in them, and it has passed on no more than was
written. -/
structure InWords (c : Clip) : Prop where
  offset_le : c.offset ≤ c.stop
  stop_le : c.stop ≤ maxPosition
  forwarded_le : c.forwarded ≤ c.position

theorem inWords_ofWindow {w : Window} (hoffset : w.offset ≤ maxPosition) :
    (ofWindow w).InWords := by
  constructor
  · exact Nat.le_min.mpr ⟨Nat.le_add_right _ _, hoffset⟩
  · exact Nat.min_le_right _ _
  · exact Nat.le_refl 0

/-- Past the window, nothing is kept. -/
theorem kept_of_stop_le {c : Clip} (hpast : c.stop ≤ c.position) (piece : Bytes) :
    c.kept piece = [] := by
  unfold kept
  rw [Nat.sub_eq_zero_of_le (Nat.le_trans hpast (Nat.le_max_right _ _)), List.take_zero]

/-- Nothing is kept of a piece that ends before the window. -/
theorem kept_of_length_le {c : Clip} {piece : Bytes}
    (hbefore : piece.length ≤ c.offset - c.position) : c.kept piece = [] := by
  unfold kept
  rw [List.drop_of_length_le hbefore, List.take_nil]

/-- What is kept lies between two positions of the piece. -/
theorem kept_eq_drop_take (c : Clip) (piece : Bytes) {skipped : Nat}
    (hskipped : c.offset - c.position = skipped) :
    c.kept piece = (piece.take (skipped
      + min (piece.length - skipped) (c.stop - (c.position + skipped)))).drop skipped := by
  have hfirst : max c.offset c.position = c.position + skipped := by omega
  unfold kept
  rw [List.drop_take, Nat.add_sub_cancel_left, hfirst, hskipped, ← List.length_drop, Nat.min_comm,
    ← List.take_eq_take_min]

/-- What is kept of a single byte is that byte, or nothing. -/
theorem kept_singleton (c : Clip) (b : UInt8) :
    c.kept [b] = if c.offset ≤ c.position ∧ c.position < c.stop then [b] else [] := by
  by_cases hbegun : c.offset ≤ c.position
  · by_cases hopen : c.position < c.stop
    · rw [if_pos ⟨hbegun, hopen⟩, kept, Nat.sub_eq_zero_of_le hbegun, List.drop_zero,
        Nat.max_eq_right hbegun]
      exact List.take_of_length_le (Nat.sub_pos_of_lt hopen)
    · rw [if_neg fun h => hopen h.2]
      exact kept_of_stop_le (Nat.le_of_not_lt hopen) [b]
  · rw [if_neg fun h => hbegun h.1]
    exact kept_of_length_le (Nat.sub_pos_of_lt (Nat.lt_of_not_le hbegun))

/-- What is passed on for a call, given what is kept of its bytes. -/
def passOn (call : SinkCall) (part : Bytes) : Option SinkCall :=
  if part.isEmpty then none else some (call.narrowed part)

@[simp] theorem passOn_nil (call : SinkCall) : passOn call [] = none := rfl

theorem passOn_of_ne_nil {part : Bytes} (call : SinkCall) (h : part ≠ []) :
    passOn call part = some (call.narrowed part) :=
  if_neg fun hempty => h (List.isEmpty_iff.mp hempty)

/-- A clip that keeps nothing of a write only moves on. -/
theorem advance_of_kept_eq_nil {c : Clip} {piece : Bytes} (h : c.kept piece = []) :
    c.advance piece = { c with position := min (c.position + piece.length) maxPosition } := by
  rw [advance, h]
  rfl

theorem serve?_byte {c : Clip} (hwords : c.InWords) (b : UInt8)
    (hroom : c.position + 1 ≤ maxPosition) :
    c.serve? (.byte b) = some (c.advance [b], passOn (.byte b) (c.kept [b])) := by
  unfold serve? advance
  rw [kept_singleton]
  by_cases hinside : c.offset ≤ c.position ∧ c.position < c.stop
  · have hforwarded : c.forwarded + 1 ≤ maxPosition :=
      Nat.le_trans (Nat.succ_le_succ hwords.forwarded_le) hroom
    simp only [if_pos hinside, addWords?_of_le hforwarded]
    rfl
  · simp only [if_neg hinside]
    rfl

/-- The part of a slice that is worked out from its ends is what is kept of it. Each operation stays
in the words: nothing is taken from less, and no sum goes beyond what is written. -/
theorem serve?_slice {c : Clip} (hwords : c.InWords) (bytes : Bytes)
    (hroom : c.position + bytes.length ≤ maxPosition) :
    c.serve? (.slice bytes) = some (c.advance bytes, passOn (.slice bytes) (c.kept bytes)) := by
  obtain ⟨hoffset, hstop, hforwarded⟩ := hwords
  simp only [serve?, Option.pure_def, Option.bind_eq_bind]
  by_cases hpast : c.stop ≤ c.position
  · have hkept : c.kept bytes = [] := kept_of_stop_le hpast bytes
    rw [if_pos hpast, advance_of_kept_eq_nil hkept, hkept, passOn_nil]
  rw [if_neg hpast]
  by_cases hbefore : bytes.length ≤ c.offset - c.position
  · have hkept : c.kept bytes = [] := kept_of_length_le hbefore
    rw [if_pos hbefore, advance_of_kept_eq_nil hkept, hkept, passOn_nil]
  rw [if_neg hbefore]
  generalize hskipped : c.offset - c.position = skipped at hbefore ⊢
  have hkept := kept_eq_drop_take c bytes hskipped
  -- The window has not ended where the part begins.
  have hinside : c.position + skipped ≤ c.stop := by omega
  simp only [subtractWords?_of_le (Nat.le_of_not_le hbefore), subtractWords?_of_le hinside,
    addWords?_of_le (Nat.le_trans hinside hstop), Option.bind_some]
  generalize hcount : min (bytes.length - skipped) (c.stop - (c.position + skipped)) = count
    at hkept ⊢
  have hfits : skipped + count ≤ bytes.length := by omega
  have hlength : (c.kept bytes).length = count := by
    rw [hkept, List.length_drop, List.length_take, Nat.min_eq_left hfits, Nat.add_sub_cancel_left]
  by_cases hzero : count = 0
  · have hnil : c.kept bytes = [] := List.length_eq_zero_iff.mp (hlength.trans hzero)
    rw [if_pos hzero, advance_of_kept_eq_nil hnil, hnil, passOn_nil]
  · have hsome : c.kept bytes ≠ [] := fun hnil =>
      hzero (hlength.symm.trans (List.length_eq_zero_iff.mpr hnil))
    have hpart : skipped + count ≤ maxPosition := by omega
    have htotal : c.forwarded + count ≤ maxPosition := by omega
    simp only [if_neg hzero, addWords?_of_le hpart, addWords?_of_le htotal,
      Bytes.between?_of_le (Nat.le_add_right _ _) hfits, Option.bind_some, ← hkept,
      passOn_of_ne_nil _ hsome, advance, hlength, SinkCall.narrowed]

/-- Either way, a call takes a clip where a write of its bytes does. -/
theorem serve?_eq {c : Clip} (hwords : c.InWords) (call : SinkCall)
    (hroom : c.position + call.content.length ≤ maxPosition) :
    c.serve? call
      = some (c.advance call.content, passOn call (c.kept call.content)) := by
  cases call with
  | byte b => exact serve?_byte hwords b hroom
  | slice bytes => exact serve?_slice hwords bytes hroom

theorem length_kept_le (c : Clip) (piece : Bytes) : (c.kept piece).length ≤ piece.length := by
  unfold kept
  rw [List.length_take, List.length_drop]
  omega

/-- While the position is exact, a clip stays in words. -/
theorem InWords.advance {c : Clip} (hwords : c.InWords) {piece : Bytes}
    (hroom : c.position + piece.length ≤ maxPosition) : (c.advance piece).InWords := by
  constructor
  · exact hwords.offset_le
  · exact hwords.stop_le
  · show c.forwarded + (c.kept piece).length ≤ min (c.position + piece.length) maxPosition
    rw [Nat.min_eq_left hroom]
    exact Nat.add_le_add hwords.forwarded_le (length_kept_le c piece)

/-- A call is narrowed to what is kept of its bytes, be it a byte or a slice. -/
theorem content_narrowed_kept {c : Clip} {call : SinkCall} (h : c.kept call.content ≠ []) :
    (call.narrowed (c.kept call.content)).content = c.kept call.content := by
  cases call with
  | slice bytes => rfl
  | byte b =>
    show [b] = c.kept [b]
    have hkept := kept_singleton c b
    by_cases hinside : c.offset ≤ c.position ∧ c.position < c.stop
    · rw [hkept, if_pos hinside]
    · rw [if_neg hinside] at hkept
      exact absurd hkept h

/-- What is passed on for a call is what `Clip.write` makes of its bytes, and never empty. -/
theorem passOn_kept (c : Clip) (call : SinkCall) :
    (passOn call (c.kept call.content)).toList.map SinkCall.content
        = (c.write call.content).2.toList ∧
      ∀ narrow, passOn call (c.kept call.content) = some narrow → narrow.content ≠ [] := by
  by_cases hkept : c.kept call.content = []
  · simp [write, hkept]
  · rw [passOn_of_ne_nil call hkept]
    constructor
    · simp [write, hkept, content_narrowed_kept hkept]
    · intro narrow hnarrow
      rw [← Option.some.inj hnarrow, content_narrowed_kept hkept]
      exact hkept

/-! ## Runs -/

/-- Calls take a clip where writes of their bytes do, as long as the position stays a word.
Induction on the calls: each leaves the clip in words. -/
theorem serveAll?_eq {c : Clip} (hwords : c.InWords) (calls : List SinkCall)
    (hroom : c.position + (calls.map SinkCall.content).flatten.length ≤ maxPosition) :
    ∃ passedOn,
      c.serveAll? calls = some ((c.writeAll (calls.map SinkCall.content)).1, passedOn) ∧
      passedOn.length = calls.length ∧
      (passedOn.flatMap fun call => call.toList.map SinkCall.content)
        = (c.writeAll (calls.map SinkCall.content)).2 ∧
      ∀ call, some call ∈ passedOn → call.content ≠ [] := by
  induction calls generalizing c with
  | nil => exact ⟨[], rfl, rfl, rfl, by simp⟩
  | cons call calls ih =>
    rw [List.map_cons, List.flatten_cons, List.length_append] at hroom
    have hfirst : c.position + call.content.length ≤ maxPosition := by omega
    have hrest : (c.advance call.content).position
        + (calls.map SinkCall.content).flatten.length ≤ maxPosition := by
      simp only [advance, Nat.min_eq_left hfirst]
      omega
    obtain ⟨passedOn, hserved, hlength, hpieces, hsome⟩ := ih (hwords.advance hfirst) hrest
    obtain ⟨hpart, hpartSome⟩ := passOn_kept c call
    refine ⟨passOn call (c.kept call.content) :: passedOn, ?_, ?_, ?_, ?_⟩
    · rw [serveAll?, serve?_eq hwords call hfirst]
      simp only [Option.bind_eq_bind, Option.bind_some, hserved]
      rfl
    · rw [List.length_cons, hlength, List.length_cons]
    · rw [List.flatMap_cons, hpart, hpieces]
      rfl
    · intro narrow hmem
      rcases List.mem_cons.mp hmem with hhead | htail
      · exact hpartSome narrow hhead.symm
      · exact hsome narrow htail

/-- What is passed on for the first of some calls does not depend on the others. -/
theorem serveAll?_take {c last : Clip} {calls : List SinkCall} {passedOn : List (Option SinkCall)}
    (h : c.serveAll? calls = some (last, passedOn)) (k : Nat) :
    ∃ between, c.serveAll? (calls.take k) = some (between, passedOn.take k) := by
  induction calls generalizing c passedOn k with
  | nil =>
    obtain ⟨-, rfl⟩ := Prod.mk.inj (Option.some.inj h)
    exact ⟨c, by simp [serveAll?]⟩
  | cons call calls ih =>
    cases k with
    | zero => exact ⟨c, by simp [serveAll?]⟩
    | succ k =>
      simp only [serveAll?, Option.bind_eq_bind, Option.bind_eq_some_iff] at h
      obtain ⟨⟨next, first⟩, hnext, ⟨reached, others⟩, hothers, hall⟩ := h
      obtain ⟨rfl, rfl⟩ := Prod.mk.inj (Option.some.inj hall)
      obtain ⟨between, hbetween⟩ := ih hothers k
      exact ⟨between, by simp [serveAll?, hnext, hbetween]⟩

theorem sunk_eq_flatten (passedOn : List (Option SinkCall)) :
    sunk passedOn = (passedOn.flatMap fun call => call.toList.map SinkCall.content).flatten := by
  induction passedOn with
  | nil => rfl
  | cons first others ih =>
    rw [List.flatMap_cons, List.flatten_append, ← ih, ← List.flatMap_def]
    rfl

/-- The run of a clip from its start, for writes that come to fewer than 2 ^ 64 bytes. -/
theorem serveAll?_ofWindow {w : Window} (hoffset : w.offset ≤ maxPosition) (writes : List Write)
    (hsize : (Write.contents writes).length ≤ maxPosition) :
    ∃ passedOn,
      (ofWindow w).serveAll? (writes.map Write.call)
        = some (after w (Write.contents writes), passedOn) ∧
      passedOn.length = writes.length ∧
      sunk passedOn = w.cut (Write.contents writes) ∧
      ((ofWindow w).writeAll (writes.map Write.content)).2
        = (passedOn.flatMap fun call => call.toList.map SinkCall.content) ∧
      ∀ call, some call ∈ passedOn → call.content ≠ [] := by
  have hroom : (ofWindow w).position
      + ((writes.map Write.call).map SinkCall.content).flatten.length ≤ maxPosition := by
    rw [← Write.contents_eq_flatten]
    simpa [ofWindow] using hsize
  obtain ⟨passedOn, hserved, hlength, hpieces, hsome⟩ :=
    serveAll?_eq (inWords_ofWindow hoffset) (writes.map Write.call) hroom
  obtain ⟨hstate, hpassed⟩ :=
    writeAll_ofWindow w ((writes.map Write.call).map SinkCall.content)
  rw [← Write.contents_eq_flatten] at hstate hpassed
  refine ⟨passedOn, ?_, ?_, ?_, ?_, hsome⟩
  · rw [hserved, hstate]
  · rw [hlength, List.length_map]
  · rw [sunk_eq_flatten, hpieces, hpassed, passed_eq_cut_of_length w hsize]
  · rw [hpieces, List.map_map]
    rfl

/-- A clip passes on its window of whatever is written, however it is written. For writes of any
kinds that come to fewer than 2 ^ 64 bytes, it computes in words throughout. After each of them,
what has reached the sink is the window of what has been written; the clip has counted the one and
the other; and for each write there was one call on the sink at most, and none without bytes. Other
writes of the same bytes leave the same clip and the same sink. -/
theorem serveAll?_writes (offset length : UInt64) (writes : List Write)
    (hsize : (Write.contents writes).length < UInt64.size) :
    ∃ passedOn : List (Option SinkCall),
      passedOn.length = writes.length ∧
      (∀ call, some call ∈ passedOn → call.content ≠ []) ∧
      (∀ k ≤ writes.length, ∃ c,
        (ofWindow ⟨offset.toNat, length.toNat⟩).serveAll? ((writes.take k).map Write.call)
          = some (c, passedOn.take k) ∧
        sunk (passedOn.take k)
          = Window.cut ⟨offset.toNat, length.toNat⟩ (Write.contents (writes.take k)) ∧
        c.forwarded = (sunk (passedOn.take k)).length ∧
        c.position = (Write.contents (writes.take k)).length ∧
        (ofWindow ⟨offset.toNat, length.toNat⟩).writeAll ((writes.take k).map Write.content)
          = (c, (passedOn.take k).flatMap fun call => call.toList.map SinkCall.content)) ∧
      ∀ others : List Write, Write.contents others = Write.contents writes →
        ∃ c passedOn',
          (ofWindow ⟨offset.toNat, length.toNat⟩).serveAll? (writes.map Write.call)
            = some (c, passedOn) ∧
          (ofWindow ⟨offset.toNat, length.toNat⟩).serveAll? (others.map Write.call)
            = some (c, passedOn') ∧
          sunk passedOn' = sunk passedOn := by
  have hoffset : offset.toNat ≤ maxPosition := Nat.le_pred_of_lt offset.toNat_lt
  have hfits : (Write.contents writes).length ≤ maxPosition := Nat.le_pred_of_lt hsize
  generalize hw : (⟨offset.toNat, length.toNat⟩ : Window) = w
  rw [show offset.toNat = w.offset by rw [← hw]] at hoffset
  obtain ⟨passedOn, hserved, hlength, hsunk, -, hsome⟩ := serveAll?_ofWindow hoffset writes hfits
  refine ⟨passedOn, hlength, hsome, ?_, ?_⟩
  · intro k _
    have hfront : (Write.contents (writes.take k)).length ≤ maxPosition :=
      Nat.le_trans (Write.length_contents_take_le writes k) hfits
    obtain ⟨front, hfrontServed, -, hfrontSunk, hfrontPieces, -⟩ :=
      serveAll?_ofWindow hoffset (writes.take k) hfront
    -- What is passed on for the first writes is the front of what is passed on for all.
    obtain ⟨between, hbetween⟩ := serveAll?_take hserved k
    rw [← List.map_take, hfrontServed] at hbetween
    obtain ⟨-, rfl⟩ := Prod.mk.inj (Option.some.inj hbetween)
    refine ⟨_, hfrontServed, hfrontSunk, ?_, ?_, ?_⟩
    · rw [hfrontSunk, ← passed_eq_cut_of_length w hfront]
      rfl
    · exact Nat.min_eq_left hfront
    · obtain ⟨hstate, -⟩ := writeAll_ofWindow w ((writes.take k).map Write.content)
      rw [← List.flatMap_def] at hstate
      exact Prod.ext hstate hfrontPieces
  · intro others hothers
    obtain ⟨passedOn', hserved', -, hsunk', -, -⟩ :=
      serveAll?_ofWindow hoffset others (hothers ▸ hfits)
    rw [hothers] at hserved' hsunk'
    exact ⟨_, passedOn', hserved, hserved', hsunk'.trans hsunk.symm⟩

/-- Four writes of five bytes in all, to a window from the second byte to past the largest position:
a flag, a number, no bytes, and two. -/
theorem serveAll?_writes_mixed :
    (ofWindow ⟨1, 18446744073709551615⟩).serveAll?
        [.byte 1, .slice [1, 2], .slice [], .slice [3, 4]]
      = some (⟨1, 18446744073709551615, 5, 4⟩,
          [none, some (.slice [1, 2]), none, some (.slice [3, 4])]) ∧
    sunk [none, some (.slice [1, 2]), none, some (.slice [3, 4])] = [1, 2, 3, 4] := by
  obtain ⟨passedOn, -, -, hfronts, -⟩ :=
    serveAll?_writes 1 18446744073709551615 [.flag true, .u16 0x0102, .slice [], .slice [3, 4]]
      (by decide)
  obtain ⟨c, hserved, hsunk, -⟩ := hfronts 4 (by decide)
  have hrun : (ofWindow ⟨1, 18446744073709551615⟩).serveAll?
      [.byte 1, .slice [1, 2], .slice [], .slice [3, 4]]
        = some (⟨1, 18446744073709551615, 5, 4⟩,
          [none, some (.slice [1, 2]), none, some (.slice [3, 4])]) := by
    decide
  have hsame := hrun.symm.trans hserved
  rw [← (Prod.mk.inj (Option.some.inj hsame)).2] at hsunk
  exact ⟨hrun, hsunk⟩

end Clip

end Groupcast
