import Groupcast.Catalogue.Dialect
import Groupcast.Proofs.Fragment.Shape
import Groupcast.Proofs.Message.Excerpt
import Groupcast.Proofs.Message.Tally

/-!
# Sizing in words

A sum leaves the words exactly if the size of the message does. All parts of a message that fits in
memory are small, except the windows of excerpts: they are not checked before an excerpt is written,
and a message is sized first.
-/

namespace Groupcast

variable {D : Dialect}

/-! ## Windows that cannot be written -/

/-- What is wrong with a window of some bytes: its length cannot be written, or a clip to it passes
on less. -/
def Window.fault? (bytes : Bytes) (window : Window) : Option EncodeError :=
  if Emission.maxLength < window.length then some (.lengthOverflow window.length)
  else if (Clip.passed window bytes).length = window.length then none
  else some (.windowOutOfRange window (Clip.passed window bytes).length)

mutual

/-- The excerpts that are met when a message is written, in the order in which their windows are
checked. The whole of an excerpt is written first, if the length of its window can be written. -/
def Message.excerpts : Message D → List (Message D × Window)
  | .mk _ body => body.excerpts

/-- The excerpts that are met when a body is written. -/
def Body.excerpts : Body D → List (Message D × Window)
  | .composite children => excerptsAll children
  | .excerpt whole window =>
    (if window.length ≤ Emission.maxLength then whole.excerpts else []) ++ [(whole, window)]
  | _ => []

/-- `Message.excerpts` of all messages. -/
def excerptsAll : List (Message D) → List (Message D × Window)
  | [] => []
  | m :: ms => m.excerpts ++ excerptsAll ms

end

/-- What is wrong with an excerpt. -/
def excerptFault? (excerpt : Message D × Window) : Option EncodeError :=
  excerpt.2.fault? excerpt.1.emit.bytes

mutual

/-- A message that can be written but for the windows of its excerpts. -/
def Message.WritableElse : Message D → Prop
  | .mk e body => e.emit.failure = none ∧ body.WritableElse

/-- A body that can be written but for the windows of its excerpts. -/
def Body.WritableElse : Body D → Prop
  | .composite children => children.length ≤ Emission.maxLength ∧ AllWritableElse children
  | .excerpt whole window => window.length ≤ Emission.maxLength → whole.WritableElse
  | b => b.emit.failure = none

/-- `Message.WritableElse` for all messages. -/
def AllWritableElse : List (Message D) → Prop
  | [] => True
  | m :: ms => m.WritableElse ∧ AllWritableElse ms

end

mutual

/-- Writing fails as the first excerpt does that is at fault, if nothing else fails. -/
theorem Message.failure_emit (m : Message D) (h : m.WritableElse) :
    m.emit.failure = m.excerpts.findSome? excerptFault? := by
  cases m with
  | mk e body =>
    obtain ⟨henvelope, hbody⟩ := h
    rw [Message.emit, Emission.failure_append, Emission.failure_append, henvelope,
      Body.failure_emit body hbody]
    rfl

theorem Body.failure_emit (b : Body D) (h : b.WritableElse) :
    b.emit.failure = b.excerpts.findSome? excerptFault? := by
  cases b with
  | composite children =>
    obtain ⟨hcount, hchildren⟩ := h
    rw [Body.emit, Emission.length_of_fits hcount, Emission.failure_append,
      failure_emissions children hchildren]
    rfl
  | excerpt whole window =>
    rw [Body.excerpts, List.findSome?_append]
    by_cases hfits : window.length ≤ Emission.maxLength
    · -- The whole is written through a clip, and what fails in it comes before the window.
      rw [if_pos hfits, ← Message.failure_emit whole (h hfits), Body.emit_excerpt_of_fits _ hfits]
      show (whole.emit.window window).failure = _
      cases hwhole : whole.emit.failure with
      | some error => rw [Emission.failure_window_of_failure hwhole, Option.some_or]
      | none =>
        rw [Emission.failure_window_of_none hwhole, Option.none_or, List.findSome?_singleton,
          excerptFault?, Window.fault?, if_neg (Nat.not_lt.mpr hfits)]
    · have hlarge : Emission.maxLength < window.length := Nat.lt_of_not_le hfits
      rw [if_neg hfits, Body.emit_excerpt_of_not_fits _ hlarge, List.findSome?_nil,
        Option.none_or, List.findSome?_singleton, excerptFault?, Window.fault?, if_pos hlarge]
      rfl
  | _ => exact h

theorem failure_emissions (ms : List (Message D)) (h : AllWritableElse ms) :
    (Emission.concat (emissions ms)).failure = (excerptsAll ms).findSome? excerptFault? := by
  cases ms with
  | nil => rfl
  | cons m ms =>
    rw [excerptsAll, List.findSome?_append, ← Message.failure_emit m h.1,
      ← failure_emissions ms h.2]
    exact Emission.failure_append m.emit (Emission.concat (emissions ms))

end

mutual

/-- Such a message can be sized: only packing could fail. -/
theorem Message.exists_wireSize_of_writableElse (m : Message D) (h : m.WritableElse) :
    ∃ n, m.wireSize = .ok n := by
  cases m with
  | mk e body =>
    obtain ⟨n, hn⟩ := Body.exists_wireSize_of_writableElse body h.2
    exact ⟨e.wireSize + n, by rw [Message.wireSize, hn]; rfl⟩

theorem Body.exists_wireSize_of_writableElse (b : Body D) (h : b.WritableElse) :
    ∃ n, b.wireSize = .ok n := by
  cases b with
  | composite children =>
    obtain ⟨n, hn⟩ := exists_sumSizes_of_writableElse children h.2 0
    have hsum : sumSizes 1 (wireSizes children) = .ok n := hn
    exact ⟨4 + n, by rw [Body.wireSize, hsum]; rfl⟩
  | serializable parcel =>
    have hemit : (Parcel.emit parcel).result = .ok (Parcel.emit parcel).bytes :=
      Emission.result_eq_ok.mpr ⟨h, rfl⟩
    exact Parcel.exists_wireSize_of_emit hemit
  | _ => exact ⟨_, rfl⟩

theorem exists_sumSizes_of_writableElse (ms : List (Message D)) (h : AllWritableElse ms)
    (sum : Nat) : ∃ n, (wireSizes ms).foldlM (m := Except EncodeError)
      (fun sum size => size.map (sum + 1 + ·)) sum = .ok n := by
  cases ms with
  | nil => exact ⟨sum, rfl⟩
  | cons m ms =>
    obtain ⟨size, hsize⟩ := Message.exists_wireSize_of_writableElse m h.1
    obtain ⟨n, hn⟩ := exists_sumSizes_of_writableElse ms h.2 (sum + 1 + size)
    exact ⟨n, by rw [wireSizes, List.foldlM_cons, hsize]; exact hn⟩

end

/-! ## Sizing, splitting and encoding -/

namespace Message

/-- The sizes that are asked of a message, and how each of them is added up. -/
inductive Sizing (m : Message D) : Tally → Except EncodeError Nat → Prop where
  | length : Sizing m m.lengthTally m.length
  | wireSize : Sizing m m.wireTally m.wireSize
  | wireSizeFor (sender : Option Address) (excluded : List HeaderId) :
    Sizing m (m.wireTallyFor sender excluded) (m.wireSizeFor sender excluded)
  | encodedSize : Sizing m m.encodedTally m.encodedSize

variable {m : Message D} {t : Tally} {size : Except EncodeError Nat}

theorem Sizing.value (h : m.Sizing t size) : t.value = size := by
  cases h with
  | length => exact m.value_lengthTally
  | wireSize => exact m.value_wireTally
  | wireSizeFor sender excluded => exact m.value_wireTallyFor sender excluded
  | encodedSize => exact m.value_encodedTally

theorem Sizing.total_le (h : m.Sizing t size) : t.total ≤ m.windowed + 64 * m.weight := by
  cases h with
  | length =>
    have hlength := m.total_lengthTally_le
    omega
  | wireSize =>
    have hwire := m.total_wireTally_le
    omega
  | wireSizeFor sender excluded => exact m.total_wireTallyFor_le sender excluded
  | encodedSize => exact m.total_encodedTally_le

/-- Windows that leave some room keep a message that fits in memory in words. -/
theorem Sizing.inWords (h : m.Sizing t size) (hweight : m.weight < 2 ^ 32)
    (hwindowed : m.windowed + 2 ^ 38 ≤ 2 ^ 64) : t.InWords := by
  have htotal := h.total_le
  refine Tally.inWords_of_total (Nat.lt_of_le_of_lt htotal ?_)
  show m.windowed + 64 * m.weight < 2 ^ 64
  omega

/-- A message that is sized in words, for which there is room, is encoded as if there were no
words. -/
theorem encodeIn_eq_encode (build : Build) (hwords : m.encodedTally.InWords)
    (hroom : m.encodedTally.total ≤ maxRoom) : m.encodeIn build = .ok m.encode := by
  have hvalue := m.value_encodedTally
  rw [encodeIn, Tally.run_of_inWords build hwords, encode]
  cases hsize : m.wireSize with
  | error error =>
    rw [hvalue, encodedSize, hsize]
    rfl
  | ok n =>
    rw [encodedSize, hsize] at hvalue
    have htotal : m.encodedTally.total = 1 + n := Tally.total_of_value hvalue
    rw [htotal] at hroom
    rw [hvalue]
    show (makeRoom (1 + n) >>= fun () => .ok m.emit.result) = _
    rw [makeRoom_of_le hroom]
    rfl

/-- What encoding comes to if only windows can be at fault. -/
theorem encode_of_writableElse (h : m.WritableElse) :
    m.encode = match m.excerpts.findSome? excerptFault? with
      | some error => .error error
      | none => .ok m.emit.bytes := by
  obtain ⟨n, hsize⟩ := m.exists_wireSize_of_writableElse h
  rw [encode, hsize, ← m.failure_emit h]
  show m.emit.result = _
  rw [Emission.result]
  cases m.emit.failure <;> rfl

/-- A message is sized without regard to its windows, and sizing leaves the words exactly if the
size does. Then a checked program stops, and an unchecked one goes on with what is left of the size.
It does not happen in a message that fits in memory, as long as its windows come to less than 2 ^ 64
with some room. Then it is split by its size, if there is room for the windows of the split; and if
its own windows leave room for 2 ^ 63 bytes, it is encoded, so that the first window at fault is
found out and reported, for its length or for what there is of it. -/
theorem sizing_in_words (m : Message D) :
    (∀ t size, m.Sizing t size →
      t.value = size ∧
      (∀ n, size = .ok n → (t.InWords ↔ n < 2 ^ 64)) ∧
      (t.InWords → ∀ build, t.run build = .ok size) ∧
      (¬ t.InWords → t.run .checked = .error .overflow) ∧
      t.run .unchecked = .ok (size.map (· % 2 ^ 64)) ∧
      (m.weight < 2 ^ 32 → m.windowed + 2 ^ 38 ≤ 2 ^ 64 → t.InWords)) ∧
    (m.weight < 2 ^ 32 → m.windowed + 2 ^ 38 ≤ 2 ^ 64 → ∀ build (f : Fragmenter),
      f.needsSplitIn build m = .ok (f.needsSplit m) ∧
      ((∀ total, m.encodedSize = .ok total →
          Window.count total f.config.windowLength < 2 ^ 59) →
        f.splitIn build m = (.ok (f.split m).1, (f.split m).2))) ∧
    (m.weight < 2 ^ 32 → m.windowed + 2 ^ 38 ≤ 2 ^ 63 → ∀ build,
      m.encodeIn build = .ok m.encode ∧
      (m.WritableElse → m.encodeIn build
        = .ok (match m.excerpts.findSome? excerptFault? with
          | some error => .error error
          | none => .ok m.emit.bytes))) := by
  refine ⟨?_, ?_, ?_⟩
  · intro t size hsizing
    obtain rfl := hsizing.value
    exact ⟨rfl, fun n => Tally.inWords_iff_of_value, fun hwords build =>
      Tally.run_of_inWords build hwords, Tally.run_checked_of_not_inWords, t.run_unchecked,
      hsizing.inWords⟩
  · intro hweight hwindowed build f
    have hwords := Sizing.encodedSize.inWords hweight hwindowed
    exact ⟨f.needsSplitIn_eq_needsSplit build hwords, f.splitIn_eq_split build hwords⟩
  · intro hweight hwindowed build
    -- Room for the bytes asks for more than that their number is a word.
    have htotal := m.total_encodedTally_le
    have hwords : m.encodedTally.InWords := Sizing.encodedSize.inWords hweight (by omega)
    have hroom : m.encodedTally.total ≤ maxRoom := by
      show m.encodedTally.total ≤ 2 ^ 63 - 1
      omega
    have hencode := encodeIn_eq_encode build hwords hroom
    refine ⟨hencode, fun helse => ?_⟩
    rw [hencode, encode_of_writableElse helse]

/-- A window of 2 ^ 40 bytes is split by its size and refused for its length, and one of 30 bytes
for the ten bytes that there are. -/
theorem sizing_in_words_window :
    (windowOfEmpty (2 ^ 40)).weight < 2 ^ 32 ∧
    (windowOfEmpty (2 ^ 40)).windowed + 2 ^ 38 ≤ 2 ^ 63 ∧
    (default : Fragmenter).needsSplitIn .checked (windowOfEmpty (2 ^ 40)) = .ok (.ok true) ∧
    (windowOfEmpty (2 ^ 40)).encodeIn .checked = .ok (.error (.lengthOverflow (2 ^ 40))) ∧
    (windowOfEmpty 30).encodeIn .checked = .ok (.error (.windowOutOfRange ⟨0, 30⟩ 10)) := by
  obtain ⟨-, hsplit, hencode⟩ := sizing_in_words (windowOfEmpty (2 ^ 40))
  obtain ⟨-, -, hshort⟩ := sizing_in_words (windowOfEmpty 30)
  refine ⟨by decide, by decide, ?_, ?_, ?_⟩
  · rw [(hsplit (by decide) (by decide) .checked default).1]
    exact congrArg (Except.ok ∘ Except.ok) (decide_eq_true (by decide))
  · exact (hencode (by decide) (by decide) .checked).2 ⟨rfl, fun h => absurd h (by decide)⟩
  · exact (hshort (by decide) (by decide) .checked).2 ⟨rfl, fun _ => ⟨rfl, rfl⟩⟩

/-- A window of 2 ^ 64 - 1 bytes leaves the words: a checked program stops, and an unchecked one
finds that the message is short. There is no room for a window of 2 ^ 63 bytes, so it is never
refused. -/
theorem sizing_leaves_words :
    (windowOfEmpty (2 ^ 64 - 1)).weight < 2 ^ 32 ∧
    (windowOfEmpty (2 ^ 64 - 1)).encodedSize = .ok (2 ^ 64 + 13) ∧
    ¬ (windowOfEmpty (2 ^ 64 - 1)).encodedTally.InWords ∧
    (windowOfEmpty (2 ^ 64 - 1)).encodedTally.run .checked = .error .overflow ∧
    (windowOfEmpty (2 ^ 64 - 1)).encodedTally.run .unchecked = .ok (.ok 13) ∧
    (default : Fragmenter).needsSplit (windowOfEmpty (2 ^ 64 - 1)) = .ok true ∧
    (default : Fragmenter).needsSplitIn .checked (windowOfEmpty (2 ^ 64 - 1)) = .error .overflow ∧
    (default : Fragmenter).needsSplitIn .unchecked (windowOfEmpty (2 ^ 64 - 1))
      = .ok (.ok false) ∧
    (windowOfEmpty (2 ^ 63)).weight < 2 ^ 32 ∧
    ∀ build, (windowOfEmpty (2 ^ 63)).encodeIn build = .error .noRoom := by
  have hsize : (windowOfEmpty (2 ^ 64 - 1)).encodedSize = .ok (2 ^ 64 + 13) :=
    encodedSize_windowOfEmpty _
  have hlarge : ¬ (windowOfEmpty (2 ^ 64 - 1)).encodedTally.InWords := by
    rw [Tally.inWords_iff_of_value ((value_encodedTally _).trans hsize)]
    decide
  have hsplit : (default : Fragmenter).needsSplit (windowOfEmpty (2 ^ 64 - 1)) = .ok true := by
    rw [Fragmenter.needsSplit, hsize]
    exact congrArg Except.ok (decide_eq_true (by decide))
  have hstops := (Fragmenter.stops_of_not_inWords default hlarge).1
  refine ⟨by decide, hsize, hlarge, rfl, rfl, hsplit, hstops, rfl, by decide, fun build => ?_⟩
  have hhalf := (value_encodedTally _).trans (encodedSize_windowOfEmpty (2 ^ 63))
  have hwords := (Tally.inWords_iff_of_value hhalf).mpr (by decide)
  rw [encodeIn, Tally.run_of_inWords build hwords, hhalf]
  rfl

end Message

end Groupcast
