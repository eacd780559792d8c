import Groupcast.Chain

/-!
# Chains stand for byte strings

A chain without empty chunks that counts its bytes right stands for the byte string of its chunks in
a row. Taking bytes from it, by whichever of the three ways, takes them from that byte string and
leaves a chain of this kind, and never runs into the fault of advancing too far. So a reading cannot
tell how its input was cut into chunks.
-/

namespace Groupcast

namespace Chain

/-! ## The invariant -/

/-- The chain is a cutting of a byte string. -/
structure StandsFor (c : Chain) (source : Bytes) : Prop where
  nonempty : ∀ chunk ∈ c.chunks, chunk ≠ []
  flatten : c.chunks.flatten = source
  remaining : c.remaining = source.length

/-- Empty chunks add nothing to a row of chunks. -/
theorem flatten_filter_nonempty (chunks : List Bytes) :
    (chunks.filter (!·.isEmpty)).flatten = chunks.flatten := by
  induction chunks with
  | nil => rfl
  | cons chunk chunks ih =>
    cases chunk with
    | nil => simpa using ih
    | cons byte chunk => simpa using ih

theorem standsFor_ofChunks (chunks : List Bytes) :
    (ofChunks chunks).StandsFor chunks.flatten where
  nonempty chunk hmem := by
    rcases List.mem_filter.mp hmem with ⟨-, hkept⟩
    simpa using hkept
  flatten := flatten_filter_nonempty chunks
  remaining := rfl

/-- The chain of some chunks comes about by pushing them one after another. -/
theorem ofChunks_eq_foldl_push (chunks : List Bytes) :
    ofChunks chunks = chunks.foldl push empty := by
  suffices hpush : ∀ c : Chain, chunks.foldl push c
      = ⟨c.chunks ++ (ofChunks chunks).chunks, c.remaining + (ofChunks chunks).remaining⟩ by
    rw [hpush empty]
    simp [empty]
  induction chunks with
  | nil =>
    intro c
    simp [ofChunks]
  | cons chunk chunks ih =>
    intro c
    rw [List.foldl_cons, ih]
    cases chunk with
    | nil => rfl
    | cons byte chunk =>
      simp only [push, ofChunks, List.isEmpty_cons, Bool.false_eq_true, if_false, Bool.not_false,
        List.filter_cons_of_pos, List.append_assoc, List.singleton_append, List.flatten_cons,
        List.length_append, Nat.add_assoc]

/-! ## Advancing -/

/-- Dropping bytes of chunks drops them of what the chunks make up. -/
theorem flatten_dropBytes (n : Nat) (chunks : List Bytes) :
    (dropBytes n chunks).flatten = chunks.flatten.drop n := by
  induction chunks generalizing n with
  | nil => simp [dropBytes]
  | cons chunk chunks ih =>
    unfold dropBytes
    split
    case isTrue hzero => simp [hzero]
    case isFalse hpos =>
      split
      case isTrue hinside =>
        -- The first chunk stays, without its front.
        simp only [List.flatten_cons]
        rw [List.drop_append_of_le_length (Nat.le_of_lt hinside)]
      case isFalse hbeyond =>
        -- The first chunk goes, and the rest is dropped from those after it.
        have hgone : chunk.drop n = [] := List.drop_of_length_le (Nat.le_of_not_lt hbeyond)
        rw [ih, List.flatten_cons, List.drop_append, hgone, List.nil_append]

/-- No chunk becomes empty: one that would is dropped. -/
theorem nonempty_dropBytes (n : Nat) {chunks : List Bytes} (h : ∀ chunk ∈ chunks, chunk ≠ []) :
    ∀ chunk ∈ dropBytes n chunks, chunk ≠ [] := by
  induction chunks generalizing n with
  | nil => exact h
  | cons front chunks ih =>
    have hchunks : ∀ chunk ∈ chunks, chunk ≠ [] := by
      intro chunk hmem
      exact h chunk (List.mem_cons_of_mem _ hmem)
    unfold dropBytes
    split
    case isTrue => exact h
    case isFalse =>
      split
      case isTrue hinside =>
        -- Less is dropped of the first chunk than it has.
        intro chunk hmem
        rcases List.mem_cons.mp hmem with rfl | hmem
        · exact List.ne_nil_of_length_pos (by rw [List.length_drop]; omega)
        · exact hchunks chunk hmem
      case isFalse => exact ih _ hchunks

theorem StandsFor.advance {c : Chain} {source : Bytes} (h : c.StandsFor source) {n : Nat}
    (hn : n ≤ source.length) :
    ∃ rest, c.advance n = (.ok (), rest) ∧ rest.StandsFor (source.drop n) := by
  unfold Chain.advance
  rw [if_neg (by rw [h.remaining]; exact Nat.not_lt.mpr hn)]
  refine ⟨_, rfl, nonempty_dropBytes n h.nonempty, ?_, ?_⟩
  · rw [flatten_dropBytes, h.flatten]
  · show c.remaining - n = (source.drop n).length
    rw [h.remaining, List.length_drop]

/-! ## Taking bytes -/

/-- The chunk at the front is a front of the byte string, and not empty if the latter is not. -/
theorem StandsFor.take_front {c : Chain} {source : Bytes} (h : c.StandsFor source) (n : Nat) :
    c.front.take n = source.take (c.front.take n).length ∧
      (0 < n → n ≤ source.length → c.front.take n ≠ []) := by
  rcases h with ⟨hnonempty, rfl, -⟩
  unfold front
  cases hchunks : c.chunks with
  | nil => simp; omega
  | cons chunk chunks =>
    simp only [List.headD_cons, List.flatten_cons]
    constructor
    · rw [List.length_take, List.take_append_of_le_length (Nat.min_le_right _ _),
        ← List.take_eq_take_min]
    · intro hpos _ hnil
      have hchunk : chunk ≠ [] := hnonempty chunk (by rw [hchunks]; exact List.mem_cons_self)
      rcases List.take_eq_nil_iff.mp hnil with hzero | hempty
      · omega
      · exact hchunk hempty

/-- Gathering takes a front of the byte string. Induction along the loop: each turn takes what it
can of the chunk at the front. -/
theorem StandsFor.gather {c : Chain} {source : Bytes} (h : c.StandsFor source) {n : Nat}
    (hn : n ≤ source.length) :
    ∃ rest, c.gather n = (.ok (source.take n), rest) ∧ rest.StandsFor (source.drop n) := by
  induction n using Nat.strongRecOn generalizing c source with
  | ind n ih =>
    unfold Chain.gather
    by_cases hzero : n = 0
    · -- The loop ends, and the chain is left as it is.
      subst hzero
      exact ⟨c, by simp, by simpa using h⟩
    · -- The loop takes a part that is not empty, advances past it, and goes on with the rest.
      rcases h.take_front n with ⟨hfront, hnonempty⟩
      have hsome : c.front.take n ≠ [] := hnonempty (Nat.pos_of_ne_zero hzero) hn
      have hle : (c.front.take n).length ≤ n := by
        rw [List.length_take]
        exact Nat.min_le_left _ _
      have hpos : 0 < (c.front.take n).length := List.length_pos_iff.mpr hsome
      rcases h.advance (Nat.le_trans hle hn) with ⟨later, hadvance, hlater⟩
      obtain ⟨last, hgather, hlast⟩ := ih (n - (c.front.take n).length) (by omega) hlater
        (by rw [List.length_drop]; omega)
      refine ⟨last, ?_, ?_⟩
      · simp only [hzero, hsome, hadvance, hgather, if_false, dif_neg, not_false_eq_true,
          Except.map]
        congr 2
        -- The part in front and the rest are the front of the byte string.
        calc c.front.take n ++ (source.drop (c.front.take n).length).take
              (n - (c.front.take n).length)
            = source.take (c.front.take n).length ++ (source.drop (c.front.take n).length).take
              (n - (c.front.take n).length) := by rw [← hfront]
          _ = source.take ((c.front.take n).length + (n - (c.front.take n).length)) :=
            List.take_add.symm
          _ = source.take n := by rw [Nat.add_sub_cancel' hle]
      · rwa [List.drop_drop, Nat.add_sub_cancel' hle] at hlast

/-- The front of a chain is a front of the byte string, or all of it: a split of the first chunk if
that is long enough, and gathered if not. -/
theorem StandsFor.takeFront {c : Chain} {source : Bytes} (h : c.StandsFor source) (n : Nat) :
    ∃ rest, c.takeFront n = (.ok (source.take n), rest) ∧ rest.StandsFor (source.drop n) := by
  have hgather : ∃ rest, c.gather (min n c.remaining) = (.ok (source.take n), rest) ∧
      rest.StandsFor (source.drop n) := by
    rw [h.remaining]
    by_cases hn : n ≤ source.length
    · rw [Nat.min_eq_left hn]
      exact h.gather hn
    · have hle : source.length ≤ n := Nat.le_of_not_le hn
      rw [Nat.min_eq_right hle, List.take_of_length_le hle, List.drop_of_length_le hle]
      have hall := h.gather (Nat.le_refl source.length)
      rwa [List.take_length, List.drop_length] at hall
  unfold Chain.takeFront
  split
  case h_1 => exact hgather
  case h_2 chunk chunks hchunks =>
    split
    case isFalse =>
      -- The first chunk is too short.
      exact hgather
    case isTrue hinside =>
      -- The first chunk is split, and dropped if nothing is left of it.
      rcases h with ⟨hnonempty, hflatten, hremaining⟩
      rw [hchunks] at hnonempty hflatten
      rw [List.flatten_cons] at hflatten
      subst hflatten
      rw [List.take_append_of_le_length hinside]
      refine ⟨_, rfl, ?_, ?_, ?_⟩
      · intro chunk' hmem
        by_cases hempty : (chunk.drop n).isEmpty
        · rw [if_pos hempty] at hmem
          exact hnonempty chunk' (List.mem_cons_of_mem _ hmem)
        · rw [if_neg hempty] at hmem
          rcases List.mem_cons.mp hmem with rfl | hmem
          · exact fun hnil => hempty (List.isEmpty_iff.mpr hnil)
          · exact hnonempty chunk' (List.mem_cons_of_mem _ hmem)
      · rw [List.drop_append_of_le_length hinside]
        by_cases hempty : (chunk.drop n).isEmpty
        · simp [List.isEmpty_iff.mp hempty]
        · simp [hempty]
      · show c.remaining - n = _
        rw [hremaining, List.length_drop]

/-- So do bytes that are handed over, as far as there can be room for them. -/
theorem StandsFor.handOver {c : Chain} {source : Bytes} (h : c.StandsFor source) {n : Nat}
    (hroom : n ≤ maxRoom) :
    ∃ rest, c.handOver n = (.ok (source.take n), rest) ∧ rest.StandsFor (source.drop n) := by
  unfold Chain.handOver
  rw [makeRoom_of_le hroom]
  exact h.takeFront n

/-- Either way of taking bytes takes a front of the byte string, without a fault. -/
theorem StandsFor.transfer? {c : Chain} {source : Bytes} (h : c.StandsFor source)
    (how : Transfer) {n : Nat} (hn : n ≤ source.length) :
    ∃ rest, c.transfer? how n = some (source.take n, rest) ∧ rest.StandsFor (source.drop n) := by
  cases how with
  | copied =>
    obtain ⟨rest, hgather, hrest⟩ := h.gather hn
    exact ⟨rest, by rw [Chain.transfer?]; simp only [hgather], hrest⟩
  | handed =>
    obtain ⟨rest, htake, hrest⟩ := h.takeFront n
    exact ⟨rest, by rw [Chain.transfer?]; simp only [htake], hrest⟩

/-- A chain with no more bytes than there can be room for is read by handing over. -/
theorem transfer?_handed {c : Chain} {n : Nat} (hn : n ≤ c.remaining)
    (hroom : c.remaining ≤ maxRoom) :
    c.transfer? .handed n = match c.handOver n with
      | (.ok bytes, rest) => some (bytes, rest)
      | (.error _, _) => none := by
  rw [handOver, makeRoom_of_le (Nat.le_trans hn hroom)]
  rfl

/-- Whenever bytes are split off, they are a front of the byte string. -/
theorem StandsFor.of_split?_eq_some {c : Chain} {source : Bytes} (h : c.StandsFor source)
    {how : Transfer} {n : Nat} {bytes : Bytes} {rest : Chain}
    (hsplit : Source.split? how n c = some (bytes, rest)) :
    bytes = source.take n ∧ rest.StandsFor (source.drop n) := by
  have hdef : Source.split? how n c = if n ≤ c.remaining then c.transfer? how n else none := rfl
  rw [hdef] at hsplit
  by_cases hn : n ≤ c.remaining
  · rw [if_pos hn] at hsplit
    rcases h.transfer? how (h.remaining ▸ hn) with ⟨rest', htransfer, hrest⟩
    rw [htransfer] at hsplit
    cases hsplit
    exact ⟨rfl, hrest⟩
  · rw [if_neg hn] at hsplit
    cases hsplit

end Chain

/-! ## Readings -/

namespace Reading

/-- The outcome of a reading on a chain and the chain as it is left, or none if taking bytes that
are there ends in a fault. -/
def runUnlessFault : Reading α → Chain → Option (Except DecodeError α × Chain)
  | done value, c => some (.ok value, c)
  | fail error, c => some (.error error, c)
  | take how count next, c =>
    if count ≤ c.remaining then
      (c.transfer? how count).bind fun (bytes, rest) => (next bytes).runUnlessFault rest
    else some (.error (.truncated count c.remaining), c)
  | ask next, c => (next c.remaining).runUnlessFault c

theorem run_eq_of_runUnlessFault {reading : Reading α} {c : Chain}
    {outcome : Except DecodeError α × Chain} (h : reading.runUnlessFault c = some outcome) :
    reading.run c = outcome := by
  induction reading generalizing c with
  | done value => exact Option.some.inj h
  | fail error => exact Option.some.inj h
  | take how count next ih =>
    simp only [runUnlessFault] at h
    by_cases hcount : count ≤ c.remaining
    · -- The bytes are there, and since nothing is amiss they are the ones split off.
      rw [if_pos hcount] at h
      rcases Option.bind_eq_some_iff.mp h with ⟨⟨bytes, rest⟩, htaken, hrun⟩
      have hsplit : Source.split? how count c = some (bytes, rest) := by
        show (if count ≤ c.remaining then c.transfer? how count else none) = _
        rw [if_pos hcount, htaken]
      simp only [run, hsplit]
      exact ih bytes hrun
    · rw [if_neg hcount] at h
      have hsplit : Source.split? how count c = none := by
        show (if count ≤ c.remaining then c.transfer? how count else none) = _
        rw [if_neg hcount]
      simp only [run, hsplit]
      exact Option.some.inj h
  | ask next ih => exact ih c.remaining h

/-- A reading on a chain runs as on the byte string that the chain stands for, without a fault, and
leaves a chain that stands for what is left of the byte string. -/
theorem runUnlessFault_standsFor (reading : Reading α) {c : Chain} {source : Bytes}
    (h : c.StandsFor source) :
    ∃ rest, reading.runUnlessFault c = some ((reading.run source).1, rest) ∧
      rest.StandsFor (reading.run source).2 := by
  induction reading generalizing c source with
  | done value => exact ⟨c, rfl, h⟩
  | fail error => exact ⟨c, rfl, h⟩
  | take how count next ih =>
    have hsplit : Source.split? how count source = Bytes.split? count source := rfl
    rw [Bytes.split?_eq] at hsplit
    by_cases hcount : count ≤ source.length
    · rcases h.transfer? how hcount with ⟨rest, htaken, hrest⟩
      simp only [runUnlessFault, run, hsplit, h.remaining, hcount, if_true, htaken,
        Option.bind_some]
      exact ih _ hrest
    · refine ⟨c, ?_, ?_⟩
      · have havailable : Source.available source = source.length := rfl
        simp only [runUnlessFault, run, hsplit, h.remaining, hcount, if_false, havailable]
      · simpa only [run, hsplit, hcount, if_false] using h
  | ask next ih =>
    -- The chain counts its bytes, so both answers are the same.
    have havailable : Source.available source = source.length := rfl
    simp only [runUnlessFault, run, h.remaining, havailable]
    exact ih source.length h

/-- The run on a chain, told by the run on its byte string. -/
theorem run_standsFor (reading : Reading α) {c : Chain} {source : Bytes} (h : c.StandsFor source) :
    (reading.run c).1 = (reading.run source).1 ∧
      (reading.run c).2.StandsFor (reading.run source).2 := by
  rcases reading.runUnlessFault_standsFor h with ⟨rest, hrun, hrest⟩
  rw [run_eq_of_runUnlessFault hrun]
  exact ⟨rfl, hrest⟩

theorem runExactly_standsFor (reading : Reading α) {c : Chain} {source : Bytes}
    (h : c.StandsFor source) : reading.runExactly c = reading.runExactly source := by
  rcases reading.run_standsFor h with ⟨houtcome, hrest⟩
  have havailable : Source.available (reading.run c).2 = Source.available (reading.run source).2 :=
    hrest.remaining
  unfold runExactly
  rcases hc : reading.run c with ⟨error | value, rest⟩
  · rcases hsource : reading.run source with ⟨error' | value', rest'⟩
    · rw [hc, hsource] at houtcome
      exact houtcome
    · rw [hc, hsource] at houtcome
      cases houtcome
  · rcases hsource : reading.run source with ⟨error' | value', rest'⟩
    · rw [hc, hsource] at houtcome
      cases houtcome
    · rw [hc, hsource] at houtcome havailable
      cases houtcome
      simp only [havailable]

/-- What a series of readings leaves, each run on what the one before left, be it with a value or
with an error. -/
def leftAfter [Source σ] (readings : List (Σ α : Type, Reading α)) (source : σ) : σ :=
  readings.foldl (fun source reading => (reading.2.run source).2) source

/-- A series of readings keeps a chain standing for the byte string. Induction on the series. -/
theorem leftAfter_standsFor (readings : List (Σ α : Type, Reading α)) {c : Chain}
    {source : Bytes} (h : c.StandsFor source) :
    (leftAfter readings c).StandsFor (leftAfter readings source) := by
  induction readings generalizing c source with
  | nil => exact h
  | cons reading readings ih => exact ih (reading.2.run_standsFor h).2

/-! ## Failed reads -/

/-- The reads that a source offers, from which all other readings are made: some bytes, copied or
handed over, a number or what it stands for, a flag, a length. -/
inductive IsField : ⦃α : Type⦄ → Reading α → Prop where
  | exact (n : Nat) : IsField (exact n)
  | bytes (n : Nat) : IsField (bytes n)
  | number {α : Type} (width : Nat) (f : Nat → α) : IsField (f <$> natural width)
  | flag : IsField flag
  | length : IsField length
  | optionalLength : IsField optionalLength

theorem toInt_neg_of_not_nonneg {n : Int32} (h : ¬ 0 ≤ n) : n.toInt < 0 := by
  rw [Int32.le_iff_toInt_le] at h
  simpa using h

/-- A reading that starts with a take fails on it, with nothing taken, or after it. -/
theorem run_take_eq_error [Source σ] {how : Transfer} {count : Nat} {next : Bytes → Reading α}
    {source rest : σ} {error : DecodeError}
    (h : (take how count next).run source = (.error error, rest)) :
    (∃ needed, error = .truncated needed (Source.available source) ∧ rest = source) ∨
      ∃ bytes left, Source.split? how count source = some (bytes, left) ∧
        (next bytes).run left = (.error error, rest) := by
  simp only [run] at h
  cases hsplit : Source.split? how count source with
  | none =>
    simp only [hsplit] at h
    cases h
    exact Or.inl ⟨count, rfl, rfl⟩
  | some taken =>
    simp only [hsplit] at h
    exact Or.inr ⟨taken.1, taken.2, rfl, h⟩

/-- A read that fails for want of bytes takes none. The only other way to fail is a length that is
read and refused; its four bytes are taken. -/
theorem IsField.run_eq_error [Source σ] {field : Reading α} (hfield : IsField field)
    {source rest : σ} {error : DecodeError} (h : field.run source = (.error error, rest)) :
    (∃ needed, error = .truncated needed (Source.available source) ∧ rest = source) ∨
      ∃ n < 0, error = .invalidLength n ∧
        ∃ bytes, Source.split? .copied 4 source = some (bytes, rest) := by
  -- A field takes its bytes at once; what happens then depends on the field.
  cases hfield with
  | exact n | bytes n | number width f | flag =>
    -- Any bytes will do.
    rcases run_take_eq_error h with hnone | ⟨bytes, left, -, hnext⟩
    · exact Or.inl hnone
    · cases hnext
  | length =>
    rcases run_take_eq_error h with hnone | ⟨bytes, left, hsplit, hnext⟩
    · exact Or.inl hnone
    · right
      simp only [Function.comp_apply, done_bind] at hnext
      -- Only a negative length is refused.
      split at hnext
      case isTrue => cases hnext
      case isFalse hneg =>
        cases hnext
        exact ⟨_, toInt_neg_of_not_nonneg hneg, rfl, bytes, hsplit⟩
  | optionalLength =>
    rcases run_take_eq_error h with hnone | ⟨bytes, left, hsplit, hnext⟩
    · exact Or.inl hnone
    · right
      simp only [Function.comp_apply, done_bind] at hnext
      -- The length -1 is a missing value; the other negative ones are refused.
      split at hnext
      case isTrue => cases hnext
      case isFalse =>
        split at hnext
        case isTrue => cases hnext
        case isFalse hneg =>
          cases hnext
          exact ⟨_, toInt_neg_of_not_nonneg hneg, rfl, bytes, hsplit⟩

end Reading

end Groupcast
