import Groupcast.Fragment.Assembly
import Groupcast.Proofs.Chain

/-!
# Decoding does not see the cuts

However an input is cut into chunks, empty ones included, whatever is read from the chain of the
chunks is read as from the input in one piece: the same values, the same errors, the same bytes
left. What is shown of readings in general holds of messages, of headers and of the assembly of
windows.
-/

namespace Groupcast

variable {D : Dialect}

/-- The message read from a chain is that read from the byte string it stands for. -/
theorem Message.read_standsFor (r : Registry D) {c : Chain} {source : Bytes}
    (h : c.StandsFor source) :
    (read r c).1 = (read r source).1 ∧ (read r c).2.StandsFor (read r source).2 := by
  have havailable : Source.available c = Source.available source := h.remaining
  unfold read
  rw [havailable]
  exact Reading.run_standsFor _ h

/-- Windows are assembled to what they make up in a row. -/
theorem assemble_eq_readExactly_flatten (r : Registry D) (windows : List Bytes) :
    assemble r windows = Message.readExactly r windows.flatten := by
  have hchain := Chain.standsFor_ofChunks windows
  have havailable : Source.available (Chain.ofChunks windows) = Source.available windows.flatten :=
    hchain.remaining
  unfold assemble Message.readExactly
  rw [havailable]
  exact Reading.runExactly_standsFor _ hchain

namespace Chain

/-- Reading from the chain of some chunks, after any series of reads that may have failed, is
reading from the chunks in one piece. No reading runs into a fault; it comes out alike, and what it
leaves stands for what is left of the one piece. A field that fails for want of bytes takes none,
and one that refuses a length has taken its four bytes. Messages and headers are read alike, and the
chunks assemble to the message that they encode in a row. -/
theorem read_ofChunks (r : Registry D) (chunks : List Bytes)
    (before : List (Σ α : Type, Reading α)) :
    let c := Reading.leftAfter before (ofChunks chunks)
    let source := Reading.leftAfter before chunks.flatten
    (∀ {β : Type} (reading : Reading β),
      reading.runUnlessFault c = some (reading.run c) ∧
      (reading.run c).1 = (reading.run source).1 ∧
      (reading.run c).2.StandsFor (reading.run source).2) ∧
    (∀ {β : Type} {field : Reading β}, field.IsField → ∀ {error : DecodeError},
      (field.run c).1 = .error error →
      (∃ needed, error = .truncated needed source.length ∧ (field.run c).2 = c) ∨
      ∃ n < 0, error = .invalidLength n ∧ (field.run c).2.StandsFor (source.drop 4)) ∧
    ((Message.read r c).1 = (Message.read r source).1 ∧
      (Message.read r c).2.StandsFor (Message.read r source).2) ∧
    (((HeaderMap.reading r.header).run c).1 = ((HeaderMap.reading r.header).run source).1 ∧
      ((HeaderMap.reading r.header).run c).2.StandsFor
        ((HeaderMap.reading r.header).run source).2) ∧
    assemble r chunks = Message.decode r chunks.flatten := by
  intro c source
  have hstands : c.StandsFor source :=
    Reading.leftAfter_standsFor before (standsFor_ofChunks chunks)
  refine ⟨?_, ?_, Message.read_standsFor r hstands,
    Reading.run_standsFor (HeaderMap.reading r.header) hstands,
    assemble_eq_readExactly_flatten r chunks⟩
  · intro β reading
    rcases reading.runUnlessFault_standsFor hstands with ⟨rest, hrun, hrest⟩
    rw [Reading.run_eq_of_runUnlessFault hrun]
    exact ⟨hrun, rfl, hrest⟩
  · intro β field hfield error herror
    rcases hrun : field.run c with ⟨outcome, rest⟩
    rw [hrun] at herror
    obtain rfl : outcome = .error error := herror
    have havailable : Source.available c = source.length := hstands.remaining
    rcases hfield.run_eq_error hrun with ⟨needed, rfl, rfl⟩ | ⟨n, hneg, rfl, bytes, hsplit⟩
    · exact Or.inl ⟨needed, by rw [havailable], rfl⟩
    · exact Or.inr ⟨n, hneg, rfl, (hstands.of_split?_eq_some hsplit).2⟩

/-- A failed read may take bytes: a length that is refused has been read. -/
theorem length_refused_takes_bytes :
    ¬ ∀ (chunks : List Bytes) (error : DecodeError),
      (Reading.length.run (ofChunks chunks)).1 = .error error →
      (Reading.length.run (ofChunks chunks)).2 = ofChunks chunks := by
  intro h
  have hrun : Reading.length.run ([0xff, 0xff, 0xff, 0xfe] : Bytes)
      = (.error (.invalidLength (-2)), []) := rfl
  rcases Reading.run_standsFor Reading.length (standsFor_ofChunks [[0xff, 0xff], [0xff, 0xfe]]) with
    ⟨houtcome, hrest⟩
  have hkept := h _ _ (houtcome.trans (congrArg Prod.fst hrun))
  have hleft : (ofChunks [[0xff, 0xff], [0xff, 0xfe]]).remaining = 0 := by
    rw [← hkept]
    exact hrest.remaining.trans (congrArg (fun left => left.2.length) hrun)
  cases hleft

end Chain

end Groupcast
