import Groupcast.Proofs.Catalogue.Contract
import Groupcast.Proofs.Fragment.Cutting

/-!
# Decoding longer inputs

The reader of messages never looks at how much input there is, unless a value of the application
does. So what it makes of an input stands when more input follows, and an input that ends too early
is the only fault that more bytes can mend. An input that holds one message has no proper front that
does, and is no proper front of one that does.
-/

namespace Groupcast

variable {D : Dialect}

namespace Message

variable {r : Registry D}

/-- Reading is decided by the bytes taken: more bytes after the input change nothing unless it ended
too early. The fuel for the longer input is enough for both. -/
theorem read_front (h : r.Sequential) (front more : Bytes) :
    (∃ error rest, read r front = (.error error, rest) ∧ error.IsTruncated) ∨
      read r (front ++ more) = ((read r front).1, (read r front).2 ++ more) := by
  have hshort : (reading r (front ++ more).length maxNesting).run front = read r front :=
    run_reading_eq_read r (by rw [List.length_append]; exact Nat.le_add_right _ _)
  have hlong : (reading r (front ++ more).length maxNesting).run (front ++ more)
      = read r (front ++ more) := rfl
  rw [← hshort, ← hlong]
  exact Reading.run_front (reading_sequential h _ _)

/-- Bytes after an accepted input are refused as left over. -/
theorem decode_append_of_ok (h : r.Sequential) {w : Bytes} {m : Message D}
    (hdecode : decode r w = .ok m) {more : Bytes} (hmore : more ≠ []) :
    decode r (w ++ more) = .error (.trailingBytes more.length) := by
  have hread := decode_eq_ok.mp hdecode
  rcases read_front h w more with ⟨error, rest, herror, -⟩ | hlonger
  · rw [hread] at herror
    cases herror
  · -- The message is read from the longer input too, and leaves the bytes after it.
    rw [hread] at hlonger
    exact decode_of_read_ok hlonger hmore

/-- A proper front of an accepted input ends too early. -/
theorem decode_front_of_ok (h : r.Sequential) {front more : Bytes} {m : Message D}
    (hdecode : decode r (front ++ more) = .ok m) (hmore : more ≠ []) :
    ∃ needed remaining, decode r front = .error (.truncated needed remaining) := by
  have hread := decode_eq_ok.mp hdecode
  rcases read_front h front more with ⟨error, rest, herror, htruncated⟩ | hlonger
  · rcases DecodeError.isTruncated_iff.mp htruncated with ⟨needed, remaining, rfl⟩
    exact ⟨needed, remaining, decode_of_read_error herror⟩
  · -- The front would be read alike and leave what follows it.
    rw [hread] at hlonger
    have hleft : ([] : Bytes) = (read r front).2 ++ more := congrArg Prod.snd hlonger
    exact absurd (List.append_eq_nil_iff.mp hleft.symm).2 hmore

end Message

/-! ## More input -/

/-- What is read from an input stands when more follows: a message with what is left behind it, and
an error, unless the input ended too early. So a complete input has no other complete input in front
of it or behind it, and neither has a complete set of windows. -/
theorem Message.read_append {r : Registry D} (h : r.Sequential) (w : Bytes) :
    (∀ m rest more, read r w = (.ok m, rest) → read r (w ++ more) = (.ok m, rest ++ more)) ∧
    (∀ error rest more, read r w = (.error error, rest) → ¬ error.IsTruncated →
      read r (w ++ more) = (.error error, rest ++ more)) ∧
    (∀ m, decode r w = .ok m →
      (∀ front more, w = front ++ more → more ≠ [] →
        ∃ needed remaining, decode r front = .error (.truncated needed remaining)) ∧
      ∀ more, more ≠ [] → decode r (w ++ more) = .error (.trailingBytes more.length)) ∧
    (∀ windows m, assemble r windows = .ok m →
      (∀ front more, windows = front ++ more → more.flatten ≠ [] →
        ∃ needed remaining, assemble r front = .error (.truncated needed remaining)) ∧
      ∀ more, more.flatten ≠ [] →
        assemble r (windows ++ more) = .error (.trailingBytes more.flatten.length)) := by
  refine ⟨?_, ?_, ?_, ?_⟩
  · intro m rest more hread
    rcases read_front h w more with ⟨error, left, herror, -⟩ | hlonger
    · rw [hread] at herror
      cases herror
    · rw [hlonger, hread]
  · intro error rest more hread hdecided
    rcases read_front h w more with ⟨error', left, herror, htruncated⟩ | hlonger
    · rw [hread] at herror
      cases herror
      exact absurd htruncated hdecided
    · rw [hlonger, hread]
  · intro m hdecode
    refine ⟨?_, fun more hmore => decode_append_of_ok h hdecode hmore⟩
    rintro front more rfl hmore
    exact decode_front_of_ok h hdecode hmore
  · -- Windows are assembled to what they make up in a row.
    intro windows m hassemble
    rw [assemble_eq_readExactly_flatten] at hassemble
    refine ⟨?_, ?_⟩
    · rintro front more rfl hmore
      rw [List.flatten_append] at hassemble
      rw [assemble_eq_readExactly_flatten]
      exact decode_front_of_ok h hassemble hmore
    · intro more hmore
      rw [assemble_eq_readExactly_flatten, List.flatten_append]
      exact decode_append_of_ok h hassemble hmore

/-- A message without payload, with one byte too many and with one too few. -/
theorem Message.read_append_blank :
    decode Catalogue.registry [2, 0, 0, 0, 0, 0, 0, 0, 0, 0] = .ok (ofBody .empty) ∧
      decode Catalogue.registry [2, 0, 0, 0, 0, 0, 0, 0, 0, 0, 7] = .error (.trailingBytes 1) ∧
      ∃ needed remaining, decode Catalogue.registry [2, 0, 0, 0, 0, 0, 0, 0, 0]
        = .error (.truncated needed remaining) := by
  have hdecode : decode Catalogue.registry [2, 0, 0, 0, 0, 0, 0, 0, 0, 0] = .ok (ofBody .empty) :=
    rfl
  obtain ⟨hfront, hmore⟩ := (read_append (Catalogue.sequential_registry Catalogue.registry)
    [2, 0, 0, 0, 0, 0, 0, 0, 0, 0]).2.2.1 _ hdecode
  exact ⟨hdecode, hmore [7] (by simp), hfront [2, 0, 0, 0, 0, 0, 0, 0, 0] [0] rfl (by simp)⟩

end Groupcast
