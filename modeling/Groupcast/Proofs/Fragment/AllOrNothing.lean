import Groupcast.Proofs.Fragment.Arrival
import Groupcast.Proofs.Message.DeclaredSize
import Groupcast.Proofs.Message.Excerpt

/-!
# Batches that are all or nothing

The windows of a batch are planned from the declared size of the message, and nothing is written
until the fragments are. So a message that cannot be written may be split for all that. But every
fragment writes the whole message through a clip, and comes upon the error of the message wherever
its own window lies; and if there is no error, the windows that were planned lie in what is written.
The fragments of a batch can all be encoded, or none of them can.
-/

namespace Groupcast

variable {D : Dialect}

/-- A fragment of a message that cannot be written fails with the error of the message, wherever the
window lies. -/
theorem Message.encode_fragment_of_error {whole : Message D} {error : EncodeError}
    (hwhole : whole.emit.result = .error error) (layer : HeaderId) (tag : FragmentTag)
    {window : Window} (hlength : window.length ≤ Emission.maxLength) :
    (whole.fragment layer tag window).encode = .error error := by
  have hwindow : (whole.emit.window window).result = .error error :=
    Emission.result_eq_error.mpr
      (Emission.failure_window_of_failure (Emission.result_eq_error.mp hwhole))
  have hbody : (Body.excerpt whole window).emit.result = .error error :=
    Emission.result_append_of_ok_of_error (Emission.result_length_eq_ok.mpr ⟨hlength, rfl⟩) hwindow
  rcases result_emit_fragment_envelope whole layer tag window with ⟨u, henvelope⟩
  -- The kind and the envelope are written before the error comes up.
  have hemit : (whole.fragment layer tag window).emit.result = .error error :=
    Emission.result_append_of_ok_of_error (Emission.result_byte _)
      (Emission.result_append_of_ok_of_error henvelope hbody)
  exact hemit

namespace Fragmenter

variable {f : Fragmenter} {m : Message D} {b : Batch D}

/-- Every fragment of a batch is of the message, and its window is no longer than windows may be. -/
theorem exists_window_of_mem_split (hsplit : (f.split m).1 = .ok b) {part : Message D}
    (hpart : part ∈ b.fragments) : ∃ tag window,
      part = m.fragment f.config.layer tag window ∧ window.length ≤ f.config.windowLength := by
  rcases of_split_eq_ok hsplit with ⟨-, windows, hwindows, hfragments⟩
  rcases of_windows_eq_ok hwindows with ⟨size, -, -, rfl⟩
  rw [hfragments] at hpart
  rcases List.mem_map.mp hpart with ⟨place, hplace, rfl⟩
  have hwindow : place.1 ∈ Window.tile 0 size f.config.windowLength :=
    List.fst_mem_of_mem_zipIdx hplace
  exact ⟨_, place.1, rfl, (Window.mem_tile hwindow).1⟩

/-- A batch is all or nothing. If the message can be written, every fragment can be encoded; if it
cannot, encoding any of the fragments fails with the error of the message. So there is no batch in
which some fragments can be encoded and others cannot. -/
theorem split_allOrNothing (hkeeps : m.KeepsSize)
    (hlength : f.config.windowLength ≤ Emission.maxLength) (hsplit : (f.split m).1 = .ok b) :
    ((∃ w, m.emit.result = .ok w) ∧ (∀ part ∈ b.fragments, ∃ w, part.encode = .ok w) ∨
      ∃ error, m.emit.result = .error error ∧ ∀ part ∈ b.fragments, part.encode = .error error) ∧
    ¬ ∃ part ∈ b.fragments, ∃ other ∈ b.fragments,
      (∃ w, part.encode = .ok w) ∧ ∃ error, other.encode = .error error := by
  cases hemit : m.emit.result with
  | ok w =>
    have hencode : m.encode = .ok w := Message.encode_eq_ok_iff_emit.mpr hemit
    have hall : b.Encodable := (encodable_of_split hkeeps hencode hlength hsplit).1
    refine ⟨Or.inl ⟨⟨w, rfl⟩, hall⟩, ?_⟩
    rintro ⟨-, -, other, hother, -, error, herror⟩
    rcases hall other hother with ⟨v, hv⟩
    rw [hv] at herror
    cases herror
  | error error =>
    have hnone : ∀ part ∈ b.fragments, part.encode = .error error := by
      intro part hpart
      rcases exists_window_of_mem_split hsplit hpart with ⟨tag, window, rfl, hwindow⟩
      exact Message.encode_fragment_of_error hemit _ tag (Nat.le_trans hwindow hlength)
    refine ⟨Or.inr ⟨error, rfl, hnone⟩, ?_⟩
    rintro ⟨part, hpart, -, -, ⟨v, hv⟩, -⟩
    rw [hnone part hpart] at hv
    cases hv

/-- A message that has a size and cannot be written: a composite around a window that goes beyond
what it is cut from. -/
def sizedOnly : Message Catalogue.dialect :=
  .ofBody (.composite [.ofBody (.excerpt (.ofBody .empty) ⟨5, 20⟩)])

/-- Windows of 20 bytes, of a message that can be written and of one that cannot. -/
theorem split_allOrNothing_samples :
    (∃ b, (wrapping.split Catalogue.sample).1 = .ok b ∧ b.fragments.length = 4 ∧
      ∀ part ∈ b.fragments, ∃ w, part.encode = .ok w) ∧
    ∃ b, (wrapping.split sizedOnly).1 = .ok b ∧ b.fragments.length = 3 ∧
      ∀ part ∈ b.fragments, part.encode = .error (.windowOutOfRange ⟨5, 20⟩ 5) := by
  have hlength : wrapping.config.windowLength ≤ Emission.maxLength := by decide
  constructor
  · have hwritten := (Message.encode_eq_ok.mp Catalogue.encode_sample).2
    refine ⟨_, rfl, rfl, ?_⟩
    rcases (split_allOrNothing Catalogue.sample_keepsSize hlength rfl).1 with
      ⟨-, hall⟩ | ⟨error, herror, -⟩
    · exact hall
    · rw [hwritten] at herror
      cases herror
  · have hkeeps : sizedOnly.KeepsSize := by
      refine ⟨?_, ⟨?_, trivial⟩, trivial⟩
      all_goals exact fun entry hentry => absurd hentry List.not_mem_nil
    have hfails : sizedOnly.emit.result = .error (.windowOutOfRange ⟨5, 20⟩ 5) := rfl
    refine ⟨_, rfl, rfl, ?_⟩
    rcases (split_allOrNothing hkeeps hlength rfl).1 with ⟨⟨w, hw⟩, -⟩ | ⟨error, herror, hnone⟩
    · rw [hfails] at hw
      cases hw
    · rw [hfails] at herror
      cases herror
      exact hnone

end Fragmenter

end Groupcast
