import Groupcast.Fragment.Fragmenter
import Groupcast.Proofs.Fragment.Cutting
import Groupcast.Proofs.Message.ExactSize
import Groupcast.Proofs.Message.RoundTrip

/-!
# Fragmentation loses nothing

A message that can be encoded can be split, and each of its fragments can be encoded and is decoded
by every registry. The windows that the decoded fragments hold make up the encoding of the message,
so assembling the fragments is decoding that encoding, with whatever outcome.

A fragment writes the whole message through a clip, so this brings together the declared sizes
(which the windows are planned from), the clips, the round trip of fragments as messages, and the
decoding of inputs in chunks.
-/

namespace Groupcast

variable {D : Dialect}

/-- If each step succeeds, so does the row of them, with the results in order. -/
theorem mapM_eq_ok {f : α → Except ε β} {g : α → β} {items : List α}
    (h : ∀ item ∈ items, f item = .ok (g item)) : items.mapM f = .ok (items.map g) := by
  induction items with
  | nil => rfl
  | cons item items ih =>
    rw [List.mapM_cons, h item List.mem_cons_self,
      ih fun item hmem => h item (List.mem_cons_of_mem _ hmem)]
    rfl

/-! ## Fragments -/

/-- Every registry restores the tags that fragments carry. -/
theorem FragmentTag.readsBack {r : Registry D} (hreach : r.Reachable) (tag : FragmentTag) :
    Streamable.ReadsBack r.header (.tag tag : Record D) := by
  refine ⟨.tag .blank, hreach.header_tag, ?_⟩
  have hread : (Streamable.refill FragmentTag.blank).Restores (Streamable.pieces tag).flatten tag :=
    (Reading.restores_u64 tag.id).bind ((Reading.restores_u32 tag.index).bind
      ((Reading.restores_u32 tag.count).bind ((Reading.restores_flag tag.needsDecoding).map _)))
  exact hread.map (Record.tag (D := D))

/-- The envelope of a fragment can always be written: its only header is the tag. -/
theorem result_emit_fragment_envelope (whole : Message D) (layer : HeaderId) (tag : FragmentTag)
    (window : Window) : ∃ w, (whole.fragment layer tag window).envelope.emit.result = .ok w := by
  have hwrites : ∀ e : Envelope D, e.headers = HeaderMap.empty.put layer (.tag tag) →
      e.emit.failure = none := by
    rintro ⟨dest, src, flags, transient, headers⟩ rfl
    cases dest <;> cases src <;> rfl
  exact ⟨_, Emission.result_eq_ok.mpr ⟨hwrites _ rfl, rfl⟩⟩

/-- If a fragment can be encoded, every registry decodes it to its normal form. -/
theorem Message.decode_of_encode_fragment {whole : Message D} {layer : HeaderId} {tag : FragmentTag}
    {window : Window} {r : Registry D} (hreach : r.Reachable) {w : Bytes}
    (hencode : (whole.fragment layer tag window).encode = .ok w) :
    decode r w = .ok (whole.fragment layer tag window).norm := by
  rcases encode_eq_ok.mp hencode with ⟨-, hwrite⟩
  have hreadable : (whole.fragment layer tag window).Readable r := by
    constructor
    case right => trivial
    intro entry hentry
    obtain rfl : entry = (layer, .tag tag) := List.mem_singleton.mp hentry
    exact FragmentTag.readsBack hreach tag
  exact (restorable hreach _ hreadable).decode trivial hwrite

section Fragment

variable {whole : Message D} {w : Bytes} (hemit : whole.emit.result = .ok w) {window : Window}
  (hinside : window.stop ≤ w.length) (hposition : w.length ≤ maxPosition)

include hemit hinside hposition

/-- A window that lies in the encoding of a message is cut out of it. -/
theorem Message.result_window :
    (whole.emit.window window).result = .ok (window.cut w) := by
  refine Emission.result_window_eq_ok.mpr ⟨w, hemit, ?_, ?_⟩
  · exact (Clip.passed_eq_cut (Nat.le_trans hinside hposition) w).symm
  · have hstop : window.stop = window.offset + window.length := rfl
    rw [Window.cut, List.length_take, List.length_drop]
    omega

/-- The normal form of a fragment holds its window of the encoding. -/
theorem Message.norm_fragment (layer : HeaderId) (tag : FragmentTag) :
    (whole.fragment layer tag window).norm
      = .mk (whole.fragment layer tag window).envelope
          (.received (View.whole (window.cut w))) := by
  simp only [Message.fragment, Message.norm, Body.norm, Message.envelope,
    result_window hemit hinside hposition]

/-- A fragment is encoded if its window lies in the encoding of the message and has a length that
can be written. -/
theorem Message.encode_fragment (layer : HeaderId) (tag : FragmentTag)
    (hlength : window.length ≤ Emission.maxLength) :
    (whole.fragment layer tag window).encode
      = .ok (whole.fragment layer tag window).emit.bytes := by
  rcases result_emit_fragment_envelope whole layer tag window with ⟨u, hu⟩
  have hwindow := result_window hemit hinside hposition
  refine encode_eq_ok.mpr ⟨⟨_, rfl⟩, Emission.result_eq_ok.mpr ⟨?_, rfl⟩⟩
  have hwrite : (whole.fragment layer tag window).emit.result
      = .ok ([BodyKind.toByte .fragment] ++ (u ++ (Bytes.bigEndian 4 window.length
        ++ window.cut w))) := by
    refine Message.result_emit_mk_eq_ok.mpr ⟨u, _, hu, ?_, rfl⟩
    exact Emission.result_length_append_eq_ok.mpr ⟨hlength, _, hwindow, rfl⟩
  exact (Emission.result_eq_ok.mp hwrite).1

/-- Every registry decodes a fragment to its normal form. -/
theorem Message.decode_fragment (layer : HeaderId) (tag : FragmentTag)
    (hlength : window.length ≤ Emission.maxLength) {r : Registry D} (hreach : r.Reachable) :
    decode r (whole.fragment layer tag window).emit.bytes
      = .ok (whole.fragment layer tag window).norm := by
  have hencode := encode_fragment hemit hinside hposition layer tag hlength
  exact decode_of_encode_fragment hreach hencode

end Fragment

/-! ## Batches -/

/-- Windows of a size that can be written cover positions only, if they can be counted. -/
theorem Window.le_maxPosition_of_count {total most : Nat} (hpos : 0 < most)
    (hmost : most ≤ Emission.maxLength) (hcount : count total most < UInt32.size) :
    total ≤ maxPosition := by
  have htotal := count_mul_ge total hpos
  have hbound : count total most * most ≤ UInt32.size * Emission.maxLength :=
    Nat.mul_le_mul (Nat.le_of_lt hcount) hmost
  have hproduct : UInt32.size * Emission.maxLength ≤ maxPosition := by decide
  omega

namespace Fragmenter

/-- The windows into which an encoding is cut. -/
def tiles (f : Fragmenter) (w : Bytes) : List Window :=
  Window.tile 0 w.length f.config.windowLength

/-- The fragment in one place of a batch: its window, and its number among so many. -/
def fragmentAt (f : Fragmenter) (m : Message D) (count : Nat) (place : Window × Nat) : Message D :=
  m.fragment f.config.layer ⟨f.next, UInt32.ofNat place.2, UInt32.ofNat count, true⟩ place.1

/-- Fragments, each told by its window and its place. -/
theorem fragments_eq_map (f : Fragmenter) (m : Message D) (windows : List Window) :
    f.fragments f.next m windows = windows.zipIdx.map (f.fragmentAt m windows.length) :=
  List.mapIdx_eq_zipIdx_map

/-- The windows of a message that can be encoded tile its encoding. -/
theorem windows_eq_ok {f : Fragmenter} {m : Message D} {w : Bytes} (hkeeps : m.KeepsSize)
    (hemit : m.emit.result = .ok w)
    (hcount : Window.count w.length f.config.windowLength < UInt32.size) :
    f.windows m = .ok (f.tiles w) := by
  unfold windows
  rw [Message.sizeExact m hkeeps w hemit]
  simp only [hcount, if_true]
  rfl

/-- The windows of a message that is split are planned from its size, and can be counted. -/
theorem of_windows_eq_ok {f : Fragmenter} {m : Message D} {windows : List Window}
    (h : f.windows m = .ok windows) : ∃ size, m.encodedSize = .ok size ∧
      Window.count size f.config.windowLength < UInt32.size ∧
      windows = Window.tile 0 size f.config.windowLength := by
  unfold Fragmenter.windows at h
  cases hsize : m.encodedSize with
  | error error =>
    rw [hsize] at h
    cases h
  | ok size =>
    simp only [hsize] at h
    split at h
    case isTrue hcount =>
      cases h
      exact ⟨size, rfl, hcount, rfl⟩
    case isFalse => cases h

/-- A batch has the next number, and a fragment for each of the windows planned. -/
theorem of_split_eq_ok {f : Fragmenter} {m : Message D} {b : Batch D}
    (h : (f.split m).1 = .ok b) : b.id = f.next ∧ ∃ windows, f.windows m = .ok windows ∧
      b.fragments = windows.zipIdx.map (f.fragmentAt m windows.length) := by
  unfold split at h
  split at h
  case h_1 => cases h
  case h_2 windows hwindows =>
    cases h
    exact ⟨rfl, windows, hwindows, f.fragments_eq_map m windows⟩

/-- A message that can be encoded is split into a fragment for each window of its encoding. -/
theorem split_eq_ok {f : Fragmenter} {m : Message D} {w : Bytes} (hkeeps : m.KeepsSize)
    (hemit : m.emit.result = .ok w)
    (hcount : Window.count w.length f.config.windowLength < UInt32.size) :
    (f.split m).1
      = .ok ⟨f.next, (f.tiles w).zipIdx.map (f.fragmentAt m (f.tiles w).length)⟩ := by
  unfold split
  rw [windows_eq_ok hkeeps hemit hcount]
  simp only [allocate, fragments_eq_map]

/-- Every window lies in the encoding, and is no longer than windows may be. -/
theorem length_le_of_mem_tiles {f : Fragmenter} {w : Bytes} {place : Window × Nat}
    (hplace : place ∈ (f.tiles w).zipIdx) :
    place.1.length ≤ f.config.windowLength ∧ place.1.stop ≤ w.length := by
  have hwindow : place.1 ∈ f.tiles w := List.fst_mem_of_mem_zipIdx hplace
  rcases Window.mem_tile hwindow with ⟨hmost, -, hstop⟩
  rw [Nat.zero_add] at hstop
  exact ⟨hmost, hstop⟩

/-- In the order of their places the windows make up the encoding. -/
theorem flatten_cut_tiles (f : Fragmenter) (w : Bytes) :
    ((f.tiles w).zipIdx.map fun place => place.1.cut w).flatten = w := by
  calc ((f.tiles w).zipIdx.map fun place => place.1.cut w).flatten
      = (((f.tiles w).zipIdx.map Prod.fst).map (·.cut w)).flatten := by rw [List.map_map]; rfl
    _ = ((f.tiles w).map (·.cut w)).flatten := by rw [List.zipIdx_map_fst]
    _ = w := Window.flatten_cut_tile w f.config.windowLength_pos

/-- A message that can be encoded is split, whatever the length of the windows, as long as their
lengths can be written and they can be counted. Every fragment can be encoded, and is decoded by
every registry to a received window with the addresses and lasting flags of the message. In the
order of the batch the windows make up the encoding, and assembling the fragments is decoding it. -/
theorem split_lossless {m : Message D} (hkeeps : m.KeepsSize) {w : Bytes}
    (hencode : m.encode = .ok w) (f : Fragmenter)
    (hlength : f.config.windowLength ≤ Emission.maxLength)
    (hcount : Window.count w.length f.config.windowLength < UInt32.size) :
    ∃ batch encodings received windows, (f.split m).1 = .ok batch ∧
      batch.fragments.mapM Message.encode = .ok encodings ∧
      (∀ s : Registry D, s.Reachable → encodings.mapM (Message.decode s) = .ok received) ∧
      (∀ fragment ∈ received, fragment.envelope.dest = m.envelope.dest ∧
        fragment.envelope.src = m.envelope.src ∧ fragment.envelope.flags = m.envelope.flags ∧
        ∃ view, fragment.body = .received view) ∧
      received.mapM Message.receivedWindow = .ok windows ∧ windows.flatten = w ∧
      ∀ r : Registry D, assembleFragments r received = Message.decode r w := by
  rcases Message.encode_eq_ok.mp hencode with ⟨-, hemit⟩
  have hposition : w.length ≤ maxPosition :=
    Window.le_maxPosition_of_count f.config.windowLength_pos hlength hcount
  let fragment : Window × Nat → Message D := f.fragmentAt m (f.tiles w).length
  have hfits : ∀ place ∈ (f.tiles w).zipIdx, place.1.length ≤ Emission.maxLength := by
    intro place hplace
    exact Nat.le_trans (length_le_of_mem_tiles hplace).1 hlength
  have hinside : ∀ place ∈ (f.tiles w).zipIdx, place.1.stop ≤ w.length := by
    intro place hplace
    exact (length_le_of_mem_tiles hplace).2
  have hnorm : ∀ place ∈ (f.tiles w).zipIdx, (fragment place).norm
      = .mk (fragment place).envelope (.received (View.whole (place.1.cut w))) := by
    intro place hplace
    exact Message.norm_fragment hemit (hinside place hplace) hposition _ _
  have hwindows : ((f.tiles w).zipIdx.map fun place => (fragment place).norm).mapM
      Message.receivedWindow = .ok ((f.tiles w).zipIdx.map fun place => place.1.cut w) := by
    rw [List.mapM_map]
    apply mapM_eq_ok
    intro place hplace
    simp only [Function.comp, hnorm place hplace, Message.receivedWindow, Message.body,
      View.data_whole]
  refine ⟨_, (f.tiles w).zipIdx.map fun place => (fragment place).emit.bytes,
    (f.tiles w).zipIdx.map fun place => (fragment place).norm, _,
    split_eq_ok hkeeps hemit hcount, ?_, ?_, ?_, hwindows, f.flatten_cut_tiles w, ?_⟩
  · -- The fragments are encoded one by one.
    rw [List.mapM_map]
    apply mapM_eq_ok
    intro place hplace
    exact Message.encode_fragment hemit (hinside place hplace) hposition _ _ (hfits place hplace)
  · -- What is decoded is their normal forms, by any registry.
    intro s hreach
    rw [List.mapM_map]
    apply mapM_eq_ok
    intro place hplace
    exact Message.decode_fragment hemit (hinside place hplace) hposition _ _ (hfits place hplace)
      hreach
  · -- A normal form has the envelope that the fragment took over from the message.
    intro received hreceived
    rcases List.mem_map.mp hreceived with ⟨place, hplace, rfl⟩
    rw [hnorm place hplace]
    exact ⟨rfl, rfl, rfl, _, rfl⟩
  · -- The windows received are assembled to the encoding.
    intro r
    unfold assembleFragments
    rw [hwindows]
    show assemble r _ = _
    rw [assemble_eq_readExactly_flatten, f.flatten_cut_tiles w]
    rfl

/-- The split of a composite into windows of 20 bytes, which cut through its header and its
children. -/
theorem split_lossless_sample : ∃ batch encodings received windows,
    ((startingAt ⟨20, 36, by decide⟩ 0).split Catalogue.sample).1 = .ok batch ∧
      batch.fragments.mapM Message.encode = .ok encodings ∧
      encodings.mapM (Message.decode Catalogue.registry) = .ok received ∧
      received.mapM Message.receivedWindow = .ok windows ∧
      Catalogue.sample.encode = .ok windows.flatten ∧
      assembleFragments Catalogue.registry received
        = Message.decode Catalogue.registry windows.flatten := by
  obtain ⟨batch, encodings, received, windows, hsplit, hencodings, hreceived, -, hwindows, hflatten,
    hassemble⟩ := split_lossless Catalogue.sample_keepsSize Catalogue.encode_sample
      (startingAt ⟨20, 36, by decide⟩ 0) (by decide) (by decide)
  refine ⟨batch, encodings, received, windows, hsplit, hencodings,
    hreceived _ Catalogue.registry_reachable, hwindows, ?_, ?_⟩
  · rw [hflatten]
    exact Catalogue.encode_sample
  · rw [hflatten]
    exact hassemble _

end Fragmenter

end Groupcast
