import Groupcast.Message.Edit
import Groupcast.Proofs.Fragment.AllOrNothing
import Groupcast.Proofs.HeaderMap.Slots

/-!
# Fragments fit their frame

A configuration that is derived from the size of a frame splits messages into fragments that fit the
frame, with `headerAllowance` bytes to spare for headers of other layers. What a fragment adds to
its window is the same for all messages but for the addresses: `fragmentOverhead`, if both are
there.
-/

namespace Groupcast

variable {D : Dialect}

/-! ## Sizes of headers -/

namespace HeaderMap

variable {α : Type} [Streamable α]

/-- Bytes that headers in a row declare for themselves, each with its layer and its kind. -/
def declaredSize (entries : List (HeaderId × α)) : Nat :=
  (entries.map fun entry => 4 + Streamable.size entry.2).sum

/-- What headers declare for themselves is what they take. -/
theorem length_entriesBytes {entries : List (HeaderId × α)}
    (hkeeps : ∀ entry ∈ entries, Streamable.KeepsSize entry.2) :
    (entriesBytes entries).length = declaredSize entries := by
  have hentry : ∀ entry ∈ entries, (entryBytes entry).length = 4 + Streamable.size entry.2 := by
    intro entry hmem
    have hsize : Streamable.size entry.2 = (Streamable.pieces entry.2).flatten.length :=
      hkeeps entry hmem
    simp only [entryBytes, List.length_append, Bytes.length_bigEndian, hsize]
    omega
  rw [entriesBytes, List.length_flatMap, List.map_congr_left hentry]
  rfl

/-- Headers that are put one after the other declare no more than all of them together. -/
theorem declaredSize_ofList_le {entries : List (HeaderId × α)}
    (hkeeps : ∀ entry ∈ entries, Streamable.KeepsSize entry.2) :
    declaredSize (ofList entries).entries ≤ declaredSize entries := by
  have hkept : ∀ entry ∈ (ofList entries).entries, Streamable.KeepsSize entry.2 := by
    intro entry hmem
    rcases mem_entries_putAll hmem with hmem | hmem
    · exact absurd hmem List.not_mem_nil
    · exact hkeeps entry hmem
  rw [← length_entriesBytes hkeeps, ← length_entriesBytes hkept]
  exact (length_entriesBytes_putAll empty entries).1.trans (Nat.le_of_eq (Nat.zero_add _))

omit [Streamable α] in
/-- A layer that no header is put for keeps its place in front. -/
theorem entries_putAll_cons {m others : HeaderMap α} {first : HeaderId × α}
    (hentries : m.entries = first :: others.entries) {added : List (HeaderId × α)}
    (hadded : ∀ entry ∈ added, entry.1 ≠ first.1) :
    (m.putAll added).entries = first :: (others.putAll added).entries := by
  induction added generalizing m others with
  | nil => exact hentries
  | cons entry added ih =>
    rw [List.forall_mem_cons] at hadded
    have hother : entry.1 ∉ [first].map Prod.fst := by simpa using hadded.1
    have hput : (m.put entry.1 entry.2).entries
        = first :: (others.put entry.1 entry.2).entries := by
      calc (m.put entry.1 entry.2).entries
          = (Slots.put m.entries entry.1 entry.2).1 := by rw [put_entries]
        _ = (Slots.put ([first] ++ others.entries) entry.1 entry.2).1 := by rw [hentries]; rfl
        _ = first :: (Slots.put others.entries entry.1 entry.2).1 := by
          rw [Slots.put_append entry.2 hother]
          rfl
        _ = first :: (others.put entry.1 entry.2).entries := by rw [put_entries]
    exact ih hput hadded.2

end HeaderMap

/-! ## Sizes of envelopes -/

/-- An address takes its flag and 16 bytes, which are saved if it is absent. -/
theorem Address.exists_result_emit (a : Option Address) :
    ∃ w, (emit a).result = .ok w ∧ w.length + 16 * [a].count none = 1 + 16 := by
  cases a with
  | none => exact ⟨_, rfl, rfl⟩
  | some a =>
    refine ⟨_, Emission.result_append_eq_ok.mpr
      ⟨_, _, Emission.result_flag true, Emission.result_piece _, rfl⟩, ?_⟩
    simp [Bytes.length_bigEndian]

/-- How many of the two addresses are absent. -/
def Envelope.absent (e : Envelope D) : Nat :=
  [e.dest, e.src].count none

/-- Every envelope can be written, and takes the same bytes but for the headers and for the
addresses that are absent. -/
theorem Envelope.exists_result_emit (e : Envelope D) :
    ∃ w, e.emit.result = .ok w ∧ w.length + 16 * e.absent
      = 2 + 1 + 2 * (1 + 16) + 4 + (HeaderMap.entriesBytes e.headers.entries).length := by
  rcases Address.exists_result_emit e.dest with ⟨dest, hdest, hdestLength⟩
  rcases Address.exists_result_emit e.src with ⟨src, hsrc, hsrcLength⟩
  have hheaders := HeaderMap.result_emit_of_lt e.headers.length_entries_lt
  have hflags := Emission.result_piece (Bytes.bigEndian 2 e.flags.toNat)
  have htransient := Emission.result_piece (Bytes.bigEndian 1 e.transient.toNat)
  refine ⟨_, Emission.result_append_eq_ok.mpr ⟨_, _, Emission.result_append_eq_ok.mpr ⟨_, _,
    Emission.result_append_eq_ok.mpr ⟨_, _, Emission.result_append_eq_ok.mpr
      ⟨_, _, hflags, htransient, rfl⟩, hdest, rfl⟩, hsrc, rfl⟩, hheaders, rfl⟩, ?_⟩
  have habsent : e.absent = [e.dest].count none + [e.src].count none := by
    rw [absent, ← List.count_append, List.singleton_append]
  simp only [List.length_append, Bytes.length_bigEndian, HeaderMap.blockBytes, habsent]
  omega

/-! ## Sizes of fragments -/

/-- A message can be encoded, with any envelope, if its body can be written. -/
theorem Message.exists_encode (e : Envelope D) {body : Body D} {v : Bytes}
    (hbody : body.emit.result = .ok v) :
    ∃ w, (mk e body).encode = .ok w ∧ w.length + 16 * e.absent
      = 1 + (2 + 1 + 2 * (1 + 16) + 4) + (HeaderMap.entriesBytes e.headers.entries).length
        + v.length := by
  rcases e.exists_result_emit with ⟨u, henvelope, hlength⟩
  refine ⟨_, encode_eq_ok_iff_emit.mpr (result_emit_mk_eq_ok.mpr ⟨u, v, henvelope, hbody, rfl⟩), ?_⟩
  simp only [List.length_append, List.length_singleton]
  omega

/-- A window that is written takes the bytes in it and their number. -/
theorem Body.length_of_emit_excerpt {whole : Message D} {window : Window} {v : Bytes}
    (h : (excerpt whole window).emit.result = .ok v) : v.length = 4 + window.length := by
  have hsize : (excerpt whole window).wireSize = .ok v.length :=
    wireSize_of_emit (excerpt whole window) trivial h
  exact (Except.ok.inj hsize).symm

/-- A fragment is encoded if its window can be written, whatever headers are put into it: then it
takes its overhead, its window and the headers put last under each layer, and saves the addresses
that are absent. -/
theorem Message.exists_encode_fragment {whole : Message D} {layer : HeaderId} {window : Window}
    {v : Bytes} (hwindow : (Body.excerpt whole window).emit.result = .ok v) (tag : FragmentTag)
    {added : List (HeaderId × Record D)}
    (hadded : ∀ entry ∈ added, entry.1 ≠ layer ∧ Streamable.KeepsSize entry.2) :
    ∃ w, ((whole.fragment layer tag window).mapHeaders (·.putAll added)).encode = .ok w ∧
      w.length + 16 * whole.envelope.absent = fragmentOverhead + window.length
        + HeaderMap.declaredSize (HeaderMap.ofList added).entries := by
  have hentries : (HeaderMap.empty.put layer (Record.tag (D := D) tag)).entries
      = (layer, Record.tag tag) :: HeaderMap.empty.entries := rfl
  have hput := HeaderMap.entries_putAll_cons hentries fun entry hentry => (hadded entry hentry).1
  have hkept : ∀ entry ∈ (HeaderMap.empty.putAll added).entries,
      Streamable.KeepsSize entry.2 := by
    intro entry hmem
    rcases HeaderMap.mem_entries_putAll hmem with hmem | hmem
    · exact absurd hmem List.not_mem_nil
    · exact (hadded entry hmem).2
  have htag : (HeaderMap.entryBytes (layer, Record.tag (D := D) tag)).length
      = 2 + 2 + FragmentTag.size := by
    simp [HeaderMap.entryBytes, Streamable.pieces, FragmentTag.size]
  rcases exists_encode ((whole.fragment layer tag window).mapHeaders (·.putAll added)).envelope
    hwindow with ⟨w, hencode, hlength⟩
  refine ⟨w, hencode, ?_⟩
  have hheaders : ((whole.fragment layer tag window).mapHeaders (·.putAll added)).envelope.headers
      = (HeaderMap.empty.put layer (Record.tag tag)).putAll added := rfl
  have habsent : ((whole.fragment layer tag window).mapHeaders (·.putAll added)).envelope.absent
      = whole.envelope.absent := rfl
  rw [hheaders, hput, habsent, HeaderMap.entriesBytes_cons, List.length_append, htag,
    HeaderMap.length_entriesBytes hkept, Body.length_of_emit_excerpt hwindow] at hlength
  rw [hlength, fragmentOverhead]
  show _ = _ + HeaderMap.declaredSize (HeaderMap.empty.putAll added).entries
  omega

/-! ## Frames -/

/-- A frame has a configuration if there is room in it for a window of any length, and all of this
room is for windows. -/
theorem FragmentConfig.ofFrame_eq_some_iff {frame : Nat} {layer : HeaderId} {c : FragmentConfig} :
    ofFrame frame layer = some c ↔
      frame = fragmentOverhead + headerAllowance + c.windowLength ∧ c.layer = layer := by
  rcases c with ⟨windowLength, layer', hpos⟩
  simp only [ofFrame]
  split
  case isTrue room =>
    simp only [Option.some.injEq, mk.injEq]
    constructor
    · rintro ⟨rfl, rfl⟩
      exact ⟨by omega, rfl⟩
    · rintro ⟨hframe, rfl⟩
      exact ⟨by omega, rfl⟩
  case isFalse full =>
    constructor
    · rintro ⟨⟩
    · rintro ⟨hframe, -⟩
      exact absurd hframe (by omega)

theorem FragmentConfig.ofFrame_eq_none_iff {frame : Nat} {layer : HeaderId} :
    ofFrame frame layer = none ↔ frame ≤ fragmentOverhead + headerAllowance := by
  simp only [ofFrame]
  split
  case isTrue room => simpa using room
  case isFalse full => simpa using full

namespace Fragmenter

/-- A frame has a configuration unless it has no more room than the overhead of a fragment and 32
bytes. Every fragment that is made with the configuration, of any message, and can be encoded takes
its overhead and its window, less 16 bytes for each absent address. So it takes no more than the
ceiling, which is 32 bytes below the frame; and when other layers put headers into it that come to
32 bytes at most, it still can be encoded and fits the frame. -/
theorem fragments_fit_frame (frame : Nat) (layer : HeaderId) :
    (FragmentConfig.ofFrame frame layer = none ↔ frame ≤ fragmentOverhead + 32) ∧
    ∀ f : Fragmenter, FragmentConfig.ofFrame frame layer = some f.config →
      f.config.layer = layer ∧ f.config.ceiling + 32 ≤ frame ∧
      ∀ (m : Message D) (b : Batch D), (f.split m).1 = .ok b →
        ∀ part ∈ b.fragments, ∀ w, part.encode = .ok w →
          (∃ window, part.body = .excerpt m window ∧
            w.length + 16 * part.envelope.absent = fragmentOverhead + window.length) ∧
          w.length ≤ f.config.ceiling ∧
          ∀ added : List (HeaderId × Record D),
            (∀ entry ∈ added, entry.1 ≠ layer ∧ Streamable.KeepsSize entry.2) →
              HeaderMap.declaredSize (HeaderMap.ofList added).entries
                ≤ HeaderMap.declaredSize added ∧
              (HeaderMap.declaredSize (HeaderMap.ofList added).entries ≤ 32 →
                ∃ w', (part.mapHeaders (·.putAll added)).encode = .ok w' ∧
                  w'.length ≤ frame) := by
  refine ⟨FragmentConfig.ofFrame_eq_none_iff, fun f hconfig => ?_⟩
  rcases FragmentConfig.ofFrame_eq_some_iff.mp hconfig with ⟨hframe, rfl⟩
  have hceiling : f.config.ceiling + 32 = frame := by
    rw [hframe, FragmentConfig.ceiling, headerAllowance]
    omega
  refine ⟨rfl, Nat.le_of_eq hceiling, fun m b hsplit part hpart w hencode => ?_⟩
  rcases exists_window_of_mem_split hsplit hpart with ⟨tag, window, rfl, hlength⟩
  rcases Message.result_emit_mk_eq_ok.mp (Message.encode_eq_ok_iff_emit.mp hencode) with
    ⟨-, v, -, hwindow, -⟩
  -- Without headers of other layers there is nothing besides the overhead and the window.
  have hnone : ∀ entry ∈ ([] : List (HeaderId × Record D)),
      entry.1 ≠ f.config.layer ∧ Streamable.KeepsSize entry.2 :=
    fun entry hentry => absurd hentry List.not_mem_nil
  rcases Message.exists_encode_fragment hwindow tag hnone with ⟨w', hencode', hsize⟩
  obtain rfl : w = w' := Except.ok.inj (hencode.symm.trans hencode')
  have hfits : w.length ≤ f.config.ceiling := by
    have hsize' : w.length + 16 * m.envelope.absent = fragmentOverhead + window.length := hsize
    rw [FragmentConfig.ceiling]
    omega
  refine ⟨⟨window, rfl, hsize⟩, hfits, fun added hadded => ⟨?_, fun htotal => ?_⟩⟩
  · exact HeaderMap.declaredSize_ofList_le fun entry hentry => (hadded entry hentry).2
  · rcases Message.exists_encode_fragment hwindow tag hadded with ⟨w', hencode', hsize'⟩
    refine ⟨w', hencode', ?_⟩
    rw [← hceiling, FragmentConfig.ceiling]
    omega

/-- A composite that names its sender and its receiver. -/
def addressedSample : Message Catalogue.dialect :=
  (Catalogue.sample.setDest (some (.ofNat 1))).setSrc (some (.ofNat 2))

/-- Headers of two layers, which take 32 bytes. -/
def foreignHeaders : List (HeaderId × Record Catalogue.dialect) :=
  [(7, .item (.seq 9)), (8, .item (.state 1 (List.replicate 12 0)))]

/-- The first fragment for frames of 130 bytes has a full window of 31 bytes and both addresses.
With the headers of two layers it still fits the frame. -/
theorem fragments_fit_frame_full : ∃ b part w,
    ((startingAt ⟨31, 36, by decide⟩ 0).split addressedSample).1 = .ok b ∧
      b.fragments[0]? = some part ∧ part.encode = .ok w ∧ w.length ≤ 98 ∧
      ∃ w', (part.mapHeaders (·.putAll foreignHeaders)).encode = .ok w' ∧ w'.length ≤ 130 := by
  have hframe : FragmentConfig.ofFrame 130 36
      = some (startingAt ⟨31, 36, by decide⟩ 0).config := rfl
  have hforeign : ∀ entry ∈ foreignHeaders,
      entry.1 ≠ 36 ∧ Streamable.KeepsSize entry.2 := by
    intro entry hentry
    refine ⟨?_, Catalogue.keepsSize_record entry.2⟩
    rcases List.mem_cons.mp hentry with rfl | hentry
    · decide
    · rw [List.mem_singleton.mp hentry]
      decide
  rcases (fragments_fit_frame 130 36).2 _ hframe with ⟨-, -, hfits⟩
  have hfirst := hfits addressedSample _ rfl _ List.mem_cons_self _ rfl
  have htotal : HeaderMap.declaredSize (HeaderMap.ofList foreignHeaders).entries ≤ 32 := by decide
  exact ⟨_, _, _, rfl, rfl, rfl, hfirst.2.1, (hfirst.2.2 foreignHeaders hforeign).2 htotal⟩

end Fragmenter

end Groupcast
