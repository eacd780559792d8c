import Groupcast.Proofs.Message.Writing

/-!
# Declared sizes

Sizes are computed on their own, without writing. A message that can be written in full has the size
that is declared for it, if each header, object and custom body in it keeps to the size that it
declares itself (`Message.KeepsSize`).
-/

namespace Groupcast

variable {D : Dialect}

/-! ## What is asked of messages -/

/-- What a self-describing value must keep: its encoding has the size that it declares. -/
def Streamable.KeepsSize [Streamable α] (value : α) : Prop :=
  size value = (pieces value).flatten.length

/-- The size declared for a message, with its kind, is that of what it writes. -/
def Message.SizeExact (m : Message D) : Prop :=
  ∀ w, m.emit.result = .ok w → m.encodedSize = .ok w.length

/-- What a body of the application must keep: its encoding has the size that it declares, if those
of the messages held have theirs. -/
def CustomBody.KeepsSize (s : D.Custom) (held : List (Message D)) : Prop :=
  (∀ m ∈ held, m.SizeExact) → ∀ w, (emit s (emissions held)).result = .ok w →
    size s (wireSizes held) = w.length

/-- A parcel keeps to its size if it is packed or keeps to that of its own encoding. -/
def Parcel.KeepsSize : Parcel D → Prop
  | record x => Streamable.KeepsSize x
  | object _ => True
  | packed _ => True

mutual

/-- Whether the headers, objects and custom bodies of a message keep to their sizes. Nothing is
asked of a message that only a window is cut from. -/
def Message.KeepsSize : Message D → Prop
  | .mk e body =>
    (∀ entry ∈ e.headers.entries, Streamable.KeepsSize entry.2) ∧ body.KeepsSize

/-- `Message.KeepsSize` of what lies in a body. -/
def Body.KeepsSize : Body D → Prop
  | .composite children => AllKeepSize children
  | .object record => ∀ x ∈ record, Streamable.KeepsSize x
  | .serializable parcel => ∀ p ∈ parcel, p.KeepsSize
  | .custom s held => CustomBody.KeepsSize s held ∧ AllKeepSize held
  | _ => True

/-- `Message.KeepsSize` of each message. -/
def AllKeepSize : List (Message D) → Prop
  | [] => True
  | m :: ms => m.KeepsSize ∧ AllKeepSize ms

end

/-! ## Envelopes -/

theorem Address.wireSize_of_emit {a : Option Address} {w : Bytes}
    (h : (emit a).result = .ok w) : wireSize a = w.length := by
  cases a with
  | none =>
    obtain rfl : [0] = w := by simpa [emit] using h
    rfl
  | some a =>
    rcases Emission.result_append_eq_ok.mp h with ⟨u, v, hu, hv, rfl⟩
    obtain rfl : [1] = u := by simpa using hu
    obtain rfl : Bytes.bigEndian 16 a.toNat = v := by simpa using hv
    rw [List.length_append, Bytes.length_bigEndian]
    rfl

/-- The headers that are written take the bytes declared for them. -/
theorem HeaderMap.wireSize_of_emit [Streamable α] {m : HeaderMap α}
    (hkeeps : ∀ entry ∈ m.entries, Streamable.KeepsSize entry.2) {excluded : List HeaderId}
    {w : Bytes} (h : (m.emit excluded).result = .ok w) : m.wireSize excluded = w.length := by
  have hentries : ∀ (entries : List (HeaderId × α)) (v : Bytes),
      (∀ entry ∈ entries, Streamable.KeepsSize entry.2) →
      (Emission.concat (entries.map emitEntry)).result = .ok v → ∀ size,
      entries.foldl (fun size entry => size + (2 + 2 + Streamable.size entry.2)) size
        = size + v.length := by
    intro entries
    induction entries with
    | nil =>
      intro v _ hv size
      obtain rfl : [] = v := by simpa using hv
      rfl
    | cons entry entries ih =>
      -- Two bytes for the layer, two for the kind, and the header.
      intro v hkeeps hv size
      rcases Emission.result_concat_cons_eq_ok.mp hv with ⟨u, t, hu, ht, rfl⟩
      rw [result_emitEntry] at hu
      cases hu
      have hsize : Streamable.size entry.2 = (Streamable.pieces entry.2).flatten.length :=
        hkeeps entry List.mem_cons_self
      have hothers : ∀ entry ∈ entries, Streamable.KeepsSize entry.2 := by
        intro entry hmem
        exact hkeeps entry (List.mem_cons_of_mem _ hmem)
      have hrest := ih t hothers ht
      rw [List.foldl_cons, hrest, hsize]
      simp only [List.length_append, Bytes.length_bigEndian]
      omega
  rcases result_emit_eq_ok.mp h with ⟨-, v, hv, rfl⟩
  have hretained : ∀ entry ∈ m.retained excluded, Streamable.KeepsSize entry.2 := by
    intro entry hmem
    exact hkeeps entry (List.mem_filter.mp hmem).1
  have hsum := hentries (m.retained excluded) v hretained hv 4
  rw [wireSize, hsum, List.length_append, Bytes.length_bigEndian]

/-- An envelope takes the bytes declared for its flags, the addresses and the headers. -/
theorem Envelope.length_of_emitWith {e : Envelope D}
    (hkeeps : ∀ entry ∈ e.headers.entries, Streamable.KeepsSize entry.2)
    {dest src : Option Address} {excluded : List HeaderId} {w : Bytes}
    (h : (e.emitWith dest src excluded).result = .ok w) :
    2 + 1 + Address.wireSize dest + Address.wireSize src + e.headers.wireSize excluded
      = w.length := by
  unfold emitWith at h
  rcases Emission.result_append_eq_ok.mp h with ⟨w₄, headers, h₄, hheaders, rfl⟩
  rcases Emission.result_append_eq_ok.mp h₄ with ⟨w₃, wsrc, h₃, hsrc, rfl⟩
  rcases Emission.result_append_eq_ok.mp h₃ with ⟨w₂, wdest, h₂, hdest, rfl⟩
  rcases Emission.result_append_eq_ok.mp h₂ with ⟨flags, transient, hflags, htransient, rfl⟩
  rw [Emission.result_piece] at hflags htransient
  cases hflags
  cases htransient
  rw [HeaderMap.wireSize_of_emit hkeeps hheaders, Address.wireSize_of_emit hdest,
    Address.wireSize_of_emit hsrc]
  simp only [List.length_append, Bytes.length_bigEndian]

theorem Envelope.wireSize_of_emit {e : Envelope D}
    (hkeeps : ∀ entry ∈ e.headers.entries, Streamable.KeepsSize entry.2) {w : Bytes}
    (h : e.emit.result = .ok w) : e.wireSize = w.length :=
  length_of_emitWith hkeeps h

/-! ## Payloads -/

theorem View.bufferWireSize_of_emit {view : Option View} {wish inPieces : Bool} {w : Bytes}
    (h : (emitBuffer view wish inPieces).result = .ok w) : bufferWireSize view = w.length := by
  cases view with
  | none =>
    rcases Emission.result_absent_eq_ok.mp h with rfl
    rw [Bytes.length_bigEndian]
    rfl
  | some view =>
    rcases result_emitBuffer_eq_ok.mp h with ⟨-, rfl⟩
    simp [bufferWireSize, Nat.add_comm]

theorem Record.length_of_emitTagged {record : Record D} (hkeeps : Streamable.KeepsSize record)
    {w : Bytes} (h : record.emitTagged.result = .ok w) :
    w.length = 2 + Streamable.size record := by
  rw [result_emitTagged] at h
  cases h
  rw [hkeeps, List.length_append, Bytes.length_bigEndian]

theorem Parcel.wireSize_of_emit {parcel : Option (Parcel D)} (hkeeps : ∀ p ∈ parcel, p.KeepsSize)
    {w : Bytes} (h : (emit parcel).result = .ok w) : wireSize parcel = .ok w.length := by
  rcases parcel with _ | (x | x | bytes)
  · rcases result_emit_none_eq_ok.mp h with rfl
    simp [wireSize]
  · rcases (Emission.result_append_eq_ok_of_ok (Emission.result_flag true)).mp h with ⟨t, ht, rfl⟩
    rw [wireSize, List.length_append, Record.length_of_emitTagged (hkeeps _ rfl) ht]
    rfl
  · -- The object is packed once for its size and once to be written.
    rcases emit_object_of_ok h with ⟨bytes, hpack, hpacked⟩
    rcases result_emit_packed_eq_ok.mp hpacked with ⟨-, rfl⟩
    simp [wireSize, packed?_object_of_ok hpack, Except.map, Nat.add_comm]
  · rcases result_emit_packed_eq_ok.mp h with ⟨-, rfl⟩
    simp [wireSize, packed?, Except.map, Nat.add_comm]

/-! ## Messages -/

/-- The size with its kind is one byte more than the size without. -/
theorem Message.encodedSize_eq_ok {m : Message D} {n : Nat} :
    m.encodedSize = .ok n ↔ ∃ size, m.wireSize = .ok size ∧ n = 1 + size := by
  unfold encodedSize
  cases m.wireSize with
  | error error => simp [Except.map]
  | ok size => simp [Except.map, eq_comm]

/-- Messages in a row have the sum of their sizes. Induction on the messages left. -/
theorem sumSizes_of_emissions {ms : List (Message D)} (hms : ∀ m ∈ ms, m.SizeExact) {w : Bytes}
    (h : (Emission.concat (emissions ms)).result = .ok w) :
    sumSizes 1 (wireSizes ms) = .ok w.length := by
  suffices hsum : ∀ sum, (wireSizes ms).foldlM (m := Except EncodeError)
      (fun sum size => size.map (sum + 1 + ·)) sum = .ok (sum + w.length) by
    simpa [sumSizes] using hsum 0
  induction ms generalizing w with
  | nil =>
    obtain rfl : [] = w := by simpa [emissions] using h
    intro sum
    rfl
  | cons m ms ih =>
    rcases Emission.result_concat_cons_eq_ok.mp h with ⟨u, v, hu, hv, rfl⟩
    have hothers : ∀ m ∈ ms, m.SizeExact := by
      intro m hmem
      exact hms m (List.mem_cons_of_mem _ hmem)
    have hrest := ih hothers hv
    rcases Message.encodedSize_eq_ok.mp (hms m List.mem_cons_self u hu) with ⟨size, hwire, hlength⟩
    intro sum
    rw [wireSizes, List.foldlM_cons, hwire]
    show (wireSizes ms).foldlM _ (sum + 1 + size) = _
    rw [hrest, List.length_append, hlength]
    congr 1
    omega

mutual

/-- A message that is written in full has the size declared for it. -/
theorem Message.sizeExact (m : Message D) (hkeeps : m.KeepsSize) : m.SizeExact := by
  intro w hemit
  cases m with
  | mk e body =>
    rcases hkeeps with ⟨hheaders, hbody⟩
    rcases Message.result_emit_mk_eq_ok.mp hemit with ⟨u, v, hu, hv, rfl⟩
    have hsize := Body.wireSize_of_emit body hbody hv
    simp only [Message.encodedSize, Message.wireSize, hsize, Except.map,
      Envelope.wireSize_of_emit hheaders hu, List.length_append, List.length_singleton]

/-- A body that is written in full has the size declared for it, one case for each kind. -/
theorem Body.wireSize_of_emit (b : Body D) (hkeeps : b.KeepsSize) {w : Bytes}
    (hemit : b.emit.result = .ok w) : b.wireSize = .ok w.length := by
  cases b with
  | empty =>
    obtain rfl : [] = w := by simpa [Body.emit] using hemit
    rfl
  | bytes view =>
    rcases view with _ | view
    · rcases Emission.result_absent_eq_ok.mp hemit with rfl
      rw [Bytes.length_bigEndian]
      rfl
    · rcases View.result_emit_eq_ok.mp hemit with ⟨-, rfl⟩
      simp [Body.wireSize, View.optionalLength]
  | buffer view direct => simp only [Body.wireSize, View.bufferWireSize_of_emit hemit]
  | directBuffer view heap => simp only [Body.wireSize, View.bufferWireSize_of_emit hemit]
  | composite children =>
    -- The number of children, and the children with their kinds.
    rcases Emission.result_length_append_eq_ok.mp hemit with ⟨-, v, hv, rfl⟩
    have hsum := sumSizes_of_emissions (allSizeExact children hkeeps) hv
    simp [Body.wireSize, hsum, Except.map]
  | object record =>
    rcases record with _ | record
    · obtain rfl : [0] = w := by simpa [Body.emit] using hemit
      rfl
    · rcases (Emission.result_append_eq_ok_of_ok (Emission.result_flag true)).mp hemit with
        ⟨t, ht, rfl⟩
      rw [Body.wireSize, List.length_append,
        Record.length_of_emitTagged (hkeeps record rfl) ht]
      rfl
  | serializable parcel => exact Parcel.wireSize_of_emit hkeeps hemit
  | excerpt whole window =>
    -- What was cut out is as long as the window, or writing would have failed.
    rcases Emission.result_length_append_eq_ok.mp hemit with ⟨-, v, hv, rfl⟩
    rcases Emission.result_window_eq_ok.mp hv with ⟨_, -, -, hlength⟩
    simp [Body.wireSize, hlength]
  | received view =>
    rcases View.result_emit_eq_ok.mp hemit with ⟨-, rfl⟩
    simp [Body.wireSize, View.wireSize]
  | custom s held =>
    rcases hkeeps with ⟨hsize, hheld⟩
    simp only [Body.wireSize, hsize (allSizeExact held hheld) w hemit]

/-- `Message.sizeExact` for each message. -/
theorem allSizeExact (ms : List (Message D)) (hkeeps : AllKeepSize ms) :
    ∀ m ∈ ms, m.SizeExact := by
  cases ms with
  | nil => simp
  | cons m ms =>
    rcases hkeeps with ⟨hm, hms⟩
    have hfirst := Message.sizeExact m hm
    have hothers := allSizeExact ms hms
    intro m' hmem
    rcases List.mem_cons.mp hmem with rfl | hmem
    · exact hfirst
    · exact hothers m' hmem

end

end Groupcast
