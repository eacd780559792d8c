import Groupcast.Message.Writing
import Groupcast.Proofs.Clip

/-!
# What messages write

The parts of a message that was written in full: what each field, header and payload comes to on the
wire, and when it can be written at all.
-/

namespace Groupcast

variable {D : Dialect}

/-! ## Views and buffers -/

namespace View

/-- A view is written as its length and the bytes it shows. -/
theorem result_emit_eq_ok {v : View} {w : Bytes} :
    v.emit.result = .ok w ↔
      v.length ≤ Emission.maxLength ∧ w = Bytes.bigEndian 4 v.length ++ v.data := by
  unfold emit
  rw [Emission.result_length_append_eq_ok, Emission.result_piece]
  simp

theorem transferLength_pos (n : Nat) : 0 < transferLength n := by
  unfold transferLength
  omega

/-- A direct buffer is written in pieces, which make up all of it. -/
theorem flatten_transferPieces (bytes : Bytes) : (transferPieces bytes).flatten = bytes :=
  Window.flatten_cut_tile bytes (transferLength_pos bytes.length)

/-- A buffer is written as its length, the wish and its bytes, in pieces or not. -/
theorem result_emitBuffer_eq_ok {v : View} {wish inPieces : Bool} {w : Bytes} :
    (emitBuffer (some v) wish inPieces).result = .ok w ↔
      v.length ≤ Emission.maxLength ∧
        w = Bytes.bigEndian 4 v.length ++ ([if wish then 1 else 0] ++ v.data) := by
  have hdata : (if inPieces then Emission.ofPieces (transferPieces v.data)
      else Emission.piece v.data).result = .ok v.data := by
    cases inPieces with
    | false => simp
    | true => simp [flatten_transferPieces]
  show (Emission.length v.length ++ Emission.flag wish ++ _).result = .ok w ↔ _
  rw [Emission.append_assoc]
  rw [Emission.result_length_append_eq_ok]
  have hbehind : (Emission.flag wish ++ if inPieces then Emission.ofPieces (transferPieces v.data)
      else Emission.piece v.data).result = .ok ([if wish then 1 else 0] ++ v.data) :=
    Emission.result_append_eq_ok.mpr ⟨_, _, Emission.result_flag wish, hdata, rfl⟩
  rw [hbehind]
  simp

end View

/-! ## Headers and objects -/

namespace HeaderMap

@[simp] theorem retained_nil (m : HeaderMap α) : m.retained [] = m.entries := by
  simp [retained]

theorem result_emitEntry [Streamable α] (entry : HeaderId × α) :
    (emitEntry entry).result = .ok (Bytes.bigEndian 2 entry.1.toNat
      ++ (Bytes.bigEndian 2 (Streamable.kind entry.2).toNat
        ++ (Streamable.pieces entry.2).flatten)) := by
  unfold emitEntry
  rw [Emission.append_assoc]
  refine Emission.result_append_eq_ok.mpr ⟨_, _, Emission.result_u16 _, ?_, rfl⟩
  exact Emission.result_append_eq_ok.mpr
    ⟨_, _, Emission.result_u16 _, Emission.result_ofPieces _, rfl⟩

/-- A map is written as the number of headers that are not left out, and these headers. -/
theorem result_emit_eq_ok [Streamable α] {m : HeaderMap α} {excluded : List HeaderId}
    {w : Bytes} :
    (m.emit excluded).result = .ok w ↔ (m.retained excluded).length < UInt32.size ∧
      ∃ v, (Emission.concat ((m.retained excluded).map emitEntry)).result = .ok v ∧
        w = Bytes.bigEndian 4 (m.retained excluded).length ++ v := by
  unfold emit
  by_cases hcount : (m.retained excluded).length < UInt32.size
  · simp only [hcount, if_true, true_and]
    rw [Emission.result_append_eq_ok_of_ok (Emission.result_u32 _),
      UInt32.toNat_ofNat_of_lt' hcount]
  · simp [hcount]

end HeaderMap

theorem Record.result_emitTagged (record : Record D) :
    record.emitTagged.result = .ok (Bytes.bigEndian 2 (Streamable.kind record).toNat
      ++ (Streamable.pieces record).flatten) :=
  Emission.result_append_eq_ok.mpr
    ⟨_, _, Emission.result_u16 _, Emission.result_ofPieces _, rfl⟩

namespace Parcel

theorem packed?_object (x : D.Object) :
    (object x : Parcel D).packed? = ((Packable.pack x).mapError .object).map some := rfl

theorem packed?_object_of_ok {x : D.Object} {bytes : Bytes} (hpack : Packable.pack x = .ok bytes) :
    (object x : Parcel D).packed? = .ok (some bytes) := by
  rw [packed?_object, hpack]
  rfl

theorem packed?_object_of_error {x : D.Object} {fault : Compact.EncodeFault}
    (hpack : Packable.pack x = .error fault) :
    (object x : Parcel D).packed? = .error (.object fault) := by
  rw [packed?_object, hpack]
  rfl

theorem packed?_packed (bytes : Bytes) : (packed bytes : Parcel D).packed? = .ok (some bytes) :=
  rfl

/-- Packed bytes are written behind the marker that they are not in an encoding of their own. -/
theorem result_emit_packed_eq_ok {bytes w : Bytes} :
    (emit (some (packed bytes : Parcel D))).result = .ok w ↔
      bytes.length ≤ Emission.maxLength ∧ w = [0] ++ (Bytes.bigEndian 4 bytes.length ++ bytes) := by
  show (Emission.flag false ++ (Emission.length bytes.length ++ Emission.piece bytes)).result = _
    ↔ _
  rw [Emission.result_append_eq_ok_of_ok (Emission.result_flag false)]
  constructor
  · rintro ⟨t, ht, rfl⟩
    rcases Emission.result_length_append_eq_ok.mp ht with ⟨hfits, d, hd, rfl⟩
    rw [Emission.result_piece] at hd
    cases hd
    exact ⟨hfits, rfl⟩
  · rintro ⟨hfits, rfl⟩
    exact ⟨_, Emission.result_length_append_eq_ok.mpr
      ⟨hfits, _, Emission.result_piece bytes, rfl⟩, rfl⟩

/-- A missing parcel is written with the length of a missing value. -/
theorem result_emit_none_eq_ok {w : Bytes} :
    (emit (none : Option (Parcel D))).result = .ok w ↔
      w = [0] ++ Bytes.bigEndian 4 (UInt32.size - 1) := by
  show (Emission.flag false ++ Emission.absent).result = _ ↔ _
  rw [Emission.result_append_eq_ok_of_ok (Emission.result_flag false)]
  constructor
  · rintro ⟨t, ht, rfl⟩
    rcases Emission.result_absent_eq_ok.mp ht with rfl
    rfl
  · rintro rfl
    exact ⟨_, Emission.result_absent, rfl⟩

/-- An object is packed to be written, and cannot be written if it cannot be packed. -/
theorem emit_object_of_ok {x : D.Object} {w : Bytes}
    (h : (emit (some (object x : Parcel D))).result = .ok w) :
    ∃ bytes, Packable.pack x = .ok bytes ∧
      (emit (some (packed bytes : Parcel D))).result = .ok w := by
  cases hpack : Packable.pack x with
  | error fault => simp [emit, packed?_object_of_error hpack, Emission.result_append_eq_ok] at h
  | ok bytes =>
    simp only [emit, packed?_object_of_ok hpack] at h
    exact ⟨bytes, rfl, h⟩

end Parcel

/-! ## Messages -/

/-- A message is its kind, its envelope and its body. -/
theorem Message.result_emit_mk_eq_ok {e : Envelope D} {body : Body D} {w : Bytes} :
    (Message.mk e body).emit.result = .ok w ↔
      ∃ u v, e.emit.result = .ok u ∧ body.emit.result = .ok v ∧ w = [body.kind] ++ (u ++ v) := by
  unfold emit
  rw [Emission.result_append_eq_ok_of_ok (Emission.result_byte _)]
  constructor
  · rintro ⟨t, ht, rfl⟩
    rcases Emission.result_append_eq_ok.mp ht with ⟨u, v, hu, hv, rfl⟩
    exact ⟨u, v, hu, hv, rfl⟩
  · rintro ⟨u, v, hu, hv, rfl⟩
    exact ⟨u ++ v, Emission.result_append_eq_ok.mpr ⟨u, v, hu, hv, rfl⟩, rfl⟩

/-- A message is encoded when it can be sized and written. -/
theorem Message.encode_eq_ok {m : Message D} {w : Bytes} :
    m.encode = .ok w ↔ (∃ size, m.wireSize = .ok size) ∧ m.emit.result = .ok w := by
  unfold encode
  cases m.wireSize with
  | error error => simp [bind, Except.bind]
  | ok size => simp [bind, Except.bind]

end Groupcast
