import Groupcast.Catalogue.Dialect
import Groupcast.Proofs.Fragment.Tiling
import Groupcast.Proofs.Message.Excerpt
import Groupcast.Proofs.Message.Payload

/-!
# Buffers in pieces and in one

A buffer in direct memory is written in pieces of a tenth of its length, and of 128 bytes where a
tenth is less; a buffer on the heap is written in one. The pieces are the windows of a tiling, which
tells how many there are and how long they are. They make up the bytes of the single write, so but
for the hint the three ways to send a buffer come to the same, and receivers get the same bytes.
-/

namespace Groupcast

variable {D : Dialect}

/-! ## Pieces -/

/-- Pieces that make up a byte string, each of `most` bytes but the last, which may be shorter. -/
structure Bytes.InPieces (most : Nat) (bytes : Bytes) (pieces : List Bytes) : Prop where
  flatten_eq : pieces.flatten = bytes
  length_eq : pieces.length = bytes.length ⌈/⌉ most
  ne_nil : ∀ piece ∈ pieces, piece ≠ []
  length_le : ∀ piece ∈ pieces, piece.length ≤ most
  full : ∀ k (piece : Bytes), pieces[k]? = some piece → k + 1 < pieces.length →
    piece.length = most

/-- A window of a tiling is cut out in full. -/
theorem Window.length_cut_of_mem_tile {items : List α} {most : Nat} {w : Window}
    (hw : w ∈ tile 0 items.length most) : (w.cut items).length = w.length := by
  obtain ⟨-, -, hstop⟩ := mem_tile hw
  rw [Nat.zero_add] at hstop
  exact length_cut_eq_iff.mpr (Or.inr hstop)

/-- What is known of the windows of a tiling holds of the parts that they cut out. -/
theorem Bytes.inPieces_tile (bytes : Bytes) {most : Nat} (hmost : 0 < most) :
    InPieces most bytes ((Window.tile 0 bytes.length most).map (·.cut bytes)) := by
  have htiles := Window.tiles_tile hmost 0 bytes.length
  have hbounds : ∀ piece ∈ (Window.tile 0 bytes.length most).map (·.cut bytes),
      1 ≤ piece.length ∧ piece.length ≤ most := by
    intro piece hpiece
    obtain ⟨w, hw, rfl⟩ := List.mem_map.mp hpiece
    rw [Window.length_cut_of_mem_tile hw]
    exact htiles.bounded w hw
  constructor
  case flatten_eq => exact Window.flatten_cut_tile bytes hmost
  case length_eq => rw [List.length_map, htiles.length_eq]
  case ne_nil =>
    intro piece hpiece
    exact List.ne_nil_of_length_pos (hbounds piece hpiece).1
  case length_le =>
    intro piece hpiece
    exact (hbounds piece hpiece).2
  case full =>
    intro k piece hplace hbefore
    rw [List.getElem?_map] at hplace
    obtain ⟨w, hw, rfl⟩ := Option.map_eq_some_iff.mp hplace
    rw [List.length_map] at hbefore
    rw [Window.length_cut_of_mem_tile (List.mem_of_getElem? hw)]
    exact htiles.full k w hw hbefore

namespace View

theorem inPieces_transferPieces (bytes : Bytes) :
    bytes.InPieces (max (bytes.length / 10) 128) (transferPieces bytes) :=
  bytes.inPieces_tile (transferLength_pos bytes.length)

/-- Eleven pieces are enough. A tenth may be rounded down by nine tenths of a byte, which makes nine
bytes in all, and a piece has more. -/
theorem length_transferPieces_le (bytes : Bytes) : (transferPieces bytes).length ≤ 11 := by
  have hcover : bytes.length ≤ transferLength bytes.length * 11 := by
    unfold transferLength
    omega
  unfold transferPieces
  rw [List.length_map, Window.length_tile]
  exact (Window.count_le_iff (transferLength_pos bytes.length)).mpr hcover

/-- No bytes, no pieces. -/
theorem transferPieces_eq_nil {v : View} (hempty : v.length = 0) : transferPieces v.data = [] := by
  have hdata : v.data = [] := List.eq_nil_of_length_eq_zero (v.length_data.trans hempty)
  rw [hdata]
  rfl

/-- What a sink gets of a buffer: the length, the hint, and the bytes in one or more writes. -/
theorem emitBuffer_of_fits {v : View} (hfits : v.length ≤ Emission.maxLength)
    (hint inPieces : Bool) :
    emitBuffer (some v) hint inPieces = Emission.ofPieces (Bytes.bigEndian 4 v.length ::
      [if hint then 1 else 0] :: if inPieces then transferPieces v.data else [v.data]) := by
  have hlength : Emission.length v.length = Emission.piece (Bytes.bigEndian 4 v.length) :=
    if_pos hfits
  simp only [emitBuffer, hlength]
  cases inPieces with
  | false => rfl
  | true => rfl

end View

/-! ## Bodies -/

namespace Body

/-- The ways to send the bytes of a view as a buffer: from the heap, from direct memory, and from
direct memory with a wish about the receiver's. Direct memory is written in pieces. With each way
goes a hint. -/
inductive SendsBuffer (view : View) : (inPieces hint : Bool) → Body D → Prop
  | heap : SendsBuffer view false false (.buffer (some view) false)
  | direct : SendsBuffer view true true (.buffer (some view) true)
  | directBuffer (wish : Bool) : SendsBuffer view true wish (.directBuffer (some view) wish)

variable {view : View} {inPieces hint : Bool} {b : Body D}

theorem SendsBuffer.emit_eq (hsends : SendsBuffer view inPieces hint b) :
    b.emit = View.emitBuffer (some view) hint inPieces := by
  cases hsends <;> rfl

/-- Either kind of buffer body takes over what is found of a buffer that is read into it. -/
theorem read_of_restores {r : Registry D} {w : Bytes} {found : View}
    (hrestores : View.readingBuffer.Restores w (some (hint, found))) (held : Option View)
    (wish : Bool) (rest : Bytes) :
    (buffer held wish).read r (w ++ rest) = (.ok (), buffer (some found) hint, rest) ∧
      (directBuffer held wish).read r (w ++ rest)
        = (.ok (), directBuffer (some found) hint, rest) := by
  rw [← List.append_nil w]
  constructor
  · refine read_eq_ok.mpr ?_
    exact (hrestores.bind (Reading.restores_done (buffer (some found) hint))) rest
  · refine read_eq_ok.mpr ?_
    exact (hrestores.bind (Reading.restores_done (directBuffer (some found) hint))) rest

/-- A direct buffer is written in pieces of a tenth of its length or of 128 bytes, whichever is
more: none is empty, only the last may be shorter, there are eleven at most, and none for no bytes.
They make up the single write of a heap buffer. So the three ways to send a buffer come to the same
bytes but for the hint; and from these bytes either kind of buffer body takes the bytes shown, as a
buffer of their own, and the hint. -/
theorem buffers_agree (r : Registry D) {view : View}
    (hfits : view.length ≤ Emission.maxLength) :
    ∃ pieces, view.data.InPieces (max (view.length / 10) 128) pieces ∧ pieces.length ≤ 11 ∧
      (view.length = 0 → pieces = []) ∧
      ∀ {inPieces hint : Bool} {b : Body D}, SendsBuffer view inPieces hint b →
        b.emit = .ofPieces (Bytes.bigEndian 4 view.length :: [if hint then 1 else 0] ::
          if inPieces then pieces else [view.data]) ∧
        let w := Bytes.bigEndian 4 view.length ++ ([if hint then 1 else 0] ++ view.data)
        b.emit.result = .ok w ∧
          ∀ (held : Option View) (wish : Bool) (rest : Bytes),
            (buffer held wish).read r (w ++ rest)
              = (.ok (), buffer (some (.whole view.data)) hint, rest) ∧
            (directBuffer held wish).read r (w ++ rest)
              = (.ok (), directBuffer (some (.whole view.data)) hint, rest) := by
  have hpieces := View.inPieces_transferPieces view.data
  rw [View.length_data] at hpieces
  refine ⟨transferPieces view.data, hpieces, View.length_transferPieces_le view.data,
    View.transferPieces_eq_nil, ?_⟩
  intro inPieces hint b hsends
  have hemit := hsends.emit_eq
  have hresult : b.emit.result
      = .ok (Bytes.bigEndian 4 view.length ++ ([if hint then 1 else 0] ++ view.data)) := by
    rw [hemit]
    exact View.result_emitBuffer_eq_ok.mpr ⟨hfits, rfl⟩
  refine ⟨hemit.trans (View.emitBuffer_of_fits hfits hint inPieces), hresult, ?_⟩
  rw [hemit] at hresult
  exact read_of_restores (View.restores_readingBuffer hresult)

/-- A view of 1281 bytes out of 1300, one more than ten pieces hold. -/
def overfull : View :=
  ⟨List.replicate 1300 7, 5, 1281, by rw [List.length_replicate]; decide⟩

/-- Eleven pieces, and the same bytes from the heap, which are read into a blank body. -/
theorem buffers_agree_overfull :
    (∃ pieces : List Bytes, pieces.length = 11 ∧
      (directBuffer (D := Catalogue.dialect) (some overfull) true).emit
        = .ofPieces ([0, 0, 5, 1] :: [1] :: pieces)) ∧
    (buffer (D := Catalogue.dialect) (some overfull) false).emit.result
      = .ok ([0, 0, 5, 1] ++ ([0] ++ overfull.data)) ∧
    ((blank (D := Catalogue.dialect) .buffer).read .builtin
      (([0, 0, 5, 1] ++ ([0] ++ overfull.data)) ++ [9] : Bytes))
      = (.ok (), buffer (some (.whole overfull.data)) false, [9]) := by
  have hfits : overfull.length ≤ Emission.maxLength := by decide
  obtain ⟨pieces, hpieces, -, -, hsent⟩ := buffers_agree (D := Catalogue.dialect) .builtin hfits
  obtain ⟨hdirect, -⟩ := hsent (.directBuffer true)
  obtain ⟨-, hheap, hread⟩ := hsent .heap
  refine ⟨⟨pieces, ?_, hdirect⟩, hheap, (hread none false [9]).1⟩
  rw [hpieces.length_eq, View.length_data]
  rfl

end Body

end Groupcast
