import Groupcast.Proofs.Chain.Calls
import Groupcast.Proofs.Message.Copies
import Groupcast.Proofs.Payload.Canonical
import Groupcast.Proofs.Payload.Nodes
import Groupcast.Proofs.Reading.Recovery

/-!
# The data of a payload is the same through every path

The size of a payload, its reader, its copies and its bytes on the wire are told of by recursions of
their own. They agree on the data: that of the nodes that are no composites, in a row.
-/

namespace Groupcast

/-! ## Copies of views -/

namespace View

/-- A copy shows its whole buffer. -/
theorem copy_whole (v : View) : v.copy.offset = 0 ∧ v.copy.length = v.copy.buffer.length := by
  unfold copy
  by_cases hwhole : v.offset = 0 ∧ v.length = v.buffer.length
  · rw [if_pos hwhole]
    exact hwhole
  · rw [if_neg hwhole]
    exact ⟨rfl, rfl⟩

/-- So it is copied to itself. -/
theorem copy_copy (v : View) : v.copy.copy = v.copy :=
  if_pos v.copy_whole

@[simp] theorem data_copy (v : View) : v.copy.data = v.data := by
  unfold copy
  by_cases hwhole : v.offset = 0 ∧ v.length = v.buffer.length
  · rw [if_pos hwhole]
  · rw [if_neg hwhole, data_whole]

@[simp] theorem length_copy (v : View) : v.copy.length = v.length := by
  rw [← length_data, data_copy, length_data]

end View

/-! ## Payloads of the application -/

variable {π : Type} [CustomPayload π]

/-- What is asked of a payload of the application when it is sized and copied: it has as much data
as it says, and so has its copy, which has the same kind and data, is written in the same way, and
is copied to itself. -/
structure CustomPayload.KeepsData (s : π) : Prop where
  length_data : (data s).length = size s
  length_data_copy : (data (copy s)).length = size (copy s)
  kind_copy : kind (copy s) = kind s
  data_copy : data (copy s) = data s
  emit_copy : (emit (copy s)).result = (emit s).result
  copy_copy : copy (copy s) = copy s

/-- What is asked of it when it is read back: whatever is registered under its kind is a payload of
the application, which is refilled from its bytes to one with the same data. -/
def CustomPayload.ReturnsData (r : PayloadRegistry π) (s : π) : Prop :=
  ∀ found, r.blank (kind s) = .ok found → ∃ blank, found = .custom blank ∧
    ∀ w, (emit s).result = .ok w → ∃ s', (refill blank).Restores w s' ∧ data s' = data s ∧
      (data s').length = size s'

namespace Payload

/-! ## What is seen of the data -/

/-- The data of a node that is not a composite. -/
def ownData? : Payload π → Option Bytes
  | bytes view => some view.data
  | composite _ => none
  | custom s => some (CustomPayload.data s)

/-- How much data a payload has, and its data in pieces. -/
def dataView (p : Payload π) : Nat × List Bytes :=
  (p.size, p.leaves)

theorem size_composite (children : List (Payload π)) :
    (composite children).size = (children.map size).sum := by
  rw [size, sizes_eq_map, List.sum_eq_foldl_nat]

theorem leaves_composite (children : List (Payload π)) :
    (composite children).leaves = (children.map leaves).flatten := by
  rw [leaves, leavesOf_eq_flatMap, List.flatMap_def]

/-- What is seen of a composite is told by what is seen of the payloads in it. -/
theorem dataView_composite_congr {children others : List (Payload π)}
    (h : children.map dataView = others.map dataView) :
    (composite children).dataView = (composite others).dataView := by
  have hsize : ∀ ps : List (Payload π), ps.map size = (ps.map dataView).map Prod.fst := fun ps => by
    rw [List.map_map]
    rfl
  have hleaves : ∀ ps : List (Payload π), ps.map leaves = (ps.map dataView).map Prod.snd :=
    fun ps => by
      rw [List.map_map]
      rfl
  rw [dataView, dataView, size_composite, leaves_composite, hsize, hleaves, h, ← hsize, ← hleaves,
    ← size_composite, ← leaves_composite]

theorem size_and_reader_of_dataView_eq {p q : Payload π} (h : p.dataView = q.dataView) :
    p.size = q.size ∧ p.reader = q.reader := by
  obtain ⟨hsize, hleaves⟩ := Prod.mk.inj h
  exact ⟨hsize, congrArg Chain.ofChunks hleaves⟩

/-! ## Reading the data -/

/-- The pieces of the data are those of the nodes, in order. -/
theorem leaves_eq_filterMap_nodes (p : Payload π) : p.leaves = p.nodes.filterMap ownData? := by
  induction p using induct with
  | bytes view => rfl
  | composite children ih =>
    have hsame : children.map leaves = children.map fun p => p.nodes.filterMap ownData? :=
      List.map_congr_left ih
    rw [leaves_composite, nodes_composite, List.filterMap_cons_none rfl, List.filterMap_flatMap,
      List.flatMap_def, hsame]
  | custom s => rfl

/-- To collect the data is to push its pieces. -/
theorem collect_eq_foldl_push (p : Payload π) (c : Chain) :
    p.collect c = p.leaves.foldl Chain.push c := by
  induction p using induct generalizing c with
  | bytes view => rfl
  | composite children ih =>
    -- The chain grows from payload to payload, so a second induction is on these.
    rw [collect, leaves]
    induction children generalizing c with
    | nil => rfl
    | cons p ps ihs =>
      have hp := ih p List.mem_cons_self
      rw [collectAll, leavesOf, List.foldl_append, hp]
      exact ihs (fun q hq => ih q (List.mem_cons_of_mem p hq)) _
  | custom s => rfl

theorem reader_eq_collect (p : Payload π) : p.reader = p.collect .empty := by
  rw [reader, Chain.ofChunks_eq_foldl_push, collect_eq_foldl_push]

/-- The size is that of the data. -/
theorem length_flatten_leaves (p : Payload π)
    (hkeeps : ∀ s, custom s ∈ p.nodes → CustomPayload.KeepsData s) :
    p.leaves.flatten.length = p.size := by
  induction p using induct with
  | bytes view => exact (congrArg List.length List.flatten_singleton).trans view.length_data
  | composite children ih =>
    have hsame : children.map (fun p => p.leaves.flatten.length) = children.map size :=
      List.map_congr_left fun p hp => ih p hp fun s hs => hkeeps s (mem_nodes_of_mem hp hs)
    rw [leaves_composite, size_composite, ← hsame, List.flatten_flatten, List.length_flatten,
      List.map_map, List.map_map]
    rfl
  | custom s =>
    exact (congrArg List.length List.flatten_singleton).trans
      (hkeeps s (self_mem_nodes _)).length_data

/-! ## Copies -/

theorem nodes_copy (p : Payload π) : p.copy.nodes = p.nodes.map copy := by
  induction p using induct with
  | bytes view => rfl
  | composite children ih =>
    have hsame : children.map (fun p => p.copy.nodes) = children.map fun p => p.nodes.map copy :=
      List.map_congr_left ih
    rw [copy, nodes_composite, nodes_composite, List.map_cons, copy, List.map_flatMap,
      copies_eq_map, List.flatMap_map, List.flatMap_def, List.flatMap_def, hsame]
  | custom s => rfl

/-- A view in a copy is the copy of a view. -/
theorem exists_of_bytes_mem_nodes_copy {p : Payload π} {view : View}
    (h : bytes view ∈ p.copy.nodes) : ∃ original : View, view = original.copy := by
  rw [nodes_copy, List.mem_map] at h
  obtain ⟨node, -, hnode⟩ := h
  cases node with
  | bytes original =>
    cases hnode
    exact ⟨original, rfl⟩
  | composite children => cases hnode
  | custom s => cases hnode

section Copies

variable {p : Payload π} (hkeeps : ∀ s, custom s ∈ p.nodes → CustomPayload.KeepsData s)

include hkeeps

theorem kind_copy : p.copy.kind = p.kind := by
  cases p with
  | bytes view => rfl
  | composite children => rfl
  | custom s => exact (hkeeps s (self_mem_nodes _)).kind_copy

theorem dataView_copy : p.copy.dataView = p.dataView := by
  induction p using induct with
  | bytes view => simp [dataView, copy, size, leaves]
  | composite children ih =>
    rw [copy, copies_eq_map]
    refine dataView_composite_congr ?_
    rw [List.map_map]
    exact List.map_congr_left fun p hp => ih p hp fun s hs => hkeeps s (mem_nodes_of_mem hp hs)
  | custom s =>
    -- The size of the copy is not asked for: it is that of the data, which is.
    have hkept := hkeeps s (self_mem_nodes _)
    have hsize : CustomPayload.size (CustomPayload.copy s) = CustomPayload.size s := by
      rw [← hkept.length_data_copy, ← hkept.length_data, hkept.data_copy]
    simp [dataView, copy, size, leaves, hsize, hkept.data_copy]

/-- A copy is written in the same way, or refused for the same reason. -/
theorem result_emit_copy : p.copy.emit.result = p.emit.result := by
  induction p using induct with
  | bytes view =>
    rw [copy, emit, emit, emitUntagged, emitUntagged, View.emit, View.emit, View.length_copy,
      View.data_copy]
    rfl
  | composite children ih =>
    have hrow : (Emission.concat (emissions (children.map copy))).result
        = (Emission.concat (emissions children)).result := by
      refine Emission.result_concat_congr ?_
      rw [emissions_eq_map, emissions_eq_map, List.map_map, List.map_map, List.map_map]
      exact List.map_congr_left fun p hp => ih p hp fun s hs => hkeeps s (mem_nodes_of_mem hp hs)
    rw [copy, emit, emit, emitUntagged, emitUntagged, copies_eq_map, List.length_map]
    refine Emission.result_append_congr rfl ?_
    by_cases hcount : children.length < UInt16.size
    · rw [if_pos hcount, if_pos hcount]
      exact Emission.result_append_congr rfl hrow
    · rw [if_neg hcount, if_neg hcount]
  | custom s =>
    have hkept := hkeeps s (self_mem_nodes _)
    rw [copy, emit, emit, emitUntagged, emitUntagged, kind, kind, hkept.kind_copy]
    exact Emission.result_append_congr rfl hkept.emit_copy

theorem copy_copy : p.copy.copy = p.copy := by
  induction p using induct with
  | bytes view => exact congrArg bytes view.copy_copy
  | composite children ih =>
    rw [copy, copy, copies_eq_map, copies_eq_map, List.map_map]
    exact congrArg composite (List.map_congr_left fun p hp =>
      ih p hp fun s hs => hkeeps s (mem_nodes_of_mem hp hs))
  | custom s => exact congrArg custom (hkeeps s (self_mem_nodes _)).copy_copy

end Copies

/-! ## Reading back -/

section ReadingBack

variable {r : PayloadRegistry π}

/-- A payload that is read back from the bytes of another has the data of the other. Induction on
the latter; what lies in it is read with one level less. -/
theorem recovers_dataView (hreach : r.Reachable) (p : Payload π)
    (hkeeps : ∀ s, custom s ∈ p.nodes → CustomPayload.KeepsData s)
    (hreturns : ∀ s, custom s ∈ p.nodes → CustomPayload.ReturnsData r s) (levels : Nat) {w : Bytes}
    (hw : p.emit.result = .ok w) :
    (readingWithin r levels).Recovers w fun q => q.dataView = p.dataView := by
  induction p using induct generalizing levels w with
  | bytes view =>
    obtain ⟨v, hv, rfl⟩ := result_emit_eq_ok.mp hw
    rw [readingWithin_eq_bind]
    refine (Reading.restores_u8 _).recovers.bind ?_
    rintro _ rfl
    rw [kind, Reading.ofExcept_bind_of_ok hreach.blank_bytes]
    refine (View.restores_reading hv).recovers.map ?_
    rintro _ rfl
    simp [dataView, size, leaves]
  | composite children ih =>
    obtain ⟨v, hv, rfl⟩ := result_emit_eq_ok.mp hw
    obtain ⟨hcount, u, hu, rfl⟩ := result_emitUntagged_composite_eq_ok.mp hv
    rw [readingWithin_eq_bind]
    refine (Reading.restores_u8 _).recovers.bind ?_
    rintro _ rfl
    rw [kind, Reading.ofExcept_bind_of_ok hreach.blank_composite]
    cases levels with
    | zero =>
      -- It is refused as too deep, so nothing is to be shown of what is read.
      exact Reading.recovers_fail tooDeep _
    | succ levels =>
      have hrow := Reading.Recovers.repeated (fun p hp w hw =>
        ih p hp (fun s hs => hkeeps s (mem_nodes_of_mem hp hs))
          (fun s hs => hreturns s (mem_nodes_of_mem hp hs)) levels hw) [] hu
      have hnumber := Reading.restores_u16 (UInt16.ofNat children.length)
      rw [UInt16.toNat_ofNat_of_lt' hcount] at hnumber
      refine hnumber.recovers.bind ?_
      rintro _ rfl
      rw [UInt16.toNat_ofNat_of_lt' hcount]
      exact hrow.map fun values hvalues => dataView_composite_congr hvalues
  | custom s =>
    obtain ⟨v, hv, rfl⟩ := result_emit_eq_ok.mp hw
    rw [readingWithin_eq_bind]
    refine (Reading.restores_u8 _).recovers.bind ?_
    rintro _ rfl
    -- If its kind is not registered, it is not read.
    refine Reading.recovers_ofExcept_bind fun found hfound => ?_
    obtain ⟨blank, rfl, hback⟩ := hreturns s (self_mem_nodes _) found hfound
    obtain ⟨s', hs', hdata, hlength⟩ := hback v hv
    refine hs'.recovers.map ?_
    rintro _ rfl
    rw [dataView, dataView, size, size, leaves, leaves, hdata, ← hlength, hdata,
      (hkeeps s (self_mem_nodes _)).length_data]

end ReadingBack

/-! ## One view of the data -/

/-- The reader of a payload holds as many bytes as the payload has: the data of its nodes in a row,
in a chunk for each that has any. Whatever calls drain the reader give what they would of the bytes
in a row, and are faults where they would be. A copy has the same kind, size and reader, is written
in the same way and copied to itself, and its views show whole buffers. And what is read from the
bytes of a payload has the same size and reader. -/
theorem data_view_kept {p : Payload π}
    (hkeeps : ∀ s, custom s ∈ p.nodes → CustomPayload.KeepsData s) :
    (p.reader = p.collect .empty ∧ p.reader.remaining = p.size ∧
      p.reader.chunks = (p.nodes.filterMap ownData?).filter (!·.isEmpty) ∧
      p.reader.bytes = (p.nodes.filterMap ownData?).flatten ∧
      ∀ calls, (ChainCall.serveAll Chain.serve p.reader calls).map id Chain.bytes
        = ChainCall.serveAll Bytes.serve (p.nodes.filterMap ownData?).flatten calls) ∧
    (p.copy.kind = p.kind ∧ p.copy.size = p.size ∧ p.copy.reader = p.reader ∧
      p.copy.serialize = p.serialize ∧ p.copy.copy = p.copy ∧
      ∀ view, bytes view ∈ p.copy.nodes → view.offset = 0 ∧ view.length = view.buffer.length) ∧
    ∀ r : PayloadRegistry π, r.Reachable →
      (∀ s, custom s ∈ p.nodes → CustomPayload.ReturnsData r s) →
      ∀ w q, p.serialize = .ok w → deserialize r w = .ok q →
        q.size = p.size ∧ q.reader = p.reader := by
  have hstands : p.reader.StandsFor p.leaves.flatten := Chain.standsFor_ofChunks p.leaves
  rw [← leaves_eq_filterMap_nodes]
  refine ⟨⟨p.reader_eq_collect, p.length_flatten_leaves hkeeps, rfl, hstands.flatten, ?_⟩, ?_, ?_⟩
  · intro calls
    obtain ⟨hgiven, hlast⟩ := hstands.serveAll calls
    exact Prod.ext hgiven hlast.flatten
  · obtain ⟨hsize, hreader⟩ := size_and_reader_of_dataView_eq (dataView_copy hkeeps)
    refine ⟨kind_copy hkeeps, hsize, hreader, result_emit_copy hkeeps, copy_copy hkeeps, ?_⟩
    intro view hview
    obtain ⟨original, rfl⟩ := exists_of_bytes_mem_nodes_copy hview
    exact original.copy_whole
  · intro r hreach hreturns w q hserialize hread
    have hrun := deserialize_eq_ok.mp hread
    rw [← List.append_nil w] at hrun
    obtain ⟨-, hview⟩ := recovers_dataView hreach p hkeeps hreturns maxNesting hserialize hrun
    exact size_and_reader_of_dataView_eq hview

end Payload

namespace Catalogue

theorem Datum.keepsData (s : Datum) : CustomPayload.KeepsData s := by
  cases s with
  | counter kind value =>
    exact ⟨Bytes.length_bigEndian _ _, Bytes.length_bigEndian _ _, rfl, rfl, rfl, rfl⟩
  | blob kind view =>
    refine ⟨view.length_data, view.copy.length_data, rfl, view.data_copy, ?_, ?_⟩
    · show view.copy.emit.result = view.emit.result
      rw [View.emit, View.emit, View.length_copy, View.data_copy]
    · exact congrArg (blob kind) view.copy_copy

theorem Datum.counter_returnsData {r : PayloadRegistry Datum} {kind : UInt8} {blank : UInt32}
    (hfind : r.blank kind = .ok (.custom (.counter kind blank))) (value : UInt32) :
    CustomPayload.ReturnsData r (.counter kind value) := by
  intro found hfound
  obtain rfl := Except.ok.inj (hfound.symm.trans hfind)
  refine ⟨_, rfl, fun w hw => ⟨.counter kind value, ?_, rfl, Bytes.length_bigEndian _ _⟩⟩
  rw [result_emit_counter] at hw
  cases hw
  exact (Reading.restores_u32 value).map (Datum.counter kind)

/-- A blob comes back with the bytes that it shows, whatever buffer they were in. -/
theorem Datum.blob_returnsData {r : PayloadRegistry Datum} {kind : UInt8} {blank : View}
    (hfind : r.blank kind = .ok (.custom (.blob kind blank))) (view : View) :
    CustomPayload.ReturnsData r (.blob kind view) := by
  intro found hfound
  obtain rfl := Except.ok.inj (hfound.symm.trans hfind)
  refine ⟨_, rfl, fun w hw => ⟨.blob kind view.norm, ?_, view.data_norm, view.norm.length_data⟩⟩
  exact (View.restores_reading hw).map (Datum.blob kind)

/-- Two bytes of a buffer of five, nothing and two bytes of a blob in a composite of their own, and
a counter. -/
def scatteredPayload : Payload Datum :=
  .composite [.bytes ⟨[9, 8, 7, 6, 5], 1, 2, by decide⟩,
    .composite [.bytes View.empty, .custom (.blob 41 ⟨[1, 2, 3], 1, 2, by decide⟩)],
    .custom (.counter 40 258)]

/-- The data lies in three chunks, in the payload, in its copy and in what is read from its
bytes. -/
theorem data_view_kept_scattered :
    scatteredPayload.reader.chunks = [[8, 7], [2, 3], [0, 0, 1, 2]] ∧
    scatteredPayload.reader.remaining = scatteredPayload.size ∧
    (ChainCall.serveAll Chain.serve scatteredPayload.reader
        [.copy 3, .advance 2, .advance 9, .copy 9]).map id Chain.bytes
      = ([.ok [8, 7, 2], .ok [], .error .overrun, .ok [0, 1, 2]], []) ∧
    scatteredPayload.copy.reader = scatteredPayload.reader ∧
    scatteredPayload.copy.copy = scatteredPayload.copy ∧
    ∃ w q, scatteredPayload.serialize = .ok w ∧ Payload.deserialize payloadRegistry w = .ok q ∧
      q.reader = scatteredPayload.reader := by
  obtain ⟨⟨-, hsize, hchunks, -, hcalls⟩, ⟨-, -, hsame, -, hcopy, -⟩, hback⟩ :=
    Payload.data_view_kept (p := scatteredPayload) fun s _ => s.keepsData
  have hreturns : ∀ s, .custom s ∈ scatteredPayload.nodes →
      CustomPayload.ReturnsData payloadRegistry s := by
    intro s hs
    have hblob : payloadRegistry.blank 41 = .ok (.custom (.blob 41 View.empty)) := rfl
    have hcounter : payloadRegistry.blank 40 = .ok (.custom (.counter 40 0)) := rfl
    simp only [scatteredPayload, Payload.nodes, Payload.nodesOf, List.cons_append, List.nil_append,
      List.mem_cons, reduceCtorEq, Payload.custom.injEq, List.not_mem_nil, false_or, or_false] at hs
    rcases hs with rfl | rfl
    · exact Datum.blob_returnsData hblob _
    · exact Datum.counter_returnsData hcounter _
  obtain ⟨w, q, hserialize, hread⟩ : ∃ w q, scatteredPayload.serialize = .ok w ∧
      Payload.deserialize payloadRegistry w = .ok q := ⟨_, _, rfl, rfl⟩
  obtain ⟨-, hreader⟩ :=
    hback payloadRegistry payloadRegistry_reachable hreturns w q hserialize hread
  exact ⟨hchunks, hsize, (hcalls _).trans rfl, hsame, hcopy, w, q, hserialize, hread, hreader⟩

end Catalogue

end Groupcast
