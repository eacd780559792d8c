import Groupcast.Catalogue.Dialect
import Groupcast.Proofs.Message.ExactSize
import Groupcast.Proofs.Message.Readable
import Groupcast.Proofs.Registry.Growth
import Groupcast.Proofs.Sequential

/-!
# The catalogue keeps its contracts

What is asked of a dialect can be met: the registry of the catalogue grows from the built-in one,
and its items and bodies are restored from what they write.
-/

namespace Groupcast.Catalogue

/-! ## Registration -/

/-- The registry with all items and both bodies. -/
def registry : Registry dialect where
  messages := ⟨Registry.builtin.messages.entries
    ++ [(40, .custom (.counter 40 0) []), (41, .custom (.wrap 41) [])]⟩
  headers := ⟨Registry.builtin.headers.entries
    ++ Item.blanks.map fun item => (item.kind, .item item)⟩
  objects := ⟨Item.blanks.map fun item => (item.kind, .item item)⟩

theorem registry_eq_ok : (addItems .builtin).bind addBodies = .ok registry := rfl

/-- Registering an item is a step for its header and one for its object. Induction on the items. -/
theorem grows_addItems {r r' : Registry dialect} (hadd : addItems r = .ok r') : r.Grows r' := by
  unfold addItems at hadd
  suffices hgrows : ∀ (items : List Item) (r₀ : Registry dialect), r.Grows r₀ →
      items.foldlM (fun r item => do
        let r ← accepted (r.addHeader item.kind (.item item))
        accepted (r.addObject item.kind (.item item))) r₀ = .ok r' →
      r.Grows r' from hgrows _ r .refl hadd
  intro items
  induction items with
  | nil =>
    intro r₀ hgrown h
    cases h
    exact hgrown
  | cons item items ih =>
    -- A step for the header, a step for the object, and the items left.
    intro r₀ hgrown h
    rw [List.foldlM_cons] at h
    cases hheader : accepted (r₀.addHeader item.kind (.item item)) with
    | error error => simp [hheader, bind, Except.bind] at h
    | ok r₁ =>
      obtain rfl := eq_of_accepted hheader
      cases hobject : accepted ((r₀.addHeader item.kind (.item item)).2.addObject item.kind
          (.item item)) with
      | error error => simp [hheader, hobject, bind, Except.bind] at h
      | ok r₂ =>
        obtain rfl := eq_of_accepted hobject
        simp only [hheader, hobject, bind, Except.bind] at h
        exact ih _ ((hgrown.header _ _).object _ _) h

theorem grows_addBodies {r r' : Registry dialect} (hadd : addBodies r = .ok r') : r.Grows r' := by
  unfold addBodies at hadd
  cases hcounter : accepted (r.addMessage 40 (.counter 40 0)) with
  | error error => simp [hcounter, bind, Except.bind] at hadd
  | ok r₁ =>
    obtain rfl := eq_of_accepted hcounter
    simp only [hcounter, bind, Except.bind] at hadd
    obtain rfl := eq_of_accepted hadd
    exact (Registry.Grows.refl.message _ _).message _ _

/-- An application can come to have this registry. -/
theorem registry_reachable : registry.Reachable := by
  have h := registry_eq_ok
  cases hitems : addItems .builtin with
  | error error => simp [hitems, Except.bind] at h
  | ok r =>
    rw [hitems] at h
    exact (grows_addItems hitems).trans (grows_addBodies h)

/-! ## Reading back -/

/-- A sequence number is read back by any registry that finds its blank. -/
theorem Item.seq_readsBack {find : UInt16 → Except DecodeError (Record dialect)} {blank : UInt32}
    (hfind : find (Item.kind (.seq blank)) = .ok (.item (.seq blank))) (n : UInt32) :
    Streamable.ReadsBack find (.item (.seq n) : Record dialect) := by
  refine ⟨.item (.seq blank), hfind, ?_⟩
  have hpieces : (Streamable.pieces (.item (.seq n) : Record dialect)).flatten
      = Bytes.bigEndian 4 n.toNat := List.append_nil _
  rw [hpieces]
  exact ((Reading.restores_u32 n).map Item.seq).map (Record.item (D := dialect))

/-- A counter is read back by any registry that finds its blank. -/
theorem Custom.counter_readsBack {r : Registry dialect} {kind : UInt8} {blank : UInt64}
    (hfind : r.body kind = .ok (.custom (.counter kind blank) [])) (value : UInt64) :
    CustomBody.ReadsBack r (.counter kind value) [] := by
  refine ⟨.counter kind blank, hfind, fun _ w h rest => ?_⟩
  obtain rfl : Bytes.bigEndian 8 value.toNat = w := by
    simpa [CustomBody.emit, Custom.emit] using h
  apply Body.read_eq_ok.mpr
  have hread := ((Reading.restores_u64 value).map fun value =>
    (Body.custom (.counter kind value) [] : Body dialect)) rest
  exact hread

/-- A wrapper writes its message. -/
theorem Custom.emit_wrap (kind : UInt8) (m : Message dialect) :
    CustomBody.emit (Custom.wrap kind) (emissions [m]) = m.emit :=
  Emission.append_empty _

/-- A wrapper is read back if its message is. -/
theorem Custom.wrap_readsBack {r : Registry dialect} {kind : UInt8}
    (hfind : r.body kind = .ok (.custom (.wrap kind) [])) (m : Message dialect) :
    CustomBody.ReadsBack r (.wrap kind) [m] := by
  refine ⟨.wrap kind, hfind, fun hheld w h rest => ?_⟩
  rw [emit_wrap] at h
  have hread : (Message.reading r (w ++ rest).length maxNesting).run (w ++ rest)
      = (.ok m.norm, rest) := hheld m List.mem_cons_self w h rest
  apply Body.read_eq_ok.mpr
  -- The script reads one message, at full depth, and is done.
  show (((Message.reading r (w ++ rest).length maxNesting).bind fun m =>
    .done ((.wrap kind, [m]) : Custom × List (Message dialect))).bind fun found =>
      Reading.done (Body.custom found.1 found.2 : Body dialect)).run (w ++ rest) = _
  rw [Reading.run_bind, Reading.run_bind, hread]
  rfl

/-! ## Reading in sequence -/

theorem sequential_refill (record : Record dialect) : (Streamable.refill record).Sequential := by
  have hseq := Reading.bothSequential_congruence
  suffices hboth : Reading.BothSequential (Streamable.refill record) (Streamable.refill record) from
    hboth.1
  rcases record with tag | item
  · exact hseq.map _ (hseq.bind hseq.u64 fun _ => hseq.bind hseq.u32 fun _ =>
      hseq.bind hseq.u32 fun _ => hseq.map _ hseq.flag)
  · refine hseq.map _ ?_
    cases item with
    | seq seqno => exact hseq.map _ hseq.u32
    | point x y => exact hseq.bind hseq.i32 fun _ => hseq.map _ hseq.i32
    | view id => exact hseq.map _ hseq.u64
    | state version entries =>
      exact hseq.bind hseq.u32 fun _ => hseq.bind hseq.u32 fun _ => hseq.map _ (hseq.bytes _)
    | label text =>
      refine hseq.bind hseq.u16 fun length => hseq.bind (hseq.bytes _) fun bytes => ?_
      split
      · exact hseq.done _
      · exact hseq.fail _

theorem sequential_script (s : Custom) : (CustomBody.refill s).Sequential := by
  cases s with
  | counter kind value => exact fun bytes => trivial
  | wrap kind => trivial

/-- Whatever is registered of the catalogue is read in sequence. -/
theorem sequential_registry (r : Registry dialect) : r.Sequential where
  header _ := sequential_refill _
  object _ := sequential_refill _
  custom _ := sequential_script _

/-! ## Sizes -/

/-- Every item and every tag declares the size of its encoding. -/
theorem keepsSize_record (record : Record dialect) : Streamable.KeepsSize record := by
  rcases record with tag | item
  · simp [Streamable.KeepsSize, Streamable.size, Streamable.pieces, FragmentTag.size]
  · show item.size = item.pieces.flatten.length
    cases item with
    | state version entries =>
      simp only [Item.size, Item.pieces, List.flatten_cons, List.flatten_nil, List.length_append,
        Bytes.length_bigEndian, List.length_nil]
      omega
    | _ => simp [Item.size, Item.pieces]

/-- A wrapper takes the bytes of its message. -/
theorem Custom.keepsSize_wrap (kind : UInt8) (m : Message dialect) :
    CustomBody.KeepsSize (D := dialect) (.wrap kind) [m] := by
  intro hheld w h
  rw [emit_wrap] at h
  rcases Message.encodedSize_eq_ok.mp (hheld m List.mem_cons_self w h) with ⟨size, hwire, hlength⟩
  rw [hlength]
  simp [CustomBody.size, Custom.size, wireSizes, hwire, Except.toOption]

/-- A counter takes eight bytes. -/
theorem Custom.keepsSize_counter (kind : UInt8) (value : UInt64) :
    CustomBody.KeepsSize (D := dialect) (.counter kind value) [] := by
  intro _ w h
  obtain rfl : Bytes.bigEndian 8 value.toNat = w := by
    simpa [CustomBody.emit, Custom.emit] using h
  rw [Bytes.length_bigEndian]
  rfl

/-! ## A sample -/

/-- A composite with a header, of a missing buffer, a counter, and a wrapper around some bytes. -/
def sample : Message dialect :=
  .mk ⟨none, none, FlagSet.empty, FlagSet.empty, HeaderMap.empty.put 7 (.item (.seq 9))⟩
    (.composite [.ofBody (.buffer none true), .ofBody (.custom (.counter 40 5) []),
      .ofBody (.custom (.wrap 41) [.ofBody (.bytes (some (View.whole [1, 2])))])])

set_option maxRecDepth 1000 in
theorem encode_sample : sample.encode = .ok [4, 0, 0, 0, 0, 0, 0, 0, 0, 1, 0, 7, 3, 233, 0, 0, 0, 9,
    0, 0, 0, 3, 1, 0, 0, 0, 0, 0, 0, 0, 0, 0, 255, 255, 255, 255, 40, 0, 0, 0, 0, 0, 0, 0, 0, 0,
    0, 0, 0, 0, 0, 0, 0, 5, 41, 0, 0, 0, 0, 0, 0, 0, 0, 0, 0, 0, 0, 0, 0, 0, 0, 0, 0, 0, 0, 0, 0, 2,
    1, 2] := rfl

theorem sample_readable : sample.Readable registry := by
  refine ⟨?_, ⟨?_, trivial⟩, ⟨?_, Custom.counter_readsBack rfl 5, trivial⟩,
    ⟨?_, Custom.wrap_readsBack rfl _, ⟨?_, trivial⟩, trivial⟩, trivial⟩
  · intro entry hentry
    obtain rfl : entry = (7, .item (.seq 9)) := List.mem_singleton.mp hentry
    exact Item.seq_readsBack rfl 9
  all_goals exact fun entry hentry => absurd hentry List.not_mem_nil

theorem sample_keepsSize : sample.KeepsSize := by
  have hheaders : ∀ (m : HeaderMap (Record dialect)), ∀ entry ∈ m.entries,
      Streamable.KeepsSize entry.2 := fun _ entry _ => keepsSize_record entry.2
  exact ⟨hheaders _, ⟨hheaders _, trivial⟩, ⟨hheaders _, Custom.keepsSize_counter 40 5, trivial⟩,
    ⟨hheaders _, Custom.keepsSize_wrap 41 _, ⟨hheaders _, trivial⟩, trivial⟩, trivial⟩

theorem sample_nestsWithin : sample.NestsWithin maxNesting :=
  ⟨trivial, trivial, ⟨trivial, trivial⟩, trivial⟩

end Groupcast.Catalogue
