import Groupcast.Proofs.Catalogue.Contract
import Groupcast.Proofs.Fragment.Lossless
import Groupcast.Proofs.Message.Faithful

/-!
# Blanks that are faithful

Fragment tags, sequence numbers and wrappers are written as they were read, so there are registries
that keep what is asked of them for normal forms.
-/

namespace Groupcast

/-- Tags lose no more than the spelling of their truth value. -/
theorem FragmentTag.faithful {D : Dialect} {r : Registry D} (hreach : r.Reachable) :
    Streamable.Faithful r.header FragmentTag.kind (.tag .blank : Record D) := by
  intro source value rest h
  rcases Reading.run_map_eq_ok.mp h with ⟨tag, htag, rfl⟩
  rcases Reading.run_bind_eq_ok htag with ⟨id, _, hid, h₁⟩
  rcases Reading.run_bind_eq_ok h₁ with ⟨index, _, hindex, h₂⟩
  rcases Reading.run_bind_eq_ok h₂ with ⟨count, _, hcount, h₃⟩
  rcases Reading.run_bind_eq_ok h₃ with ⟨needsDecoding, _, hflag, hdone⟩
  cases hdone
  refine ⟨rfl, FragmentTag.readsBack hreach _, ?_⟩
  have hspelled : (Streamable.refill FragmentTag.blank).Respells source
      (Bytes.bigEndian 8 id.toNat ++ (Bytes.bigEndian 4 index.toNat ++
        (Bytes.bigEndian 4 count.toNat ++ [if needsDecoding then 1 else 0]))) :=
    (Reading.respells_u64 hid).bind hid ((Reading.respells_u32 hindex).bind hindex
      ((Reading.respells_u32 hcount).bind hcount
        ((Reading.respells_flag hflag).bind_done hflag rfl)))
  exact hspelled.map htag _

namespace Catalogue

theorem Item.seq_faithful {find : UInt16 → Except DecodeError (Record dialect)} {blank : UInt32}
    (hfind : find (Item.kind (.seq blank)) = .ok (.item (.seq blank))) :
    Streamable.Faithful find (Item.kind (.seq blank)) (.item (.seq blank) : Record dialect) := by
  intro source value rest h
  rcases Reading.run_map_eq_ok.mp h with ⟨item, hitem, rfl⟩
  rcases Reading.run_bind_eq_ok hitem with ⟨n, _, hn, hdone⟩
  cases hdone
  refine ⟨rfl, Item.seq_readsBack hfind n, ?_⟩
  have hpieces : (Streamable.pieces (.item (.seq n) : Record dialect)).flatten
      = Bytes.bigEndian 4 n.toNat := List.append_nil _
  have hspelled : (Streamable.refill (Item.seq blank)).Respells source
      (Bytes.bigEndian 4 n.toNat) := (Reading.respells_u32 hn).bind_done hn rfl
  rw [hpieces]
  exact hspelled.map hitem _

/-- A wrapper takes nothing besides its message. -/
theorem Custom.wrap_faithful {r : Registry dialect} {kind : UInt8}
    (hfind : r.body kind = .ok (.custom (.wrap kind) [])) :
    CustomBody.Faithful r kind (.wrap kind) := by
  intro source s held rest h
  rcases Reading.run_bind_eq_ok (Body.read_eq_ok.mp h) with ⟨⟨s', held'⟩, _, hscript, hdone⟩
  cases hdone
  rcases Reading.run_bind_eq_ok hscript with ⟨m, _, hm, hdone⟩
  cases hdone
  refine ⟨rfl, Custom.wrap_readsBack hfind m, fun hheld => ?_⟩
  rcases hheld m List.mem_cons_self with ⟨w, hw⟩
  exact ⟨w, (congrArg Emission.result (Custom.emit_wrap kind m)).trans hw, m, rest, w, [], hm, hw,
    (List.append_nil w).symm, rfl⟩

/-- A registry of sequence numbers, as headers and as objects, and of wrappers. -/
def smallRegistry : Registry dialect where
  messages := ⟨Registry.builtin.messages.entries ++ [(41, .custom (.wrap 41) [])]⟩
  headers := ⟨Registry.builtin.headers.entries ++ [(1001, .item (.seq 0))]⟩
  objects := ⟨[(1001, .item (.seq 0))]⟩

theorem smallRegistry_reachable : smallRegistry.Reachable := by
  have hheader := (Registry.Grows.refl (r := .builtin (D := dialect))).header 1001 (.item (.seq 0))
  have hobject := hheader.object 1001 (.item (.seq 0))
  exact hobject.message 41 (.wrap 41)

theorem smallRegistry_faithful : smallRegistry.Faithful where
  header {k blank} hfind := by
    have hmem := KindTable.mem_of_get?_eq_some (Registry.header_eq_ok.mp hfind)
    have hentry : (k, blank) = (FragmentTag.kind, .tag .blank) ∨
        (k, blank) = (1001, .item (.seq 0)) := by
      simpa [smallRegistry, Registry.builtin] using hmem
    rcases hentry with h | h
    · cases h
      exact FragmentTag.faithful smallRegistry_reachable
    · cases h
      exact Item.seq_faithful rfl
  object {k blank} hfind := by
    have hmem := KindTable.mem_of_get?_eq_some (Registry.object_eq_ok.mp hfind)
    have hentry : (k, blank) = (1001, .item (.seq 0)) := List.mem_singleton.mp hmem
    cases hentry
    exact Item.seq_faithful rfl
  custom {k s} hfind := by
    have hmem := KindTable.mem_of_get?_eq_some (Registry.body_eq_ok.mp hfind)
    rcases List.mem_append.mp hmem with hbuiltin | hwrap
    · -- No built-in blank is a body of the application.
      rcases List.mem_map.mp hbuiltin with ⟨kind, -, h⟩
      cases kind <;> cases h
    · cases List.mem_singleton.mp hwrap
      exact Custom.wrap_faithful rfl

end Catalogue

end Groupcast
