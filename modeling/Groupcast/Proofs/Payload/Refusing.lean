import Groupcast.Proofs.Payload.Canonical
import Groupcast.Proofs.Payload.Nodes

/-!
# When payloads are refused

A payload is written node by node, each before those that lie in it, until one cannot be: a
composite with more payloads than can be counted, a view whose length does not fit its field, or a
payload of the application that refuses. So the first node that refuses by itself decides.
-/

namespace Groupcast

variable {π : Type} [CustomPayload π]

/-- Whether a payload of the application declares the bytes that it is written in. -/
def CustomPayload.KeepsSize (s : π) : Prop :=
  ∀ w, (emit s).result = .ok w → w.length = wireSize s

namespace Payload

/-- Why a node cannot be written, whatever lies in it. -/
def refusal? : Payload π → Option EncodeError
  | bytes view =>
    if view.length ≤ Emission.maxLength then none else some (.lengthOverflow view.length)
  | composite children =>
    if children.length < UInt16.size then none else some (.countOverflow children.length)
  | custom s => (CustomPayload.emit s).failure

theorem failure_emit_eq_failure_emitUntagged (p : Payload π) :
    p.emit.failure = p.emitUntagged.failure := by
  rw [emit, Emission.failure_append]
  rfl

/-- Payloads in a row are written up to the first of their nodes that refuses, if each of them is.
Induction on the row. -/
theorem failure_concat_emissions {ps : List (Payload π)}
    (h : ∀ p ∈ ps, p.emit.failure = p.nodes.findSome? refusal?) :
    (Emission.concat (emissions ps)).failure = (nodesOf ps).findSome? refusal? := by
  induction ps with
  | nil => rfl
  | cons p ps ih =>
    have hp := h p List.mem_cons_self
    have hps := ih fun q hq => h q (List.mem_cons_of_mem p hq)
    have hcons : Emission.concat (emissions (p :: ps)) = p.emit ++ Emission.concat (emissions ps) :=
      rfl
    rw [hcons, Emission.failure_append, hp, hps, nodesOf, List.findSome?_append]

/-- A payload is written up to the first node that refuses: a composite refuses itself, or what lies
in it is refused. -/
theorem failure_emit (p : Payload π) : p.emit.failure = p.nodes.findSome? refusal? := by
  rw [failure_emit_eq_failure_emitUntagged]
  induction p using induct with
  | bytes view =>
    rw [emitUntagged, View.emit, Emission.failure_append, nodes, List.findSome?_singleton, refusal?,
      Emission.length]
    split <;> rfl
  | composite children ih =>
    rw [emitUntagged, nodes, List.findSome?_cons, refusal?]
    by_cases hcount : children.length < UInt16.size
    · -- The number is written, which leaves it to the payloads.
      rw [if_pos hcount, if_pos hcount, Emission.failure_append]
      refine failure_concat_emissions fun p hp => ?_
      rw [failure_emit_eq_failure_emitUntagged, ih p hp]
    · -- The payloads are not even tried.
      rw [if_neg hcount, if_neg hcount]
      rfl
  | custom s => rw [emitUntagged, nodes, List.findSome?_singleton, refusal?]

/-! ## The size -/

end Payload

namespace Catalogue

end Catalogue

end Groupcast
