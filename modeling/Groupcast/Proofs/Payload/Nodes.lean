import Groupcast.Payload.Basic

/-!
# Payloads as trees

The payloads that lie in a payload, to whatever depth, are its nodes. They are listed depth first,
each before those that lie in it, which is the order in which they are written.
-/

namespace Groupcast.Payload

variable {π : Type}

/-- What holds of a composite if it holds of all payloads in it, and of those that are no
composites, holds of every payload. -/
@[elab_as_elim]
theorem induct {motive : Payload π → Prop} (bytes : ∀ view, motive (bytes view))
    (composite : ∀ children, (∀ p ∈ children, motive p) → motive (composite children))
    (custom : ∀ s, motive (custom s)) (p : Payload π) : motive p :=
  @Payload.rec π motive (fun ps => ∀ p ∈ ps, motive p) bytes composite custom
    (fun _ hmem => absurd hmem List.not_mem_nil)
    (fun _ _ hp hps => List.forall_mem_cons.mpr ⟨hp, hps⟩) p

mutual

/-- A payload and those that lie in it, each before those that lie in it in turn. -/
def nodes : Payload π → List (Payload π)
  | bytes view => [bytes view]
  | composite children => composite children :: nodesOf children
  | custom s => [custom s]

/-- `Payload.nodes` of each payload. -/
def nodesOf : List (Payload π) → List (Payload π)
  | [] => []
  | p :: ps => p.nodes ++ nodesOf ps

end

theorem nodesOf_eq_flatMap (ps : List (Payload π)) : nodesOf ps = ps.flatMap nodes := by
  induction ps with
  | nil => rfl
  | cons p ps ih => rw [nodesOf, ih, List.flatMap_cons]

theorem nodes_composite (children : List (Payload π)) :
    (composite children).nodes = composite children :: children.flatMap nodes := by
  rw [nodes, nodesOf_eq_flatMap]

theorem mem_nodes_composite {children : List (Payload π)} {node : Payload π} :
    node ∈ (composite children).nodes ↔
      node = composite children ∨ ∃ p ∈ children, node ∈ p.nodes := by
  rw [nodes_composite, List.mem_cons, List.mem_flatMap]

/-- The nodes of a child are nodes of the composite. -/
theorem mem_nodes_of_mem {children : List (Payload π)} {p node : Payload π} (hp : p ∈ children)
    (hnode : node ∈ p.nodes) : node ∈ (composite children).nodes :=
  mem_nodes_composite.mpr (Or.inr ⟨p, hp, hnode⟩)

/-- A payload comes before all that lies in it. -/
theorem exists_nodes_eq_cons (p : Payload π) : ∃ below, p.nodes = p :: below := by
  cases p <;> exact ⟨_, rfl⟩

theorem self_mem_nodes (p : Payload π) : p ∈ p.nodes := by
  obtain ⟨below, hnodes⟩ := p.exists_nodes_eq_cons
  rw [hnodes]
  exact List.mem_cons_self

end Groupcast.Payload
