import Groupcast.Payload.Registry
import Groupcast.Proofs.Message.Normal
import Groupcast.Proofs.Reading.Exact

/-!
# Payloads that can be read back

What a reader gets of a payload, and what it must know to get it: blanks for the payloads of the
application that restore these from their encodings. And what the payload itself must keep to: its
composites do not lie too deep in one another.
-/

namespace Groupcast

variable {π : Type}

namespace Payload

/-! ## Normal forms -/

mutual

/-- The payload that a reader gets. Its views show whole buffers of their own. -/
def norm : Payload π → Payload π
  | bytes view => bytes view.norm
  | composite children => composite (norms children)
  | custom s => custom s

/-- `Payload.norm` of each payload. -/
def norms : List (Payload π) → List (Payload π)
  | [] => []
  | p :: ps => p.norm :: norms ps

end

theorem norms_eq_map (ps : List (Payload π)) : norms ps = ps.map norm := by
  induction ps with
  | nil => rfl
  | cons p ps ih => simp [norms, ih]

/-! ## Nesting -/

mutual

/-- Whether composites nest at most `levels` deep. -/
def NestsWithin : Payload π → (levels : Nat) → Prop
  | composite _, 0 => False
  | composite children, levels + 1 => AllNestWithin children levels
  | _, _ => True

/-- `Payload.NestsWithin` of each payload. -/
def AllNestWithin : List (Payload π) → (levels : Nat) → Prop
  | [], _ => True
  | p :: ps, levels => p.NestsWithin levels ∧ AllNestWithin ps levels

end

theorem allNestWithin_iff {ps : List (Payload π)} {levels : Nat} :
    AllNestWithin ps levels ↔ ∀ p ∈ ps, p.NestsWithin levels := by
  induction ps with
  | nil => simp [AllNestWithin]
  | cons p ps ih => simp [AllNestWithin, ih]

end Payload

variable [CustomPayload π]

/-! ## Payloads of the application -/

/-- Whether there is a blank registered under the kind of a payload which, refilled from the
encoding of the payload, is the payload. -/
def CustomPayload.ReadsBack (r : PayloadRegistry π) (s : π) : Prop :=
  ∃ blank, r.blank (kind s) = .ok (.custom blank) ∧
    ∀ w, (emit s).result = .ok w → (refill blank).Restores w s

/-- Whether every blank of the application is refilled to payloads of the kind that it is registered
under, which can be read back and are written as they were read. -/
def PayloadRegistry.Exact (r : PayloadRegistry π) : Prop :=
  ∀ ⦃kind : UInt8⦄ ⦃blank : π⦄, r.blank kind = .ok (.custom blank) →
    (CustomPayload.refill blank).Exact
      (fun s => CustomPayload.kind s = kind ∧ CustomPayload.ReadsBack r s) CustomPayload.emit

namespace Payload

mutual

/-- Whether the payloads of the application that lie in a payload are registered and can be read
back. -/
def Readable (r : PayloadRegistry π) : Payload π → Prop
  | bytes _ => True
  | composite children => AllReadable r children
  | custom s => CustomPayload.ReadsBack r s

/-- `Payload.Readable` of each payload. -/
def AllReadable (r : PayloadRegistry π) : List (Payload π) → Prop
  | [] => True
  | p :: ps => p.Readable r ∧ AllReadable r ps

end

theorem allReadable_iff {r : PayloadRegistry π} {ps : List (Payload π)} :
    AllReadable r ps ↔ ∀ p ∈ ps, p.Readable r := by
  induction ps with
  | nil => simp [AllReadable]
  | cons p ps ih => simp [AllReadable, ih]

end Payload

end Groupcast
