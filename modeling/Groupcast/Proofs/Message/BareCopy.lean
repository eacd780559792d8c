import Groupcast.Message.Copy
import Groupcast.Proofs.Catalogue.Contract

/-!
# Copies without payload

A copy of a message without its payload is an envelope around a bare body: a body of the same kind
that holds nothing. What is written of it does not depend on what the message held. A bare buffer
body keeps its wish about memory, which is not written where there is no buffer.

A bare window is an empty one. It has no bytes, but unlike other bare bodies it counts as payload
and as an array, so only for the other kinds can a copy without payload be told by asking.
-/

namespace Groupcast

variable {D : Dialect}

/-! ## Bare bodies -/

namespace Body

/-- The bodies of a built-in kind that hold nothing. -/
inductive Bare : BodyKind → Body D → Prop where
  | ofKind (kind : BodyKind) : Bare kind (blank kind)
  | ofBuffer (direct : Bool) : Bare .buffer (buffer none direct)
  | ofDirectBuffer (heap : Bool) : Bare .directBuffer (directBuffer none heap)

/-- A copy without payload is bare. -/
theorem bare_copy_false {b : Body D} {kind : BodyKind} (hkind : b.builtin? = some kind) :
    Bare kind (b.copy false) := by
  cases b with
  | custom s held => cases hkind
  | buffer view direct =>
    obtain rfl := Option.some.inj hkind
    exact .ofBuffer direct
  | directBuffer view heap =>
    obtain rfl := Option.some.inj hkind
    exact .ofDirectBuffer heap
  | empty | bytes _ | composite _ | object _ | serializable _ | excerpt _ _ | received _ =>
    obtain rfl := Option.some.inj hkind
    exact .ofKind _

namespace Bare

variable {kind : BodyKind} {b : Body D}

theorem kind_eq (h : Bare kind b) : b.kind = kind.toByte := by
  cases h with
  | ofKind => cases kind <;> rfl
  | ofBuffer direct => rfl
  | ofDirectBuffer heap => rfl

theorem length_eq (h : Bare kind b) : b.length = .ok 0 := by
  cases h with
  | ofKind => cases kind <;> rfl
  | ofBuffer direct => rfl
  | ofDirectBuffer heap => rfl

/-- All bare bodies of a kind take the same bytes on the wire, -/
theorem wireSize_eq (h : Bare kind b) : b.wireSize = (Body.blank kind : Body D).wireSize := by
  cases h <;> rfl

/-- and are written alike. -/
theorem emit_eq (h : Bare kind b) : b.emit = (Body.blank kind : Body D).emit := by
  cases h <;> rfl

/-- Of the bare bodies only an empty window counts as payload, -/
theorem hasPayload_iff (h : Bare kind b) : b.hasPayload = true ↔ kind = .fragment := by
  have hasked : b.hasPayload = decide (kind = .fragment) := by
    cases h with
    | ofKind => cases kind <;> rfl
    | ofBuffer direct => rfl
    | ofDirectBuffer heap => rfl
  rw [hasked, decide_eq_true_iff]

/-- and only an empty window has an array. -/
theorem hasArray_iff (h : Bare kind b) : b.hasArray = true ↔ kind = .fragment := by
  have hasked : b.hasArray = decide (kind = .fragment) := by
    cases h with
    | ofKind => cases kind <;> rfl
    | ofBuffer direct => cases direct <;> rfl
    | ofDirectBuffer heap => rfl
  rw [hasked, decide_eq_true_iff]

end Bare

theorem kind_of_builtin? {b : Body D} {kind : BodyKind} (hkind : b.builtin? = some kind) :
    b.kind = kind.toByte := by
  cases b with
  | custom s held => cases hkind
  | _ =>
    obtain rfl := Option.some.inj hkind
    rfl

end Body

/-! ## Bare messages -/

namespace Message

/-- Messages with the same envelope and bare bodies of the same kind are encoded alike. -/
theorem encode_eq_of_bare {kind : BodyKind} {b b' : Body D} (h : Body.Bare kind b)
    (h' : Body.Bare kind b') (e : Envelope D) : (mk e b).encode = (mk e b').encode := by
  have hsize : (mk e b).wireSize = (mk e b').wireSize := by
    rw [wireSize, wireSize, h.wireSize_eq, h'.wireSize_eq]
  have hemit : (mk e b).emit = (mk e b').emit := by
    rw [emit, emit, h.kind_eq, h'.kind_eq, h.emit_eq, h'.emit_eq]
  rw [encode, encode, hsize, hemit]

/-- A copy without payload keeps the kind, the addresses and the flags, and the headers if they are
asked for. It has no payload bytes, and it is encoded as the blank body of its kind is in that
envelope; so nothing of the payload is in it, whatever that was. It counts as having no payload and
no array, unless it is a window. -/
theorem copy_withoutPayload {m : Message D} {kind : BodyKind} (hkind : m.body.builtin? = some kind)
    (withHeaders : Bool) :
    (m.copy false withHeaders).kind = m.kind ∧
    (m.copy false withHeaders).envelope.dest = m.envelope.dest ∧
    (m.copy false withHeaders).envelope.src = m.envelope.src ∧
    (m.copy false withHeaders).envelope.flags = m.envelope.flags ∧
    (m.copy false withHeaders).envelope.transient = m.envelope.transient ∧
    (m.copy false withHeaders).envelope.headers
      = (if withHeaders then m.envelope.headers else HeaderMap.empty) ∧
    (m.copy false withHeaders).length = .ok 0 ∧
    ((m.copy false withHeaders).body.hasPayload = true ↔ kind = .fragment) ∧
    ((m.copy false withHeaders).body.hasArray = true ↔ kind = .fragment) ∧
    (m.copy false withHeaders).encode
      = (mk (m.copy false withHeaders).envelope (.blank kind)).encode ∧
    ∀ b : Body D, b.builtin? = some kind →
      ((m.setBody b).copy false withHeaders).encode = (m.copy false withHeaders).encode := by
  have hbare : Body.Bare kind (m.body.copy false) := Body.bare_copy_false hkind
  have hsame : (m.body.copy false).kind = m.body.kind :=
    hbare.kind_eq.trans (Body.kind_of_builtin? hkind).symm
  refine ⟨hsame, rfl, rfl, rfl, rfl, rfl, hbare.length_eq, hbare.hasPayload_iff,
    hbare.hasArray_iff, ?_, ?_⟩
  · exact encode_eq_of_bare hbare (.ofKind kind) _
  · intro b hb
    exact encode_eq_of_bare (Body.bare_copy_false hb) hbare _

/-- A composite with a header is copied to an empty one, with the header. -/
theorem copy_withoutPayload_sample :
    (Catalogue.sample.copy false true).length = .ok 0 ∧
    ¬ (Catalogue.sample.copy false true).body.hasPayload = true ∧
    (Catalogue.sample.copy false true).encode
      = .ok [4, 0, 0, 0, 0, 0, 0, 0, 0, 1, 0, 7, 3, 233, 0, 0, 0, 9, 0, 0, 0, 0] := by
  obtain ⟨-, -, -, -, -, -, hlength, hpayload, -, hencode, -⟩ :=
    copy_withoutPayload (m := Catalogue.sample) rfl true
  refine ⟨hlength, ?_, hencode⟩
  rw [hpayload]
  decide

/-- A copy of a window without payload has no bytes, and yet a payload and an array. -/
theorem hasPayload_copy_window :
    ((ofBody (D := Catalogue.dialect) (.received (View.whole [1, 2]))).copy false true).length
      = .ok 0 ∧
    ((ofBody (D := Catalogue.dialect)
      (.received (View.whole [1, 2]))).copy false true).body.hasPayload = true ∧
    ((ofBody (D := Catalogue.dialect)
      (.received (View.whole [1, 2]))).copy false true).body.hasArray = true :=
  ⟨rfl, rfl, rfl⟩

end Message

end Groupcast
