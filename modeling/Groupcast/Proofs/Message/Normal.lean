import Groupcast.Message.Edit
import Groupcast.Proofs.Message.Writing

/-!
# What readers get

A reader does not get a message back as it was built, but in normal form: its views show whole
buffers of their own, objects are packed, windows are cut out, and a buffer that is missing says
nothing about memory. The normal form has the same envelope, kind, length and payload, and holds the
normal forms of the same messages in the same order.
-/

namespace Groupcast

variable {D : Dialect}

/-! ## Normal forms -/

/-- A view of the same bytes with a buffer of its own. -/
def View.norm (v : View) : View :=
  whole v.data

/-- A parcel as received. An object that cannot be packed cannot be sent either. -/
def Parcel.norm : Parcel D → Parcel D
  | record r => record r
  | object x =>
    match Packable.pack x with
    | .ok bytes => packed bytes
    | .error _ => object x
  | packed bytes => packed bytes

mutual

/-- The message that a reader gets. -/
def Message.norm : Message D → Message D
  | .mk e body => .mk e body.norm

/-- The body that a reader gets. A window that cannot be cut out cannot be sent either. -/
def Body.norm : Body D → Body D
  | .empty => .empty
  | .bytes view => .bytes (view.map View.norm)
  | .buffer none _ => .buffer none false
  | .buffer (some view) direct => .buffer (some view.norm) direct
  | .directBuffer none _ => .directBuffer none false
  | .directBuffer (some view) heap => .directBuffer (some view.norm) heap
  | .composite children => .composite (norms children)
  | .object r => .object r
  | .serializable parcel => .serializable (parcel.map Parcel.norm)
  | .excerpt whole window =>
    match (whole.emit.window window).result with
    | .ok bytes => .received (View.whole bytes)
    | .error _ => .excerpt whole window
  | .received view => .received view.norm
  | .custom s held => .custom s (norms held)

/-- `Message.norm` of each message. -/
def norms : List (Message D) → List (Message D)
  | [] => []
  | m :: ms => m.norm :: norms ms

end

theorem norms_eq_map (ms : List (Message D)) : norms ms = ms.map Message.norm := by
  induction ms with
  | nil => rfl
  | cons m ms ih => simp [norms, ih]

@[simp] theorem View.data_norm (v : View) : v.norm.data = v.data := data_whole _

@[simp] theorem View.length_norm (v : View) : v.norm.length = v.length := v.length_data

@[simp] theorem Message.envelope_norm (m : Message D) : m.norm.envelope = m.envelope := by
  cases m
  rfl

@[simp] theorem Message.body_norm (m : Message D) : m.norm.body = m.body.norm := by
  cases m
  rfl

/-! ## What stays the same -/

/-- A window that is cut out stays a fragment. -/
@[simp] theorem Body.kind_norm (b : Body D) : b.norm.kind = b.kind := by
  cases b with
  | buffer view direct => cases view <;> rfl
  | directBuffer view heap => cases view <;> rfl
  | excerpt whole window =>
    unfold norm
    split <;> rfl
  | _ => rfl

@[simp] theorem Message.kind_norm (m : Message D) : m.norm.kind = m.kind := by
  unfold Message.kind
  rw [body_norm, Body.kind_norm]

/-- A composite holds the normal forms of its children, in their order. -/
theorem Message.children?_norm (m : Message D) :
    m.norm.children? = m.children?.map (·.map Message.norm) := by
  unfold children?
  rw [body_norm]
  cases m.body with
  | composite children => simp [Body.norm, norms_eq_map]
  | buffer view direct => cases view <;> rfl
  | directBuffer view heap => cases view <;> rfl
  | excerpt whole window =>
    cases hcut : (whole.emit.window window).result <;> simp [Body.norm, hcut]
  | _ => rfl

theorem View.optionalLength_map_norm (view : Option View) :
    View.optionalLength (view.map norm) = View.optionalLength view := by
  cases view with
  | none => rfl
  | some view => exact view.length_norm

theorem Parcel.length_map_norm (parcel : Option (Parcel D)) :
    Parcel.length (parcel.map norm) = Parcel.length parcel := by
  rcases parcel with _ | (record | object | bytes)
  · rfl
  · rfl
  · -- The packed bytes are those that the length is taken of.
    simp only [Option.map_some, norm]
    cases hpack : Packable.pack object with
    | error fault => rfl
    | ok bytes => simp only [Parcel.length, packed?_object_of_ok hpack, packed?_packed]
  · rfl

mutual

/-- Payload bytes are neither lost nor added. -/
@[simp] theorem Message.length_norm (m : Message D) : m.norm.length = m.length := by
  cases m with
  | mk e body =>
    simp only [Message.norm, Message.length]
    exact Body.length_norm body

@[simp] theorem Body.length_norm (b : Body D) : b.norm.length = b.length := by
  cases b with
  | empty => rfl
  | bytes view => simp only [Body.norm, Body.length, View.optionalLength_map_norm]
  | buffer view direct =>
    rcases view with _ | view
    · rfl
    · simp [Body.norm, Body.length, View.optionalLength]
  | directBuffer view heap =>
    rcases view with _ | view
    · rfl
    · simp [Body.norm, Body.length, View.optionalLength]
  | composite children => simp only [Body.norm, Body.length, lengths_norms children]
  | object r => rfl
  | serializable parcel => simp only [Body.norm, Body.length, Parcel.length_map_norm]
  | excerpt whole window =>
    unfold Body.norm
    split
    case h_1 bytes hcut =>
      -- As many bytes were cut out as the window has.
      rcases Emission.result_window_eq_ok.mp hcut with ⟨_, -, -, hlength⟩
      simp [Body.length, View.whole, hlength]
    case h_2 => rfl
  | received view => simp [Body.norm, Body.length]
  | custom s held => simp only [Body.norm, Body.length, lengths_norms held]

theorem lengths_norms (ms : List (Message D)) : lengths (norms ms) = lengths ms := by
  cases ms with
  | nil => rfl
  | cons m ms => simp only [norms, lengths, Message.length_norm m, lengths_norms ms]

end

/-- Whether there is a payload is kept: what is missing stays missing. -/
@[simp] theorem Body.hasPayload_norm (b : Body D) : b.norm.hasPayload = b.hasPayload := by
  cases b with
  | bytes view => cases view <;> rfl
  | buffer view direct => cases view <;> rfl
  | directBuffer view heap => cases view <;> rfl
  | composite children => cases children <;> rfl
  | serializable parcel => cases parcel <;> rfl
  | excerpt whole window =>
    unfold norm
    split <;> rfl
  | custom s held => simp only [norm, hasPayload, lengths_norms]
  | _ => rfl

end Groupcast
