import Groupcast.Payload.Registry
import Groupcast.Registry

/-!
# Growth of registries

Registration only adds. Whatever is registered after a kind, the blank found under that kind stays
the same, so every registry in use knows the built-in bodies and the fragment tag, and every payload
registry the built-in payloads.
-/

namespace Groupcast

/-! ## Tables -/

namespace KindTable

variable {κ α : Type} [BEq κ]

/-- A table keeps the blanks that it has. -/
theorem get?_insert_of_eq_some {name : String} {number : Nat} {t : KindTable κ α} {kind new : κ}
    {blank more : α} (hget : t.get? kind = some blank) :
    (t.insert name number new more).2.get? kind = some blank := by
  unfold insert
  split
  · exact hget
  · -- The table has the new kind at its end, and kinds are looked up from the front.
    simp only [get?] at hget ⊢
    rw [List.lookup_append, hget, Option.some_or]

theorem get?_insertAboveReserved_of_eq_some {name : String} {t : KindTable UInt8 α}
    {kind new : UInt8} {blank more : α} (hget : t.get? kind = some blank) :
    (t.insertAboveReserved name new more).2.get? kind = some blank := by
  unfold insertAboveReserved
  split
  · exact hget
  · exact get?_insert_of_eq_some hget

theorem mem_of_get?_eq_some [LawfulBEq κ] {t : KindTable κ α} {kind : κ} {blank : α}
    (h : t.get? kind = some blank) : (kind, blank) ∈ t.entries := by
  rcases List.lookup_eq_some_iff.mp h with ⟨before, after, hentries, -⟩
  rw [hentries]
  exact List.mem_append_right before List.mem_cons_self

/-- What a table finds after an insertion, it found before, or it is what was put in. -/
theorem of_get?_insert {name : String} {number : Nat} {t : KindTable κ α} {kind new : κ}
    {blank more : α} (hget : (t.insert name number new more).2.get? kind = some blank) :
    t.get? kind = some blank ∨ blank = more := by
  unfold insert at hget
  split at hget
  · exact Or.inl hget
  · simp only [get?, List.lookup_append, Option.or_eq_some_iff] at hget
    rcases hget with hget | ⟨-, hget⟩
    · exact Or.inl hget
    · rw [List.lookup_cons] at hget
      split at hget
      · exact Or.inr (Option.some.inj hget).symm
      · cases hget

theorem of_get?_insertAboveReserved {name : String} {t : KindTable UInt8 α} {kind new : UInt8}
    {blank more : α} (hget : (t.insertAboveReserved name new more).2.get? kind = some blank) :
    t.get? kind = some blank ∨ blank = more := by
  unfold insertAboveReserved at hget
  split at hget
  · exact Or.inl hget
  · exact of_get?_insert hget

end KindTable

/-! ## Registries -/

namespace Registry

variable {D : Dialect}

/-- The registries that registrations make of one, refused ones among them. -/
inductive Grows (r : Registry D) : Registry D → Prop where
  | refl : Grows r r
  | message {r' : Registry D} (hgrown : Grows r r') (kind : UInt8) (blank : D.Custom) :
    Grows r (r'.addMessage kind blank).2
  | header {r' : Registry D} (hgrown : Grows r r') (kind : UInt16) (blank : Record D) :
    Grows r (r'.addHeader kind blank).2
  | object {r' : Registry D} (hgrown : Grows r r') (kind : UInt16) (blank : Record D) :
    Grows r (r'.addObject kind blank).2

/-- The registries that an application can come to have. -/
def Reachable (r : Registry D) : Prop :=
  builtin.Grows r

theorem body_eq_ok {r : Registry D} {kind : UInt8} {blank : Body D} :
    r.body kind = .ok blank ↔ r.messages.get? kind = some blank := by
  unfold body
  cases r.messages.get? kind <;> simp

theorem header_eq_ok {r : Registry D} {kind : UInt16} {blank : Record D} :
    r.header kind = .ok blank ↔ r.headers.get? kind = some blank := by
  unfold header
  cases r.headers.get? kind <;> simp

theorem object_eq_ok {r : Registry D} {kind : UInt16} {blank : Record D} :
    r.object kind = .ok blank ↔ r.objects.get? kind = some blank := by
  unfold object
  cases r.objects.get? kind <;> simp

/-- A body is refused just when its kind is not in the table. -/
theorem body_eq_error {r : Registry D} {kind : UInt8} {error : DecodeError} :
    r.body kind = .error error ↔
      ¬ r.messages.contains kind ∧ error = .unknownMessageKind kind := by
  unfold body KindTable.contains
  cases r.messages.get? kind <;> simp [eq_comm]

theorem header_eq_error {r : Registry D} {kind : UInt16} {error : DecodeError} :
    r.header kind = .error error ↔
      ¬ r.headers.contains kind ∧ error = .unknownHeaderKind kind := by
  unfold header KindTable.contains
  cases r.headers.get? kind <;> simp [eq_comm]

theorem object_eq_error {r : Registry D} {kind : UInt16} {error : DecodeError} :
    r.object kind = .error error ↔
      ¬ r.objects.contains kind ∧ error = .unknownObjectKind kind := by
  unfold object KindTable.contains
  cases r.objects.get? kind <;> simp [eq_comm]

namespace Grows

variable {r r' : Registry D}

theorem trans {r'' : Registry D} (hgrown : r.Grows r') (hmore : r'.Grows r'') : r.Grows r'' := by
  induction hmore with
  | refl => exact hgrown
  | message _ kind blank ih => exact ih.message kind blank
  | header _ kind blank ih => exact ih.header kind blank
  | object _ kind blank ih => exact ih.object kind blank

/-- A body that is found stays found: other tables are not touched. -/
theorem body_eq_ok (hgrown : r.Grows r') {kind : UInt8} {blank : Body D}
    (hfound : r.body kind = .ok blank) : r'.body kind = .ok blank := by
  induction hgrown with
  | refl => exact hfound
  | message _ _ _ ih =>
    rw [Registry.body_eq_ok] at ih ⊢
    exact KindTable.get?_insertAboveReserved_of_eq_some ih
  | header _ _ _ ih => exact ih
  | object _ _ _ ih => exact ih

/-- A header that is found stays found. -/
theorem header_eq_ok (hgrown : r.Grows r') {kind : UInt16} {blank : Record D}
    (hfound : r.header kind = .ok blank) : r'.header kind = .ok blank := by
  induction hgrown with
  | refl => exact hfound
  | message _ _ _ ih => exact ih
  | header _ _ _ ih =>
    rw [Registry.header_eq_ok] at ih ⊢
    exact KindTable.get?_insert_of_eq_some ih
  | object _ _ _ ih => exact ih

/-- An object that is found stays found. -/
theorem object_eq_ok (hgrown : r.Grows r') {kind : UInt16} {blank : Record D}
    (hfound : r.object kind = .ok blank) : r'.object kind = .ok blank := by
  induction hgrown with
  | refl => exact hfound
  | message _ _ _ ih => exact ih
  | header _ _ _ ih => exact ih
  | object _ _ _ ih =>
    rw [Registry.object_eq_ok] at ih ⊢
    exact KindTable.get?_insert_of_eq_some ih

end Grows

/-! ## What every registry knows -/

namespace Reachable

variable {r : Registry D}

/-- Every registry finds the blank bodies of the built-in kinds. -/
theorem body_builtin (hreach : r.Reachable) (kind : BodyKind) :
    r.body kind.toByte = .ok (.blank kind) := by
  apply Grows.body_eq_ok hreach
  cases kind <;> rfl

/-- Every registry finds the blank fragment tag. -/
theorem header_tag (hreach : r.Reachable) : r.header FragmentTag.kind = .ok (.tag .blank) :=
  Grows.header_eq_ok hreach rfl

/-- Every body that is found is a blank of a built-in kind, or one of the application that holds no
messages. -/
theorem body_cases (hreach : r.Reachable) {k : UInt8} {blank : Body D}
    (hfind : r.body k = .ok blank) :
    (∃ kind : BodyKind, k = kind.toByte ∧ blank = .blank kind) ∨ ∃ s, blank = .custom s [] := by
  induction hreach with
  | refl =>
    have hmem := KindTable.mem_of_get?_eq_some (body_eq_ok.mp hfind)
    rcases List.mem_map.mp hmem with ⟨kind, -, h⟩
    cases h
    exact Or.inl ⟨kind, rfl, rfl⟩
  | message _ _ _ ih =>
    rcases KindTable.of_get?_insertAboveReserved (body_eq_ok.mp hfind) with hfound | rfl
    · exact ih (body_eq_ok.mpr hfound)
    · exact Or.inr ⟨_, rfl⟩
  | header _ _ _ ih => exact ih hfind
  | object _ _ _ ih => exact ih hfind

end Reachable

end Registry

/-! ## Payload registries -/

namespace PayloadRegistry

variable {π : Type}

/-- The payload registries that an application can come to have. -/
inductive Reachable : PayloadRegistry π → Prop where
  | builtin : Reachable builtin
  | add {r : PayloadRegistry π} (hreach : Reachable r) (kind : UInt8) (blank : π) :
    Reachable (r.add kind blank).2

theorem blank_eq_ok {r : PayloadRegistry π} {kind : UInt8} {blank : Payload π} :
    r.blank kind = .ok blank ↔ r.payloads.get? kind = some blank := by
  unfold PayloadRegistry.blank
  cases r.payloads.get? kind <;> simp

theorem blank_eq_error {r : PayloadRegistry π} {kind : UInt8} {error : DecodeError} :
    r.blank kind = .error error ↔ ¬ r.contains kind ∧ error = .unknownPayloadKind kind := by
  unfold PayloadRegistry.blank contains KindTable.contains
  cases r.payloads.get? kind <;> simp [eq_comm]

namespace Reachable

variable {r : PayloadRegistry π}

/-- A payload that is found stays found, so the built-in ones are. -/
theorem blank_of_builtin (hreach : r.Reachable) {kind : UInt8} {blank : Payload π}
    (hfound : PayloadRegistry.builtin.blank kind = .ok blank) : r.blank kind = .ok blank := by
  induction hreach with
  | builtin => exact hfound
  | add _ _ _ ih =>
    exact blank_eq_ok.mpr (KindTable.get?_insertAboveReserved_of_eq_some (blank_eq_ok.mp ih))

theorem blank_bytes (hreach : r.Reachable) :
    r.blank Payload.bytesKind = .ok (.bytes View.empty) :=
  hreach.blank_of_builtin rfl

theorem blank_composite (hreach : r.Reachable) :
    r.blank Payload.compositeKind = .ok (.composite []) :=
  hreach.blank_of_builtin rfl

/-- Every payload that is found is a blank of a built-in kind, or one of the application. -/
theorem blank_cases (hreach : r.Reachable) {kind : UInt8} {blank : Payload π}
    (hfind : r.blank kind = .ok blank) :
    (kind = Payload.bytesKind ∧ blank = .bytes View.empty) ∨
      (kind = Payload.compositeKind ∧ blank = .composite []) ∨ ∃ s, blank = .custom s := by
  induction hreach with
  | builtin =>
    have hmem := KindTable.mem_of_get?_eq_some (blank_eq_ok.mp hfind)
    simp only [PayloadRegistry.builtin, List.mem_cons, Prod.mk.injEq, List.not_mem_nil,
      or_false] at hmem
    exact hmem.imp_right Or.inl
  | add _ _ _ ih =>
    rcases KindTable.of_get?_insertAboveReserved (blank_eq_ok.mp hfind) with hfound | rfl
    · exact ih (blank_eq_ok.mpr hfound)
    · exact Or.inr (Or.inr ⟨_, rfl⟩)

end Reachable

end PayloadRegistry

end Groupcast
