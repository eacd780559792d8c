import Groupcast.Proofs.Reading.Restore

/-!
# Readings that are refused

A reading refuses some bytes when, whatever follows these bytes, it fails with the same error. A row
of readings is refused at the first of them that is, whatever was to come after it, as long as those
before it are restored.
-/

namespace Groupcast.Reading

variable {α β : Type} {limit : Nat} {u v : Bytes} {error : DecodeError}

/-- From `bytes` and anything after them the reading fails with `error`, on inputs of at most
`limit` bytes. -/
def RefusesWithin (limit : Nat) (reading : Reading α) (bytes : Bytes) (error : DecodeError) :
    Prop :=
  ∀ rest, (bytes ++ rest).length ≤ limit → (reading.run (bytes ++ rest)).1 = .error error

theorem refusesWithin_fail (limit : Nat) (bytes : Bytes) (error : DecodeError) :
    (fail error : Reading α).RefusesWithin limit bytes error :=
  fun _ _ => rfl

/-- What is read after a field that is refused does not matter. -/
theorem RefusesWithin.bind {a : Reading α} (ha : a.RefusesWithin limit u error) (v : Bytes)
    (next : α → Reading β) : (a.bind next).RefusesWithin limit (u ++ v) error := by
  intro rest hlength
  rw [List.append_assoc] at hlength ⊢
  have hfirst := ha (v ++ rest) hlength
  rw [run_bind]
  rcases hrun : a.run (u ++ (v ++ rest)) with ⟨outcome, left⟩
  rw [hrun] at hfirst
  cases hfirst
  rfl

theorem RefusesWithin.map {a : Reading α} (ha : a.RefusesWithin limit u error) (f : α → β) :
    (f <$> a).RefusesWithin limit u error := by
  rw [map_eq_bind, ← List.append_nil u]
  exact ha.bind [] _

/-- A field that is restored leaves it to what comes after it. -/
theorem RestoresWithin.bind_refuses {a : Reading α} {x : α} (ha : a.RestoresWithin limit u x)
    {next : α → Reading β} (hnext : (next x).RefusesWithin limit v error) :
    (a.bind next).RefusesWithin limit (u ++ v) error := by
  intro rest hlength
  rw [List.append_assoc] at hlength ⊢
  rw [run_bind, ha (v ++ rest) hlength]
  apply hnext rest
  rw [List.length_append] at hlength
  omega

/-- The limit of what comes after a field shrinks by the bytes of the field. -/
theorem Restores.bind_refuses {a : Reading α} {x : α} (ha : a.Restores u x)
    {next : α → Reading β} (hnext : (next x).RefusesWithin limit v error) :
    (a.bind next).RefusesWithin (u.length + limit) (u ++ v) error := by
  intro rest hlength
  rw [List.append_assoc] at hlength ⊢
  rw [run_bind, ha (v ++ rest)]
  apply hnext rest
  rw [List.length_append] at hlength
  omega

/-- Values in a row are refused if one of them is, and those that are not are restored. Induction on
the values left, up to the first that is refused. -/
theorem RefusesWithin.repeated {a : Reading β} {emit : α → Emission} {read : α → β}
    {accepted : α → Prop} {items : List α}
    (hrestores : ∀ item ∈ items, accepted item → ∀ w, (emit item).result = .ok w →
      a.RestoresWithin limit w (read item))
    (hrefuses : ∀ item ∈ items, ¬ accepted item → ∀ w, (emit item).result = .ok w →
      a.RefusesWithin limit w error)
    (hsome : ¬ ∀ item ∈ items, accepted item) (before : List β) {w : Bytes}
    (h : (Emission.concat (items.map emit)).result = .ok w) :
    (a.repeated items.length before).RefusesWithin limit w error := by
  induction items generalizing before w with
  | nil => exact absurd (fun item hitem => absurd hitem List.not_mem_nil) hsome
  | cons item items ih =>
    rcases Emission.result_concat_cons_eq_ok.mp h with ⟨u, v, hu, hv, rfl⟩
    by_cases haccepted : accepted item
    · have hothers : ¬ ∀ item ∈ items, accepted item :=
        fun hall => hsome (List.forall_mem_cons.mpr ⟨haccepted, hall⟩)
      have hfirst := hrestores item List.mem_cons_self haccepted u hu
      refine hfirst.bind_refuses (ih ?_ ?_ hothers (read item :: before) hv)
      · exact fun item hmem => hrestores item (List.mem_cons_of_mem _ hmem)
      · exact fun item hmem => hrefuses item (List.mem_cons_of_mem _ hmem)
    · exact (hrefuses item List.mem_cons_self haccepted u hu).bind v _

end Groupcast.Reading
