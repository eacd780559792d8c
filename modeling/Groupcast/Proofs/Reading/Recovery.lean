import Groupcast.Proofs.Reading.Spelling

/-!
# What is recovered from bytes

A reading that succeeds on some bytes and anything after them takes just those bytes, and gets a
value of which something is known. Unlike `Reading.Restores` this leaves it open whether the reading
succeeds, and which value it gets.
-/

namespace Groupcast.Reading

variable {α β γ : Type}

/-- Whether a reading that gets a value from some bytes, whatever comes after them, takes just these
bytes and gets a value with the property. -/
def Recovers (a : Reading α) (bytes : Bytes) (P : α → Prop) : Prop :=
  ∀ ⦃rest left : Bytes⦄ ⦃value : α⦄, a.run (bytes ++ rest) = (.ok value, left) →
    left = rest ∧ P value

section Recovers

variable {a : Reading α} {f : α → Reading β} {u v : Bytes} {P : α → Prop} {Q : β → Prop}

theorem recovers_fail (error : DecodeError) (u : Bytes) :
    (fail error : Reading α).Recovers u P := by
  rintro rest left value ⟨⟩

theorem recovers_done {value : α} (h : P value) : (done value).Recovers [] P := by
  rintro rest left found ⟨⟩
  exact ⟨rfl, h⟩

/-- What is restored is recovered. -/
theorem Restores.recovers {x : α} (ha : a.Restores u x) : a.Recovers u (· = x) := by
  intro rest left value hrun
  rw [ha rest] at hrun
  cases hrun
  exact ⟨rfl, rfl⟩

theorem Recovers.mono {P' : α → Prop} (ha : a.Recovers u P) (h : ∀ x, P x → P' x) :
    a.Recovers u P' :=
  fun _ _ value hrun => ⟨(ha hrun).1, h value (ha hrun).2⟩

theorem Recovers.bind (ha : a.Recovers u P) (hf : ∀ x, P x → (f x).Recovers v Q) :
    (a.bind f).Recovers (u ++ v) Q := by
  intro rest left y hrun
  rw [List.append_assoc] at hrun
  obtain ⟨x, mid, hfirst, hnext⟩ := run_bind_eq_ok hrun
  obtain ⟨rfl, hx⟩ := ha hfirst
  exact hf x hx hnext

theorem Recovers.map (ha : a.Recovers u P) {g : α → β} (hg : ∀ x, P x → Q (g x)) :
    (g <$> a).Recovers u Q := by
  rw [← List.append_nil u]
  exact ha.bind fun x hx => recovers_done (hg x hx)

/-- What is found without reading recovers nothing by itself. -/
theorem recovers_ofExcept_bind {result : Except DecodeError α}
    (hf : ∀ x, result = .ok x → (f x).Recovers v Q) : ((ofExcept result).bind f).Recovers v Q := by
  intro rest left y hrun
  obtain ⟨x, hx, hnext⟩ := run_ofExcept_bind_eq_ok hrun
  exact hf x hx hnext

/-- From the bytes of some values in a row as many values are recovered, which are told apart from
them by nothing that is recovered of each. Induction on the row. -/
theorem Recovers.repeated {items : List γ} {emit : γ → Emission} {tell : α → β} {told : γ → β}
    (h : ∀ item ∈ items, ∀ w, (emit item).result = .ok w →
      a.Recovers w fun value => tell value = told item) (before : List α) {w : Bytes}
    (hw : (Emission.concat (items.map emit)).result = .ok w) :
    (a.repeated items.length before).Recovers w fun values =>
      values.map tell = (before.map tell).reverse ++ items.map told := by
  induction items generalizing before w with
  | nil =>
    cases hw
    exact recovers_done (by rw [List.map_reverse, List.map_nil, List.append_nil])
  | cons item items ih =>
    obtain ⟨u, v, hu, hv, rfl⟩ := Emission.result_concat_cons_eq_ok.mp hw
    have hfirst := h item List.mem_cons_self u hu
    have hothers := ih fun other hmem => h other (List.mem_cons_of_mem item hmem)
    refine hfirst.bind fun x hx => (hothers (x :: before) hv).mono fun values hvalues => ?_
    rw [hvalues, List.map_cons, List.reverse_cons, hx, List.append_assoc]
    rfl

end Recovers

end Groupcast.Reading
