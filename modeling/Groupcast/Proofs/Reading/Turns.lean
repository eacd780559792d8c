import Groupcast.Proofs.Reading.Spelling

/-!
# What turns cost

A reading is taken as many times as the input announced, but it is the input that pays for it.
`Reading.Costs` says how many bytes a reading takes at least for what it gets. If every turn costs
some, then the bytes at hand bound the turns, whatever the number that was announced: the turn that
finds too few of them fails, and is the last.
-/

namespace Groupcast.Reading

variable {α β : Type}

/-! ## Costs -/

/-- Whether a reading that gets a value takes at least as many bytes as the value costs. -/
def Costs (a : Reading α) (price : α → Nat) : Prop :=
  ∀ ⦃source rest : Bytes⦄ ⦃value : α⦄, a.run source = (.ok value, rest) →
    price value + rest.length ≤ source.length

section Costs

variable {a : Reading α} {f : α → Reading β} {price : α → Nat} {cost : β → Nat}

/-- No reading gives bytes back. -/
theorem costs_nothing (a : Reading α) : a.Costs fun _ => 0 := by
  intro source rest value hrun
  rw [Nat.zero_add]
  exact length_le_of_run hrun

theorem costs_fail (error : DecodeError) : (fail error : Reading α).Costs price := by
  rintro source rest value ⟨⟩

theorem costs_done {value : α} (h : price value = 0) : (done value).Costs price := by
  rintro source rest found ⟨⟩
  exact Nat.le_of_eq (by rw [h, Nat.zero_add])

theorem Costs.mono {price' : α → Nat} (ha : a.Costs price)
    (h : ∀ value, price' value ≤ price value) : a.Costs price' :=
  fun _ _ value hrun => Nat.le_trans (Nat.add_le_add_right (h value) _) (ha hrun)

/-- What a first value costs need not be paid again for what comes of it. -/
theorem Costs.bind (ha : a.Costs price) (hf : ∀ x, (f x).Costs fun y => cost y - price x) :
    (a.bind f).Costs cost := by
  intro source rest y hrun
  obtain ⟨x, mid, hfirst, hnext⟩ := run_bind_eq_ok hrun
  have hpaid := ha hfirst
  have hleft : cost y - price x + rest.length ≤ mid.length := hf x hnext
  omega

theorem Costs.map (ha : a.Costs price) {g : α → β} (hg : ∀ x, cost (g x) ≤ price x) :
    (g <$> a).Costs cost :=
  ha.bind fun x => costs_done (Nat.sub_eq_zero_of_le (hg x))

/-- What is found without reading is free. -/
theorem costs_ofExcept_bind {result : Except DecodeError α}
    (hf : ∀ x, result = .ok x → (f x).Costs cost) : ((ofExcept result).bind f).Costs cost := by
  intro source rest y hrun
  obtain ⟨x, hx, hnext⟩ := run_ofExcept_bind_eq_ok hrun
  exact hf x hx hnext

theorem costs_natural (width : Nat) : (natural width).Costs fun _ => width := by
  intro source rest n hrun
  obtain ⟨bytes, hbytes, -⟩ := run_map_eq_ok.mp hrun
  obtain ⟨taken, mid, hcount, rfl, hdone⟩ := run_take_eq_ok hbytes
  cases hdone
  exact Nat.le_of_eq (by rw [List.length_append, hcount])

theorem costs_u8 : u8.Costs fun _ => 1 :=
  (costs_natural 1).map fun _ => Nat.le_refl _

theorem costs_u16 : u16.Costs fun _ => 2 :=
  (costs_natural 2).map fun _ => Nat.le_refl _

theorem costs_u32 : u32.Costs fun _ => 4 :=
  (costs_natural 4).map fun _ => Nat.le_refl _

theorem costs_flag : flag.Costs fun _ => 1 :=
  costs_u8.map fun _ => Nat.le_refl _

/-- Values in a row cost what each of them does. Induction on how many are left. -/
theorem Costs.repeated (ha : a.Costs price) (n : Nat) (before : List α) :
    (a.repeated n before).Costs fun values =>
      (values.map price).sum - (before.map price).sum := by
  induction n generalizing before with
  | zero => exact costs_done (by rw [List.map_reverse, List.sum_reverse, Nat.sub_self])
  | succ n ih =>
    refine ha.bind fun x => (ih (x :: before)).mono fun values => Nat.le_of_eq ?_
    rw [List.map_cons, List.sum_cons, Nat.sub_sub, Nat.add_comm]

theorem Costs.times (ha : a.Costs price) (n : Nat) :
    (times n a).Costs fun values => (values.map price).sum :=
  (ha.repeated n []).mono fun _ => Nat.le_refl _

end Costs

/-! ## Turns -/

/-- A turn of a reading that is taken several times: the source as it is found and as it is left,
and the outcome. -/
structure Turn (α : Type) where
  before : Bytes
  outcome : Except DecodeError α
  after : Bytes

/-- The turns that are begun when a reading is to be taken `n` times. One that fails is the last. -/
def turns (a : Reading α) : (n : Nat) → Bytes → List (Turn α)
  | 0, _ => []
  | n + 1, source =>
    match a.run source with
    | (.ok value, rest) => ⟨source, .ok value, rest⟩ :: turns a n rest
    | (.error error, rest) => [⟨source, .error error, rest⟩]

/-- Whether bytes bound the turns of a reading that is to be taken `n` times: a turn that gets a
value takes `least` of them, and the turns end when all `n` have got one, or with the first
error. -/
structure PaidTurns (least : Nat) (a : Reading α) (n : Nat) (source : Bytes) : Prop where
  takes : ∀ turn ∈ a.turns n source, ∀ value, turn.outcome = .ok value →
    least + turn.after.length ≤ turn.before.length
  length_le : (a.turns n source).length ≤ source.length / least + 1
  ends : (∃ values : List α, ((times n a).run source).1 = .ok values ∧ values.length = n ∧
      (a.turns n source).map Turn.outcome = values.map .ok) ∨
    ∃ error, ∃ values : List α, ((times n a).run source).1 = .error error ∧
      (a.turns n source).map Turn.outcome = values.map .ok ++ [.error error]

section Turns

variable {a : Reading α} {least : Nat}

theorem turns_succ_of_ok {n : Nat} {source rest : Bytes} {value : α}
    (h : a.run source = (.ok value, rest)) :
    a.turns (n + 1) source = ⟨source, .ok value, rest⟩ :: a.turns n rest := by
  rw [turns, h]

theorem turns_succ_of_error {n : Nat} {source rest : Bytes} {error : DecodeError}
    (h : a.run source = (.error error, rest)) :
    a.turns (n + 1) source = [⟨source, .error error, rest⟩] := by
  rw [turns, h]

/-- A turn is a run of the reading. Induction on how many are announced. -/
theorem run_of_mem_turns {n : Nat} {source : Bytes} {turn : Turn α}
    (h : turn ∈ a.turns n source) : a.run turn.before = (turn.outcome, turn.after) := by
  induction n generalizing source with
  | zero => exact absurd h List.not_mem_nil
  | succ n ih =>
    rcases hrun : a.run source with ⟨error | value, rest⟩
    · rw [turns_succ_of_error hrun, List.mem_singleton] at h
      subst h
      exact hrun
    · rw [turns_succ_of_ok hrun, List.mem_cons] at h
      rcases h with rfl | hmem
      · exact hrun
      · exact ih hmem

/-- All turns but the last are paid out of the source. Induction on how many are announced. -/
theorem mul_length_turns_le (ha : a.Costs fun _ => least) (n : Nat) (source : Bytes) :
    least * (a.turns n source).length ≤ source.length + least := by
  induction n generalizing source with
  | zero => exact Nat.zero_le _
  | succ n ih =>
    rcases hrun : a.run source with ⟨error | value, rest⟩
    · -- The turn that fails is the one that nothing may be left for.
      rw [turns_succ_of_error hrun, List.length_singleton, Nat.mul_one]
      exact Nat.le_add_left _ _
    · -- The others are paid out of what this one leaves.
      have hpaid : least + rest.length ≤ source.length := ha hrun
      have hothers := ih rest
      rw [turns_succ_of_ok hrun, List.length_cons, Nat.mul_succ]
      omega

/-- The values read so far come before those of the turns. Induction on how many are left. -/
theorem turns_end (a : Reading α) (n : Nat) (before : List α) (source : Bytes) :
    (∃ values : List α, ((a.repeated n before).run source).1 = .ok (before.reverse ++ values) ∧
      values.length = n ∧ (a.turns n source).map Turn.outcome = values.map .ok) ∨
    ∃ error, ∃ values : List α, ((a.repeated n before).run source).1 = .error error ∧
      (a.turns n source).map Turn.outcome = values.map .ok ++ [.error error] := by
  induction n generalizing before source with
  | zero => exact Or.inl ⟨[], by rw [List.append_nil]; rfl, rfl, rfl⟩
  | succ n ih =>
    rcases hrun : a.run source with ⟨error | value, rest⟩
    · refine Or.inr ⟨error, [], ?_, ?_⟩
      · rw [repeated, run_bind, hrun]
      · rw [turns_succ_of_error hrun]
        rfl
    · rw [repeated, run_bind, hrun, turns_succ_of_ok hrun]
      rcases ih (value :: before) rest with
        ⟨values, hvalues, hcount, hturns⟩ | ⟨error, values, herror, hturns⟩
      · refine Or.inl ⟨value :: values, ?_, congrArg Nat.succ hcount, ?_⟩
        · rw [hvalues, List.reverse_cons, List.append_assoc]
          rfl
        · rw [List.map_cons, hturns]
          rfl
      · refine Or.inr ⟨error, value :: values, herror, ?_⟩
        rw [List.map_cons, hturns]
        rfl

/-- If every value costs bytes, they bound the turns. -/
theorem Costs.paidTurns (ha : a.Costs fun _ => least) (hleast : 0 < least) (n : Nat)
    (source : Bytes) : PaidTurns least a n source where
  takes := by
    intro turn hturn value hvalue
    have hrun := run_of_mem_turns hturn
    rw [hvalue] at hrun
    exact ha hrun
  length_le := by
    have hpaid := mul_length_turns_le ha n source
    rw [Nat.mul_comm, ← Nat.le_div_iff_mul_le hleast, Nat.add_div_right _ hleast] at hpaid
    exact hpaid
  ends := turns_end a n [] source

end Turns

end Groupcast.Reading
