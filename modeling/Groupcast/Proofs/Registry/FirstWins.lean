import Groupcast.Proofs.Registry.Standing

/-!
# The first registration wins

What a registry finds after any calls is told by the calls: under a built-in kind the built-in
blank, under a kind kept back none, and under every other kind the blank of the first call that
names it. Later calls for the kind are refused, and what is refused leaves no trace.
-/

namespace Groupcast

/-- An observation that takes the first of what the steps of a fold offer. Induction on the
steps. -/
theorem foldl_keeps_first {σ ι α : Type} {step : σ → ι → σ} (observe : σ → Option α)
    {offer : ι → Option α} (hstep : ∀ s i, observe (step s i) = (observe s).or (offer i)) (s : σ)
    (steps : List ι) : observe (steps.foldl step s) = (observe s).or (steps.findSome? offer) := by
  induction steps generalizing s with
  | nil => exact Option.or_none.symm
  | cons i steps ih =>
    rw [List.foldl_cons, ih, hstep, Option.or_assoc, List.findSome?_cons]
    cases offer i <;> rfl

/-- An observation that no step changes. -/
theorem foldl_keeps {σ ι α : Type} {step : σ → ι → σ} (observe : σ → α)
    (hstep : ∀ s i, observe (step s i) = observe s) (s : σ) (steps : List ι) :
    observe (steps.foldl step s) = observe s := by
  induction steps generalizing s with
  | nil => rfl
  | cons i steps ih => rw [List.foldl_cons, ih, hstep]

namespace BodyKind

theorem toByte_le (kind : BodyKind) : kind.toByte ≤ 7 := by
  cases kind <;> decide

theorem exists_toByte_eq {kind : UInt8} (hkind : kind ≤ 7) :
    ∃ builtin : BodyKind, builtin.toByte = kind := by
  have hall : ∀ n < 8, ∃ builtin ∈ all, builtin.toByte = UInt8.ofNat n := by
    decide
  obtain ⟨builtin, -, hbyte⟩ := hall kind.toNat (Nat.lt_succ_of_le hkind)
  exact ⟨builtin, by rw [hbyte, UInt8.ofNat_toNat]⟩

end BodyKind

/-! ## Tables -/

/-- How a registration ends: it is refused if the kind is kept back, or else if a blank is held
under it, and succeeds otherwise. -/
structure RegistryError.Outcome (table : String) (number : Nat) (kept held : Prop)
    (outcome : Except RegistryError Unit) : Prop where
  reserved : outcome = .error (.reserved table number reservedKind.toNat) ↔ kept
  taken : outcome = .error (.taken table number) ↔ ¬ kept ∧ held
  ok : outcome = .ok () ↔ ¬ kept ∧ ¬ held

/-- What is found under a kind, or the error that the kind is unknown. -/
def found {α : Type} (unknown : DecodeError) : Option α → Except DecodeError α
  | none => .error unknown
  | some blank => .ok blank

theorem exists_found_eq_ok {α : Type} {unknown : DecodeError} {held? : Option α} :
    (∃ held, found unknown held? = .ok held) ↔ held?.isSome = true := by
  cases held? <;> simp [found]

namespace KindTable

variable {α : Type}

/-- After an insertion, a kind is found that was found before or that was put in. -/
theorem get?_insert {κ : Type} [BEq κ] [LawfulBEq κ] [DecidableEq κ] (name : String) (number : Nat)
    (t : KindTable κ α) (new : κ) (more : α) (kind : κ) :
    (t.insert name number new more).2.get? kind
      = (t.get? kind).or (if new = kind then some more else none) := by
  unfold insert
  split
  case isTrue hused =>
    -- The kind is in use, so that what is found under it stays.
    obtain ⟨found, hfound⟩ := Option.isSome_iff_exists.mp hused
    by_cases hsame : new = kind
    · rw [← hsame, hfound, Option.some_or]
    · rw [if_neg hsame, Option.or_none]
  case isFalse =>
    rw [get?, get?, List.lookup_append, List.lookup_cons, List.lookup_nil]
    by_cases hsame : new = kind
    · rw [if_pos hsame, hsame, beq_self_eq_true]
    · rw [if_neg hsame, beq_false_of_ne (Ne.symm hsame)]

/-- An admitted kind is found as in any table: if what was put in is kept back, it is another
kind. -/
theorem get?_insertAboveReserved (name : String) (t : KindTable UInt8 α) (new : UInt8) (more : α)
    {kind : UInt8} (hkind : reservedKind < kind) :
    (t.insertAboveReserved name new more).2.get? kind
      = (t.get? kind).or (if new = kind then some more else none) := by
  unfold insertAboveReserved
  split
  case isTrue hkept =>
    have hother : new ≠ kind := by
      rintro rfl
      exact absurd hkind (UInt8.not_lt.mpr hkept)
    rw [if_neg hother, Option.or_none]
  case isFalse => exact get?_insert name _ t new more kind

/-- A kind kept back is found as before. -/
theorem get?_insertAboveReserved_of_le (name : String) (t : KindTable UInt8 α) (new : UInt8)
    (more : α) {kind : UInt8} (hkind : kind ≤ reservedKind) :
    (t.insertAboveReserved name new more).2.get? kind = t.get? kind := by
  unfold insertAboveReserved
  split
  case isTrue => rfl
  case isFalse hadmitted =>
    have hother : new ≠ kind := by
      rintro rfl
      exact hadmitted hkind
    rw [get?_insert, if_neg hother, Option.or_none]

/-- An insertion that is refused leaves the table as it is: the kind is looked up before anything is
put in. -/
theorem insert_of_error {κ : Type} [BEq κ] {name : String} {number : Nat} {t : KindTable κ α}
    {kind : κ} {blank : α} {error : RegistryError}
    (h : (t.insert name number kind blank).1 = .error error) :
    (t.insert name number kind blank).2 = t := by
  unfold insert at h ⊢
  split
  case isTrue => rfl
  case isFalse hfree =>
    rw [if_neg hfree] at h
    cases h

theorem insertAboveReserved_of_error {name : String} {t : KindTable UInt8 α} {kind : UInt8}
    {blank : α} {error : RegistryError}
    (h : (t.insertAboveReserved name kind blank).1 = .error error) :
    (t.insertAboveReserved name kind blank).2 = t := by
  unfold insertAboveReserved at h ⊢
  split
  case isTrue => rfl
  case isFalse hadmitted =>
    rw [if_neg hadmitted] at h
    exact insert_of_error h

theorem outcome_insert {κ : Type} [BEq κ] (name : String) (number : Nat) (t : KindTable κ α)
    (kind : κ) (blank : α) :
    RegistryError.Outcome name number False (t.contains kind)
      (t.insert name number kind blank).1 := by
  unfold insert
  by_cases hheld : t.contains kind
  · rw [if_pos hheld]
    constructor <;> simp [hheld]
  · rw [if_neg hheld]
    constructor <;> simp [hheld]

theorem outcome_insertAboveReserved (name : String) (t : KindTable UInt8 α) (kind : UInt8)
    (blank : α) :
    RegistryError.Outcome name kind.toNat (kind ≤ reservedKind) (t.contains kind)
      (t.insertAboveReserved name kind blank).1 := by
  unfold insertAboveReserved
  by_cases hkept : kind ≤ reservedKind
  · rw [if_pos hkept]
    constructor <;> simp [hkept]
  · -- Above the kinds kept back, a table is like any other.
    have houtcome := outcome_insert name kind.toNat t kind blank
    rw [if_neg hkept]
    exact ⟨by simpa [hkept] using houtcome.reserved, by simpa [hkept] using houtcome.taken,
      by simpa [hkept] using houtcome.ok⟩

end KindTable

/-! ## Registries -/

namespace Registry

variable {D : Dialect}

namespace Call

/-- The body that a call offers under a kind. -/
def body? (kind : UInt8) : Call D → Option (Body D)
  | .message named blank => if named = kind then some (.custom blank []) else none
  | _ => none

/-- The header that a call offers under a kind. -/
def header? (kind : UInt16) : Call D → Option (Record D)
  | .header named blank => if named = kind then some blank else none
  | _ => none

/-- The object that a call offers under a kind. -/
def object? (kind : UInt16) : Call D → Option (Record D)
  | .object named blank => if named = kind then some blank else none
  | _ => none

end Call

/-! ### One call -/

theorem get?_messages_register (r : Registry D) (call : Call D) {kind : UInt8}
    (hkind : reservedKind < kind) :
    (r.register call).2.messages.get? kind = (r.messages.get? kind).or (call.body? kind) := by
  cases call with
  | message named blank =>
    exact KindTable.get?_insertAboveReserved "message" r.messages named (.custom blank []) hkind
  | header named blank => exact Option.or_none.symm
  | object named blank => exact Option.or_none.symm

theorem get?_messages_register_of_le (r : Registry D) (call : Call D) {kind : UInt8}
    (hkind : kind ≤ reservedKind) :
    (r.register call).2.messages.get? kind = r.messages.get? kind := by
  cases call with
  | message named blank =>
    exact KindTable.get?_insertAboveReserved_of_le "message" r.messages named (.custom blank [])
      hkind
  | header named blank => rfl
  | object named blank => rfl

theorem get?_headers_register (r : Registry D) (call : Call D) (kind : UInt16) :
    (r.register call).2.headers.get? kind = (r.headers.get? kind).or (call.header? kind) := by
  cases call with
  | message named blank => exact Option.or_none.symm
  | header named blank => exact KindTable.get?_insert "header" _ r.headers named blank kind
  | object named blank => exact Option.or_none.symm

theorem get?_objects_register (r : Registry D) (call : Call D) (kind : UInt16) :
    (r.register call).2.objects.get? kind = (r.objects.get? kind).or (call.object? kind) := by
  cases call with
  | message named blank => exact Option.or_none.symm
  | header named blank => exact Option.or_none.symm
  | object named blank => exact KindTable.get?_insert "object" _ r.objects named blank kind

/-- A call that is refused leaves all tables as they are. -/
theorem register_of_error {r : Registry D} {call : Call D} {error : RegistryError}
    (h : (r.register call).1 = .error error) : (r.register call).2 = r := by
  cases call with
  | message kind blank =>
    have htable := KindTable.insertAboveReserved_of_error h
    exact congrArg (fun messages => { r with messages := messages }) htable
  | header kind blank =>
    have htable := KindTable.insert_of_error h
    exact congrArg (fun headers => { r with headers := headers }) htable
  | object kind blank =>
    have htable := KindTable.insert_of_error h
    exact congrArg (fun objects => { r with objects := objects }) htable

/-! ### Any calls -/

theorem get?_messages_afterCalls (r : Registry D) (calls : List (Call D)) {kind : UInt8}
    (hkind : reservedKind < kind) :
    (r.afterCalls calls).messages.get? kind
      = (r.messages.get? kind).or (calls.findSome? (Call.body? kind)) :=
  foldl_keeps_first (fun r : Registry D => r.messages.get? kind)
    (fun r call => r.get?_messages_register call hkind) r calls

theorem get?_messages_afterCalls_of_le (r : Registry D) (calls : List (Call D)) {kind : UInt8}
    (hkind : kind ≤ reservedKind) :
    (r.afterCalls calls).messages.get? kind = r.messages.get? kind :=
  foldl_keeps (fun r : Registry D => r.messages.get? kind)
    (fun r call => r.get?_messages_register_of_le call hkind) r calls

theorem get?_headers_afterCalls (r : Registry D) (calls : List (Call D)) (kind : UInt16) :
    (r.afterCalls calls).headers.get? kind
      = (r.headers.get? kind).or (calls.findSome? (Call.header? kind)) :=
  foldl_keeps_first (fun r : Registry D => r.headers.get? kind)
    (fun r call => r.get?_headers_register call kind) r calls

theorem get?_objects_afterCalls (r : Registry D) (calls : List (Call D)) (kind : UInt16) :
    (r.afterCalls calls).objects.get? kind
      = (r.objects.get? kind).or (calls.findSome? (Call.object? kind)) :=
  foldl_keeps_first (fun r : Registry D => r.objects.get? kind)
    (fun r call => r.get?_objects_register call kind) r calls

/-! ### Lookups and outcomes -/

theorem body_eq_found (r : Registry D) (kind : UInt8) :
    r.body kind = found (.unknownMessageKind kind) (r.messages.get? kind) := by
  unfold body
  cases r.messages.get? kind <;> rfl

theorem header_eq_found (r : Registry D) (kind : UInt16) :
    r.header kind = found (.unknownHeaderKind kind) (r.headers.get? kind) := by
  unfold header
  cases r.headers.get? kind <;> rfl

theorem object_eq_found (r : Registry D) (kind : UInt16) :
    r.object kind = found (.unknownObjectKind kind) (r.objects.get? kind) := by
  unfold object
  cases r.objects.get? kind <;> rfl

/-- The built-in kinds end at 7. -/
theorem get?_builtin {kind : UInt8} (hkind : 7 < kind) :
    (builtin : Registry D).messages.get? kind = none := by
  apply List.lookup_eq_none_iff.mpr
  intro entry hmem
  obtain ⟨builtin, -, rfl⟩ := List.mem_map.mp hmem
  have hother : kind ≠ builtin.toByte := by
    rintro rfl
    exact absurd hkind (UInt8.not_lt.mpr builtin.toByte_le)
  exact bne_iff_ne.mpr hother

/-- What a registry finds after the calls made on it, and what one more call does to it. -/
structure FirstWins (calls : List (Call D)) (r : Registry D) : Prop where
  body_builtin : ∀ kind ≤ 7, ∃ builtin : BodyKind,
    builtin.toByte = kind ∧ r.body kind = .ok (.blank builtin)
  body_kept : ∀ kind, 7 < kind → kind ≤ 32 → r.body kind = .error (.unknownMessageKind kind)
  body : ∀ kind, 32 < kind →
    r.body kind = found (.unknownMessageKind kind) (calls.findSome? (Call.body? kind))
  header_tag : r.header 52 = .ok (.tag .blank)
  header : ∀ kind, kind ≠ 52 →
    r.header kind = found (.unknownHeaderKind kind) (calls.findSome? (Call.header? kind))
  object : ∀ kind,
    r.object kind = found (.unknownObjectKind kind) (calls.findSome? (Call.object? kind))
  message_outcome : ∀ kind blank, RegistryError.Outcome "message" kind.toNat (kind ≤ 32)
    (∃ held, r.body kind = .ok held) (r.register (.message kind blank)).1
  header_outcome : ∀ kind blank, RegistryError.Outcome "header" kind.toNat False
    (∃ held, r.header kind = .ok held) (r.register (.header kind blank)).1
  object_outcome : ∀ kind blank, RegistryError.Outcome "object" kind.toNat False
    (∃ held, r.object kind = .ok held) (r.register (.object kind blank)).1
  /-- A call that is refused changes no table. -/
  refused : ∀ call error, (r.register call).1 = .error error → r.afterCalls [call] = r
  /-- No call changes what is found under a kind that it does not name in that table. -/
  other_body : ∀ call kind, call.body? kind = none →
    (r.afterCalls [call]).body kind = r.body kind
  other_header : ∀ call kind, call.header? kind = none →
    (r.afterCalls [call]).header kind = r.header kind
  other_object : ∀ call kind, call.object? kind = none →
    (r.afterCalls [call]).object kind = r.object kind

/-- A registry made by calls finds the blanks of the first calls. -/
theorem firstWins_afterCalls (calls : List (Call D)) :
    (builtin.afterCalls calls).FirstWins calls where
  body_builtin kind hkind := by
    obtain ⟨builtin, rfl⟩ := BodyKind.exists_toByte_eq hkind
    exact ⟨builtin, rfl, Reachable.body_builtin (grows_afterCalls _ calls) builtin⟩
  body_kept kind hlow hhigh := by
    rw [body_eq_found, get?_messages_afterCalls_of_le _ calls hhigh, get?_builtin hlow, found]
  body kind hkind := by
    have hlow : 7 < kind := UInt8.lt_trans (by decide) hkind
    rw [body_eq_found, get?_messages_afterCalls _ calls hkind, get?_builtin hlow, Option.none_or]
  header_tag := Reachable.header_tag (grows_afterCalls _ calls)
  header kind hkind := by
    have hother : (kind == FragmentTag.kind) = false := beq_false_of_ne hkind
    have hnone : (builtin : Registry D).headers.get? kind = none := by
      rw [KindTable.get?, builtin, List.lookup_cons, hother, List.lookup_nil]
    rw [header_eq_found, get?_headers_afterCalls, hnone, Option.none_or]
  object kind := by
    rw [object_eq_found, get?_objects_afterCalls]
    rfl
  message_outcome kind blank := by
    rw [body_eq_found, exists_found_eq_ok]
    exact KindTable.outcome_insertAboveReserved "message" _ kind _
  header_outcome kind blank := by
    simp only [header_eq_found, exists_found_eq_ok]
    exact KindTable.outcome_insert "header" _ _ kind blank
  object_outcome kind blank := by
    simp only [object_eq_found, exists_found_eq_ok]
    exact KindTable.outcome_insert "object" _ _ kind blank
  refused call error herror := register_of_error herror
  other_body call kind hother := by
    rw [body_eq_found, body_eq_found]
    by_cases hkind : kind ≤ reservedKind
    · exact congrArg _ (get?_messages_register_of_le _ call hkind)
    · have hstep := get?_messages_register (builtin.afterCalls calls) call (UInt8.not_le.mp hkind)
      rw [hother, Option.or_none] at hstep
      exact congrArg _ hstep
  other_header call kind hother := by
    have hstep := get?_headers_register (builtin.afterCalls calls) call kind
    rw [hother, Option.or_none] at hstep
    rw [header_eq_found, header_eq_found]
    exact congrArg _ hstep
  other_object call kind hother := by
    have hstep := get?_objects_register (builtin.afterCalls calls) call kind
    rw [hother, Option.or_none] at hstep
    rw [object_eq_found, object_eq_found]
    exact congrArg _ hstep

end Registry

/-! ## Payload registries -/

namespace PayloadRegistry

variable {π : Type}

/-- The payload that a call offers under a kind. -/
def offer? (kind : UInt8) (call : UInt8 × π) : Option (Payload π) :=
  if call.1 = kind then some (.custom call.2) else none

theorem get?_payloads_add (r : PayloadRegistry π) (call : UInt8 × π) {kind : UInt8}
    (hkind : reservedKind < kind) :
    (r.add call.1 call.2).2.payloads.get? kind
      = (r.payloads.get? kind).or (offer? kind call) :=
  KindTable.get?_insertAboveReserved "payload" r.payloads call.1 (.custom call.2) hkind

theorem get?_payloads_add_of_le (r : PayloadRegistry π) (call : UInt8 × π) {kind : UInt8}
    (hkind : kind ≤ reservedKind) :
    (r.add call.1 call.2).2.payloads.get? kind = r.payloads.get? kind :=
  KindTable.get?_insertAboveReserved_of_le "payload" r.payloads call.1 (.custom call.2) hkind

theorem get?_payloads_afterCalls (r : PayloadRegistry π) (calls : List (UInt8 × π)) {kind : UInt8}
    (hkind : reservedKind < kind) :
    (r.afterCalls calls).payloads.get? kind
      = (r.payloads.get? kind).or (calls.findSome? (offer? kind)) :=
  foldl_keeps_first (fun r : PayloadRegistry π => r.payloads.get? kind)
    (fun r call => r.get?_payloads_add call hkind) r calls

theorem get?_payloads_afterCalls_of_le (r : PayloadRegistry π) (calls : List (UInt8 × π))
    {kind : UInt8} (hkind : kind ≤ reservedKind) :
    (r.afterCalls calls).payloads.get? kind = r.payloads.get? kind :=
  foldl_keeps (fun r : PayloadRegistry π => r.payloads.get? kind)
    (fun r call => r.get?_payloads_add_of_le call hkind) r calls

theorem blank_eq_found (r : PayloadRegistry π) (kind : UInt8) :
    r.blank kind = found (.unknownPayloadKind kind) (r.payloads.get? kind) := by
  unfold PayloadRegistry.blank
  cases r.payloads.get? kind <;> rfl

/-- The built-in kinds are two. -/
theorem get?_builtin {kind : UInt8} (hbytes : kind ≠ 1) (hcomposite : kind ≠ 2) :
    (builtin : PayloadRegistry π).payloads.get? kind = none := by
  have hfirst : (kind == Payload.bytesKind) = false := beq_false_of_ne hbytes
  have hsecond : (kind == Payload.compositeKind) = false := beq_false_of_ne hcomposite
  rw [KindTable.get?, builtin, List.lookup_cons, hfirst, List.lookup_cons, hsecond,
    List.lookup_nil]

/-- What a payload registry finds after the calls made on it, and what one more call does to it. -/
structure FirstWins (calls : List (UInt8 × π)) (r : PayloadRegistry π) : Prop where
  bytes : r.blank 1 = .ok (.bytes View.empty)
  composite : r.blank 2 = .ok (.composite [])
  kept : ∀ kind, kind ≠ 1 → kind ≠ 2 → kind ≤ 32 →
    r.blank kind = .error (.unknownPayloadKind kind)
  payload : ∀ kind, 32 < kind →
    r.blank kind = found (.unknownPayloadKind kind) (calls.findSome? (offer? kind))
  outcome : ∀ kind blank, RegistryError.Outcome "payload" kind.toNat (kind ≤ 32)
    (∃ held, r.blank kind = .ok held) (r.add kind blank).1
  /-- A call that is refused changes nothing. -/
  refused : ∀ kind blank error, (r.add kind blank).1 = .error error →
    r.afterCalls [(kind, blank)] = r
  /-- No call changes what is found under a kind that it does not name. -/
  other : ∀ call kind, offer? kind call = none → (r.afterCalls [call]).blank kind = r.blank kind

/-- A payload registry made by calls finds the blanks of the first calls. -/
theorem firstWins_afterCalls (calls : List (UInt8 × π)) :
    (builtin.afterCalls calls).FirstWins calls where
  bytes := blank_afterCalls rfl calls
  composite := blank_afterCalls rfl calls
  kept kind hbytes hcomposite hkind := by
    rw [blank_eq_found, get?_payloads_afterCalls_of_le _ calls hkind,
      get?_builtin hbytes hcomposite, found]
  payload kind hkind := by
    have hbytes : kind ≠ 1 := by
      rintro rfl
      exact absurd hkind (by decide)
    have hcomposite : kind ≠ 2 := by
      rintro rfl
      exact absurd hkind (by decide)
    rw [blank_eq_found, get?_payloads_afterCalls _ calls hkind, get?_builtin hbytes hcomposite,
      Option.none_or]
  outcome kind blank := by
    rw [blank_eq_found, exists_found_eq_ok]
    exact KindTable.outcome_insertAboveReserved "payload" _ kind _
  refused kind blank error herror :=
    congrArg PayloadRegistry.mk (KindTable.insertAboveReserved_of_error herror)
  other call kind hother := by
    rw [blank_eq_found, blank_eq_found]
    by_cases hkind : kind ≤ reservedKind
    · exact congrArg _ (get?_payloads_add_of_le _ call hkind)
    · have hstep := get?_payloads_add (builtin.afterCalls calls) call (UInt8.not_le.mp hkind)
      rw [hother, Option.or_none] at hstep
      exact congrArg _ hstep

end PayloadRegistry

/-! ## Any history -/

/-- Registration is won by the first call and leaves the built-in kinds alone, whatever calls are
made on a fresh registry. In each table a kind that is not built in or kept back is found with the
blank of the first call that named it; a call that is refused changes nothing, and a call that
succeeds changes one kind of one table. -/
theorem afterCalls_firstWins {D : Dialect} {π : Type} :
    (∀ calls : List (Registry.Call D),
      (Registry.builtin.afterCalls calls).FirstWins calls) ∧
    (∀ calls : List (UInt8 × π),
      (PayloadRegistry.builtin.afterCalls calls).FirstWins calls) :=
  ⟨Registry.firstWins_afterCalls, PayloadRegistry.firstWins_afterCalls⟩

/-- One number in two tables, and again in each of them. -/
example : (Registry.builtin (D := Catalogue.dialect) |>.afterCalls
      [.message 40 (.wrap 40), .object 40 (.item (.seq 0)), .message 40 (.counter 40 0),
        .object 40 (.item (.seq 1))]).body 40
    = .ok (.custom (.wrap 40) []) := rfl

end Groupcast
