import Groupcast.Message.Copy
import Groupcast.Message.Edit
import Groupcast.Proofs.Catalogue.Contract
import Groupcast.Proofs.Emission
import Groupcast.Proofs.Message.Writing

/-!
# Copies and what is copied

A full copy writes what the message writes, and a copy of a copy is like one copy that leaves out
what either leaves out. Messages are compared by `Message.Alike`: they have the same envelope and
the same body, down to the messages in it, where the states of custom bodies need only behave in the
same way. Of a custom body the same is asked as is shown of messages: `CustomBody.CopiesWell`.
-/

namespace Groupcast

variable {D : Dialect}

/-! ## Results of writings in a row -/

namespace Emission

/-- What comes of two writings in a row is told by what comes of each. -/
theorem result_append_congr {a a' b b' : Emission} (ha : a.result = a'.result)
    (hb : b.result = b'.result) : (a ++ b).result = (a' ++ b').result := by
  cases hfirst : a'.result with
  | error error =>
    rw [hfirst] at ha
    rw [result_eq_error] at ha hfirst
    rw [append_def, append, ha, append_def, append, hfirst]
    exact (result_eq_error.mpr ha).trans (result_eq_error.mpr hfirst).symm
  | ok u =>
    rw [hfirst] at ha
    cases hsecond : b'.result with
    | error error =>
      rw [hsecond] at hb
      rw [result_append_of_ok_of_error ha hb, result_append_of_ok_of_error hfirst hsecond]
    | ok v =>
      rw [hsecond] at hb
      rw [result_append_eq_ok.mpr ⟨u, v, ha, hb, rfl⟩,
        result_append_eq_ok.mpr ⟨u, v, hfirst, hsecond, rfl⟩]

theorem result_concat_congr {es es' : List Emission} (h : es.map result = es'.map result) :
    (concat es).result = (concat es').result := by
  induction es generalizing es' with
  | nil =>
    rw [List.map_eq_nil_iff.mp h.symm]
  | cons e es ih =>
    cases es' with
    | nil => cases h
    | cons e' es' =>
      rw [List.map_cons, List.map_cons, List.cons.injEq] at h
      exact result_append_congr h.1 (ih h.2)

end Emission

/-! ## States of custom bodies -/

/-- States of custom bodies that do the same, whatever messages they hold. What they write may
differ in its pieces, as may what is written of the messages held. -/
structure CustomBody.Alike {σ : Type} [CustomBody σ] (s s' : σ) : Prop where
  kind_eq : kind s = kind s'
  length_eq : ∀ held, length s held = length s' held
  hasPayload_eq : ∀ held, hasPayload s held = hasPayload s' held
  size_eq : ∀ held, size s held = size s' held
  emit_eq : ∀ held held', held.map Emission.result = held'.map Emission.result →
    (emit s held).result = (emit s' held').result

/-- What a custom body must keep to when it is copied with the messages that it holds. A copy with
payload has the same kind and writes the same, given copies of these messages that do; and copies of
copies are like one copy without payload if either is, and hold messages if both do. -/
structure CustomBody.CopiesWell (s : D.Custom) (held : List (Message D)) : Prop where
  kind_copy : kind (copy true s).1 = kind s
  emit_copy : ∀ es, es.map Emission.result = (emissions held).map Emission.result →
    (emit (copy true s).1 (if (copy true s).2 then es else [])).result
      = (emit s (emissions held)).result
  copy_copy : ∀ p q, Alike (copy q (copy p s).1).1 (copy (p && q) s).1
  held_copy : held ≠ [] → ∀ p q, ((copy p s).2 && (copy q (copy p s).1).2) = (copy (p && q) s).2

mutual

/-- Whether the custom bodies of a message keep to the laws of copies. Nothing is asked of a message
that only a window is cut from. -/
def Message.CopiesWell : Message D → Prop
  | .mk _ body => body.CopiesWell

/-- `Message.CopiesWell` of what lies in a body. -/
def Body.CopiesWell : Body D → Prop
  | .composite children => AllCopyWell children
  | .custom s held => CustomBody.CopiesWell s held ∧ AllCopyWell held
  | _ => True

/-- `Message.CopiesWell` of each message. -/
def AllCopyWell : List (Message D) → Prop
  | [] => True
  | m :: ms => m.CopiesWell ∧ AllCopyWell ms

end

/-! ## Messages that are alike -/

mutual

/-- Messages with the same envelope and bodies that are alike. -/
def Message.Alike : Message D → Message D → Prop
  | .mk e body, other => e = other.envelope ∧ body.Alike other.body

/-- Bodies that are the same, except that custom bodies in them may be alike only. -/
def Body.Alike : Body D → Body D → Prop
  | .composite children, other => ∃ others, other = .composite others ∧ AllAlike children others
  | .custom s held, other => ∃ s' held', other = .custom s' held' ∧
    CustomBody.Alike s s' ∧ AllAlike held held'
  | b, other => b = other

/-- Messages in a row that are alike in pairs. -/
def AllAlike : List (Message D) → List (Message D) → Prop
  | [], others => others = []
  | m :: ms, others => ∃ other rest, others = other :: rest ∧ m.Alike other ∧ AllAlike ms rest

end

theorem Body.Alike.kind_eq {b b' : Body D} (h : b.Alike b') : b.kind = b'.kind := by
  cases b with
  | composite children =>
    obtain ⟨others, rfl, -⟩ := h
    rfl
  | custom s held =>
    obtain ⟨s', held', rfl, hstate, -⟩ := h
    exact hstate.kind_eq
  | _ => exact congrArg kind h

theorem Body.Alike.array_eq {b b' : Body D} (h : b.Alike b') : b.array = b'.array := by
  cases b with
  | composite children =>
    obtain ⟨others, rfl, -⟩ := h
    rfl
  | custom s held =>
    obtain ⟨s', held', rfl, -, -⟩ := h
    rfl
  | _ => exact congrArg array h

theorem AllAlike.length_eq {ms ms' : List (Message D)} (h : AllAlike ms ms') :
    ms.length = ms'.length := by
  induction ms generalizing ms' with
  | nil => rw [show ms' = [] from h]
  | cons m ms ih =>
    obtain ⟨other, rest, rfl, -, hrest⟩ := h
    rw [List.length_cons, List.length_cons, ih hrest]

mutual

/-- Messages that are alike have the same sizes, and the same comes of writing them. -/
theorem Message.Alike.sizes_and_result {m m' : Message D} (h : m.Alike m') :
    m.length = m'.length ∧ m.wireSize = m'.wireSize ∧ m.emit.result = m'.emit.result := by
  match m, m' with
  | .mk e b, .mk e' b' =>
    obtain ⟨rfl, hbody⟩ := h
    replace hbody : b.Alike b' := hbody
    obtain ⟨hlength, hsize, hresult⟩ := Body.Alike.sizes_and_result hbody
    refine ⟨hlength, ?_, ?_⟩
    · rw [Message.wireSize, hsize]
      rfl
    · exact Emission.result_append_congr (by rw [hbody.kind_eq])
        (Emission.result_append_congr rfl hresult)

theorem Body.Alike.sizes_and_result {b b' : Body D} (h : b.Alike b') :
    b.length = b'.length ∧ b.wireSize = b'.wireSize ∧ b.emit.result = b'.emit.result := by
  match b with
  | .composite children =>
    obtain ⟨others, rfl, hall⟩ := h
    obtain ⟨hlengths, hsizes, hresults⟩ := AllAlike.sizes_and_results hall
    refine ⟨?_, ?_, ?_⟩
    · simp only [Body.length, hlengths]
    · simp only [Body.wireSize, hsizes]
    · exact Emission.result_append_congr (by rw [hall.length_eq])
        (Emission.result_concat_congr hresults)
  | .custom s held =>
    obtain ⟨s', held', rfl, hstate, hall⟩ := h
    obtain ⟨hlengths, hsizes, hresults⟩ := AllAlike.sizes_and_results hall
    refine ⟨?_, ?_, ?_⟩
    · simp only [Body.length, hlengths, hstate.length_eq]
    · simp only [Body.wireSize, hsizes, hstate.size_eq]
    · exact hstate.emit_eq _ _ hresults
  | .empty | .bytes _ | .buffer _ _ | .directBuffer _ _ | .object _ | .serializable _
  | .excerpt _ _ | .received _ =>
    cases h
    exact ⟨rfl, rfl, rfl⟩

theorem AllAlike.sizes_and_results {ms ms' : List (Message D)} (h : AllAlike ms ms') :
    lengths ms = lengths ms' ∧ wireSizes ms = wireSizes ms' ∧
      (emissions ms).map Emission.result = (emissions ms').map Emission.result := by
  match ms with
  | [] =>
    cases h
    exact ⟨rfl, rfl, rfl⟩
  | m :: ms =>
    obtain ⟨other, rest, rfl, hfirst, hrest⟩ := h
    obtain ⟨hlength, hsize, hresult⟩ := Message.Alike.sizes_and_result hfirst
    obtain ⟨hlengths, hsizes, hresults⟩ := AllAlike.sizes_and_results hrest
    refine ⟨?_, ?_, ?_⟩
    · rw [lengths, lengths, hlength, hlengths]
    · rw [wireSizes, wireSizes, hsize, hsizes]
    · rw [emissions, emissions, List.map_cons, List.map_cons, hresult, hresults]

end

/-- What can be seen of messages from outside is the same. -/
structure Message.ObservablyEqual (m m' : Message D) : Prop where
  envelope_eq : m.envelope = m'.envelope
  kind_eq : m.kind = m'.kind
  length_eq : m.length = m'.length
  hasPayload_eq : m.body.hasPayload = m'.body.hasPayload
  array_eq : m.body.array = m'.body.array
  wireSize_eq : m.wireSize = m'.wireSize
  encode_eq : m.encode = m'.encode
  emitFor_eq : ∀ sender excluded,
    (m.emitFor sender excluded).result = (m'.emitFor sender excluded).result

theorem Body.Alike.hasPayload_eq {b b' : Body D} (h : b.Alike b') :
    b.hasPayload = b'.hasPayload := by
  cases b with
  | composite children =>
    obtain ⟨others, rfl, hall⟩ := h
    have hlength := hall.length_eq
    cases children <;> cases others <;> simp_all [hasPayload]
  | custom s held =>
    obtain ⟨s', held', rfl, hstate, hall⟩ := h
    obtain ⟨hlengths, -, -⟩ := AllAlike.sizes_and_results hall
    rw [hasPayload, hasPayload, hlengths, hstate.hasPayload_eq]
  | _ => exact congrArg hasPayload h

theorem Message.Alike.observablyEqual {m m' : Message D} (h : m.Alike m') :
    m.ObservablyEqual m' := by
  obtain ⟨hlength, hsize, hresult⟩ := h.sizes_and_result
  cases m with
  | mk e b =>
    obtain ⟨rfl, hbody⟩ := h
    obtain ⟨-, -, hwritten⟩ := hbody.sizes_and_result
    exact {
      envelope_eq := rfl
      kind_eq := hbody.kind_eq
      length_eq := hlength
      hasPayload_eq := hbody.hasPayload_eq
      array_eq := hbody.array_eq
      wireSize_eq := hsize
      encode_eq := by rw [encode, encode, hsize, hresult]
      emitFor_eq := fun _ _ => Emission.result_append_congr rfl hwritten }

/-! ## Copies of copies -/

/-- Messages that are copied twice are alike to messages that are copied once, unless they are left
out. -/
theorem allAlike_copies_of_copies {ms : List (Message D)} {k₁ k₂ k₃ : Bool}
    (hkeep : ms ≠ [] → (k₁ && k₂) = k₃) (hcopies : AllAlike (copies (copies ms)) (copies ms)) :
    AllAlike (if k₂ then copies (if k₁ then copies ms else []) else [])
      (if k₃ then copies ms else []) := by
  cases ms with
  | nil =>
    have hnone : ∀ k : Bool, (if k then copies (D := D) [] else []) = [] := by
      intro k
      cases k <;> rfl
    rw [hnone, hnone, hnone]
    rfl
  | cons m ms =>
    obtain rfl := hkeep (List.cons_ne_nil m ms)
    cases k₁ <;> cases k₂
    · rfl
    · rfl
    · rfl
    · exact hcopies

mutual

theorem Message.copyAll_copyAll (m : Message D) (h : m.CopiesWell) :
    m.copyAll.copyAll.Alike m.copyAll := by
  cases m with
  | mk e b => exact ⟨rfl, Body.copy_copy b h true true⟩

/-- A copy of the copy of a body has the payload if both are to have it. -/
theorem Body.copy_copy (b : Body D) (h : b.CopiesWell) (p q : Bool) :
    ((b.copy p).copy q).Alike (b.copy (p && q)) := by
  cases b with
  | composite children =>
    exact ⟨_, rfl, allAlike_copies_of_copies (fun _ => rfl) (allAlike_copies_copies children h)⟩
  | custom s held =>
    obtain ⟨hstate, hheld⟩ := h
    exact ⟨_, _, rfl, hstate.copy_copy p q, allAlike_copies_of_copies
      (fun hsome => hstate.held_copy hsome p q) (allAlike_copies_copies held hheld)⟩
  | _ => cases p <;> cases q <;> rfl

theorem allAlike_copies_copies (ms : List (Message D)) (h : AllCopyWell ms) :
    AllAlike (copies (copies ms)) (copies ms) := by
  cases ms with
  | nil => rfl
  | cons m ms =>
    obtain ⟨hfirst, hrest⟩ := h
    exact ⟨_, _, rfl, Message.copyAll_copyAll m hfirst, allAlike_copies_copies ms hrest⟩

end

/-! ## Full copies -/

/-- The error of a computation that failed. -/
def errorOf? {α : Type} : Except EncodeError α → Option EncodeError
  | .ok _ => none
  | .error error => some error

theorem errorOf?_map {α β : Type} (f : α → β) (x : Except EncodeError α) :
    errorOf? (x.map f) = errorOf? x := by
  cases x <;> rfl

/-- A sum of sizes fails as the first of them does. -/
theorem errorOf?_sumSizes {extra : Nat} {sizes sizes' : List (Except EncodeError Nat)}
    (h : sizes.map errorOf? = sizes'.map errorOf?) :
    errorOf? (sumSizes extra sizes) = errorOf? (sumSizes extra sizes') := by
  suffices hsum : ∀ sum sum', errorOf? (sizes.foldlM (m := Except EncodeError)
      (fun sum size => size.map (sum + extra + ·)) sum) = errorOf? (sizes'.foldlM
        (m := Except EncodeError) (fun sum size => size.map (sum + extra + ·)) sum') from hsum 0 0
  induction sizes generalizing sizes' with
  | nil =>
    rw [List.map_eq_nil_iff.mp h.symm]
    exact fun _ _ => rfl
  | cons size sizes ih =>
    cases sizes' with
    | nil => cases h
    | cons size' sizes' =>
      intro sum sum'
      rw [List.map_cons, List.map_cons, List.cons.injEq] at h
      rw [List.foldlM_cons, List.foldlM_cons]
      cases size with
      | error error =>
        cases size' with
        | error error' => exact h.1
        | ok n => cases h.1
      | ok n =>
        cases size' with
        | error error' => cases h.1
        | ok n' => exact ih h.2 _ _

/-- Encoding fails as sizing does, or else as writing does. -/
theorem Message.encode_congr {m m' : Message D} (hsize : errorOf? m.wireSize = errorOf? m'.wireSize)
    (hresult : m.emit.result = m'.emit.result) : m.encode = m'.encode := by
  unfold encode
  cases hw : m.wireSize <;> cases hw' : m'.wireSize <;> rw [hw, hw'] at hsize
  · rw [Option.some.inj hsize]
    rfl
  · cases hsize
  · cases hsize
  · exact hresult

theorem length_copies (ms : List (Message D)) : (copies ms).length = ms.length := by
  rw [copies_eq_map, List.length_map]

theorem Body.kind_copy_true {b : Body D} (h : b.CopiesWell) : (b.copy true).kind = b.kind := by
  cases b with
  | custom s held => exact h.1.kind_copy
  | _ => rfl

mutual

/-- A full copy of a message is sized and written as the message, or fails to be in the same way. -/
theorem Message.errorOf?_and_result_copyAll (m : Message D) (h : m.CopiesWell) :
    errorOf? m.copyAll.wireSize = errorOf? m.wireSize ∧
      m.copyAll.emit.result = m.emit.result := by
  cases m with
  | mk e b =>
    obtain ⟨hsize, hresult⟩ := Body.errorOf?_and_result_copy_true b h
    constructor
    · rw [Message.copyAll, Message.wireSize, Message.wireSize, errorOf?_map, errorOf?_map, hsize]
    · rw [Message.copyAll, Message.emit, Message.emit, Body.kind_copy_true h]
      exact Emission.result_append_congr rfl (Emission.result_append_congr rfl hresult)

theorem Body.errorOf?_and_result_copy_true (b : Body D) (h : b.CopiesWell) :
    errorOf? (b.copy true).wireSize = errorOf? b.wireSize ∧
      (b.copy true).emit.result = b.emit.result := by
  cases b with
  | composite children =>
    obtain ⟨hsizes, hresults⟩ := errorOf?_and_results_copies children h
    constructor
    · show errorOf? ((sumSizes 1 (wireSizes (copies children))).map (4 + ·)) = _
      rw [errorOf?_map, errorOf?_sumSizes hsizes, Body.wireSize, errorOf?_map]
    · exact Emission.result_append_congr (by rw [if_pos rfl, length_copies])
        (Emission.result_concat_congr hresults)
  | custom s held =>
    obtain ⟨hstate, hheld⟩ := h
    obtain ⟨-, hresults⟩ := errorOf?_and_results_copies held hheld
    refine ⟨rfl, ?_⟩
    have hwritten := hstate.emit_copy _ hresults
    rw [Body.emit, ← hwritten, Body.copy, Body.emit]
    cases (CustomBody.copy true s).2 <;> rfl
  | _ => exact ⟨rfl, rfl⟩

theorem errorOf?_and_results_copies (ms : List (Message D)) (h : AllCopyWell ms) :
    (wireSizes (copies ms)).map errorOf? = (wireSizes ms).map errorOf? ∧
      (emissions (copies ms)).map Emission.result = (emissions ms).map Emission.result := by
  cases ms with
  | nil => exact ⟨rfl, rfl⟩
  | cons m ms =>
    obtain ⟨hsize, hresult⟩ := Message.errorOf?_and_result_copyAll m h.1
    obtain ⟨hsizes, hresults⟩ := errorOf?_and_results_copies ms h.2
    constructor
    · rw [copies, wireSizes, wireSizes, List.map_cons, List.map_cons, hsize, hsizes]
    · rw [copies, emissions, emissions, List.map_cons, List.map_cons, hresult, hresults]

end

/-! ## Headers -/

namespace HeaderMap

variable {α : Type}

/-- The headers of the layers from two numbers on are those from the larger on. -/
theorem startingFrom_startingFrom (m : HeaderMap α) (s t : HeaderId) :
    (m.startingFrom s).startingFrom t = m.startingFrom (max s t) := by
  apply ext_entries
  simp only [startingFrom, List.filter_filter]
  refine List.filter_congr fun entry _ => ?_
  rw [← Bool.decide_and, decide_eq_decide]
  simp only [UInt16.le_iff_toNat_le]
  have hmax : (max s t).toNat = max s.toNat t.toNat := by
    show (if s ≤ t then t else s).toNat = _
    by_cases hle : s ≤ t
    · rw [if_pos hle, Nat.max_eq_right (UInt16.le_iff_toNat_le.mp hle)]
    · rw [if_neg hle, Nat.max_eq_left (Nat.le_of_not_le (mt UInt16.le_iff_toNat_le.mpr hle))]
  omega

/-- Leaving out the layers below a number is writing those from it on. -/
theorem emit_startingFrom [Streamable α] (m : HeaderMap α) (first : HeaderId) :
    (m.startingFrom first).emit [] = m.emit (m.ids.filter (· < first)) := by
  have hentries : m.retained (m.ids.filter (· < first)) = (m.startingFrom first).entries := by
    unfold retained startingFrom
    refine List.filter_congr fun entry hmem => ?_
    have hlayer : entry.1 ∈ m.ids := List.mem_map_of_mem hmem
    rw [Bool.eq_iff_iff]
    simp [hlayer, UInt16.not_lt]
  unfold emit
  rw [retained_nil, hentries]

end HeaderMap

/-! ## Children -/

/-- The message that is reached from a composite by the places of children, one inside the other. -/
def Message.descendant? : Message D → List Nat → Option (Message D)
  | m, [] => some m
  | m, i :: path => do
    let children ← m.children?
    let child ← children[i]?
    child.descendant? path

/-- The children of a copy are full copies, or there are none. -/
theorem Message.children?_copy (e : Envelope D) (b : Body D) (p : Bool) :
    (mk e (b.copy p)).children?
      = (mk e b).children?.map fun children => if p then children.map Message.copyAll else [] := by
  cases b with
  | composite children =>
    rw [Body.copy, copies_eq_map]
    rfl
  | excerpt whole window => cases p <;> rfl
  | _ => rfl

/-- What is reached in a full copy is a full copy. Induction on the path. -/
theorem Message.descendant?_copyAll (m : Message D) (path : List Nat) :
    m.copyAll.descendant? path = (m.descendant? path).map Message.copyAll := by
  induction path generalizing m with
  | nil => rfl
  | cons i path ih =>
    cases m with
    | mk e b =>
      rw [copyAll, descendant?, descendant?, children?_copy]
      cases (mk e b).children? with
      | none => rfl
      | some children =>
        simp only [Option.map_some, if_true, Option.bind_eq_bind, Option.bind_some,
          List.getElem?_map]
        cases children[i]? with
        | none => rfl
        | some child => exact ih child

theorem Message.descendant?_copy_body (e e' : Envelope D) (b : Body D) (p : Bool) {path : List Nat}
    (hpath : path ≠ []) : (mk e' (b.copy p)).descendant? path
      = if p then ((mk e b).descendant? path).map (·.copy true true) else none := by
  have hcopy : (fun m : Message D => m.copy true true) = copyAll :=
    funext fun m => (copyAll_eq_copy m).symm
  cases path with
  | nil => exact absurd rfl hpath
  | cons i path =>
    rw [hcopy, descendant?, descendant?, children?_copy]
    show (((mk e b).children?.map _).bind _) = _
    cases (mk e b).children? with
    | none => cases p <;> rfl
    | some children =>
      cases p with
      | false => rfl
      | true =>
        simp only [Option.map_some, if_true, Option.bind_eq_bind, Option.bind_some,
          List.getElem?_map]
        cases children[i]? with
        | none => rfl
        | some child => exact descendant?_copyAll child path

/-! ## All laws -/

/-- Copies agree with what is copied and with each other. A full copy writes the same, or fails with
the same error. A copy of a copy is alike to one copy that has the payload if both have it, and the
headers that both have; and messages that are alike cannot be told apart. A copy of the headers from
a layer on is written as the message is without those below. And what is reached in a composite that
is copied, however deep, is a full copy, unless the payload is left out and nothing is reached. -/
theorem Message.copies_agree (m : Message D) (hcopies : m.CopiesWell) :
    ((m.copy true true).emit.result = m.emit.result ∧
      (m.copy true true).emitUntagged.result = m.emitUntagged.result ∧
      (m.copy true true).encode = m.encode) ∧
    (∀ p h q k, ((m.copy p h).copy q k).Alike (m.copy (p && q) (h && k))) ∧
    (∀ p q s t, ((m.copyFrom p s).copyFrom q t).Alike (m.copyFrom (p && q) (max s t))) ∧
    (∀ m₁ m₂ : Message D, m₁.Alike m₂ → m₁.ObservablyEqual m₂) ∧
    (∀ s, (m.copyFrom true s).emitUntagged.result
      = (m.emitFor none (m.envelope.headers.ids.filter (· < s))).result) ∧
    ∀ p path, path ≠ [] →
      (∀ h, (m.copy p h).descendant? path
        = if p then (m.descendant? path).map (·.copy true true) else none) ∧
      ∀ s, (m.copyFrom p s).descendant? path
        = if p then (m.descendant? path).map (·.copy true true) else none := by
  obtain ⟨hsize, hresult⟩ := errorOf?_and_result_copyAll m hcopies
  cases m with
  | mk e b =>
    obtain ⟨-, hbody⟩ := Body.errorOf?_and_result_copy_true b hcopies
    refine ⟨?_, ?_, ?_, fun _ _ => Alike.observablyEqual, ?_, ?_⟩
    · rw [← copyAll_eq_copy]
      exact ⟨hresult, Emission.result_append_congr rfl hbody, encode_congr hsize hresult⟩
    · intro p h q k
      refine ⟨?_, Body.copy_copy b hcopies p q⟩
      cases h <;> cases k <;> rfl
    · intro p q s t
      refine ⟨?_, Body.copy_copy b hcopies p q⟩
      show { e with headers := (e.headers.startingFrom s).startingFrom t } = _
      rw [HeaderMap.startingFrom_startingFrom]
      rfl
    · intro s
      refine Emission.result_append_congr ?_ hbody
      show (Emission.append _ ((e.headers.startingFrom s).emit [])).result = _
      rw [HeaderMap.emit_startingFrom]
      rfl
    · intro p path hpath
      exact ⟨fun h => descendant?_copy_body e _ b p hpath,
        fun s => descendant?_copy_body e _ b p hpath⟩

/-! ## The catalogue -/

namespace Catalogue

theorem Custom.alike_refl (s : Custom) : CustomBody.Alike s s where
  kind_eq := rfl
  length_eq _ := rfl
  hasPayload_eq _ := rfl
  size_eq _ := rfl
  emit_eq held held' h := by
    cases s with
    | counter kind value => rfl
    | wrap kind => exact Emission.result_concat_congr h

/-- Counters and wrappers keep to the laws, whatever they hold. -/
theorem Custom.copiesWell (s : Custom) (held : List (Message dialect)) :
    CustomBody.CopiesWell (D := dialect) s held where
  kind_copy := by
    cases s <;> rfl
  emit_copy es h := by
    cases s with
    | counter kind value => rfl
    | wrap kind => exact Emission.result_concat_congr h
  copy_copy p q := by
    have hsame : (CustomBody.copy q (CustomBody.copy p s).1).1
        = (CustomBody.copy (p && q) s).1 := by
      cases s <;> cases p <;> cases q <;> rfl
    rw [hsame]
    exact alike_refl _
  held_copy _ p q := by
    cases s <;> cases p <;> cases q <;> rfl

/-- A composite of composites, whose headers are those of layers 7 and 9. -/
def nested : Message dialect :=
  .mk { sample.envelope with headers := sample.envelope.headers.put 9 (.item (.seq 4)) }
    (.composite [sample])

theorem nested_copiesWell : nested.CopiesWell :=
  ⟨⟨trivial, ⟨Custom.copiesWell _ _, trivial⟩, ⟨Custom.copiesWell _ _, trivial, trivial⟩, trivial⟩,
    trivial⟩

/-- A copy with payload reaches a full copy of the wrapper, and of the headers takes the one of
layer 9 only; a copy of it without payload holds nothing. -/
theorem copies_agree_nested :
    (nested.copy true true).encode = nested.encode ∧
    ((nested.copyFrom true 8).copyFrom false 3).Alike (nested.copyFrom false 8) ∧
    (nested.copyFrom true 8).emitUntagged.result = (nested.emitFor none [7]).result ∧
    (∃ wrapper, (nested.descendant? [0, 2]) = some wrapper ∧
      (nested.copyFrom true 8).descendant? [0, 2] = some (wrapper.copy true true)) ∧
    (nested.copyFrom false 8).descendant? [0, 2] = none := by
  obtain ⟨⟨-, -, hencode⟩, -, hcompose, -, hheaders, hchildren⟩ :=
    Message.copies_agree nested nested_copiesWell
  obtain ⟨-, hfull⟩ := hchildren true [0, 2] (by decide)
  obtain ⟨-, hnone⟩ := hchildren false [0, 2] (by decide)
  exact ⟨hencode, hcompose true false 8 3, hheaders 8, ⟨_, rfl, hfull 8⟩, hnone 8⟩

end Catalogue

end Groupcast
