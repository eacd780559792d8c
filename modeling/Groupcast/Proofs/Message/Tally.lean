import Groupcast.Catalogue.Dialect
import Groupcast.Message.Tally
import Groupcast.Proofs.Message.DeclaredSize
import Groupcast.Proofs.Tally

/-!
# What messages add up

What a message adds up is its size. The numbers that it adds are bounded by what it holds, but for
the windows of its excerpts, which count with their lengths.
-/

namespace Groupcast

variable {D : Dialect}

/-! ## What is added up is the size -/

namespace Tally

/-- A tally that refuses does so whatever is added to it. -/
theorem value_add_of_error {a : Tally} {error : EncodeError} (ha : a.value = .error error)
    (b : Tally) : (a + b).value = .error error := by
  show (sum a b).value = _
  rw [value, ha]

/-- A row of tallies, each added with something extra, comes to a sum of sizes. Induction on the
row. -/
theorem value_foldl {add : Tally → Tally → Tally} (extra : Nat)
    (hok : ∀ t n u, t.value = .ok n → (add t u).value = u.value.map (n + extra + ·))
    (herror : ∀ t error u, t.value = .error error → (add t u).value = .error error)
    (row : List Tally) (t : Tally) :
    (row.foldl add t).value = t.value.bind fun n => (row.map value).foldlM
      (fun sum size => size.map (sum + extra + ·)) n := by
  induction row generalizing t with
  | nil =>
    rw [List.foldl_nil]
    cases t.value <;> rfl
  | cons u row ih =>
    rw [List.foldl_cons, ih, List.map_cons]
    cases ht : t.value with
    | error error =>
      rw [herror t error u ht]
      rfl
    | ok n =>
      rw [hok t n u ht]
      show _ = (u.value :: row.map value).foldlM (m := Except EncodeError)
        (fun sum size => size.map (sum + extra + ·)) n
      rw [List.foldlM_cons]
      rfl

end Tally

/-- What is counted before a sum of sizes is added to it. Induction on the sizes. -/
theorem foldlM_sizes_add (extra before : Nat) (sizes : List (Except EncodeError Nat)) (n : Nat) :
    sizes.foldlM (m := Except EncodeError) (fun sum size => size.map (sum + extra + ·)) (before + n)
      = (sizes.foldlM (m := Except EncodeError)
          (fun sum size => size.map (sum + extra + ·)) n).map (before + ·) := by
  induction sizes generalizing n with
  | nil => rfl
  | cons size sizes ih =>
    rw [List.foldlM_cons, List.foldlM_cons]
    cases size with
    | error error => rfl
    | ok k =>
      have hstep := ih (n + extra + k)
      rw [← Nat.add_assoc, ← Nat.add_assoc] at hstep
      exact hstep

theorem HeaderMap.value_tally [Streamable α] (m : HeaderMap α) (excluded : List HeaderId) :
    (m.tally excluded).value = .ok (m.wireSize excluded) := by
  -- The four bytes of the count are added to the sum of the entries, and not before it; so the
  -- induction is on the entries, whatever came before them.
  have hrow : ∀ (entries : List (HeaderId × α)) (t : Tally) (n : Nat), t.value = .ok n →
      (4 + entries.foldl
          (fun size entry => size + (2 + 2 + .number (Streamable.size entry.2))) t : Tally).value
        = .ok (entries.foldl (fun size entry => size + (2 + 2 + Streamable.size entry.2))
          (4 + n)) := by
    intro entries
    induction entries with
    | nil =>
      intro t n ht
      rw [List.foldl_nil, Tally.value_add_of_ok (Tally.value_ofNat 4), ht]
      rfl
    | cons entry entries ih =>
      intro t n ht
      rw [List.foldl_cons, List.foldl_cons, Nat.add_assoc]
      apply ih
      rw [Tally.value_add_of_ok ht]
      rfl
  exact hrow (m.retained excluded) 0 0 rfl

theorem Envelope.value_tallyWith (e : Envelope D) (dest src : Option Address)
    (excluded : List HeaderId) :
    (e.tallyWith dest src excluded).value
      = .ok (2 + 1 + Address.wireSize dest + Address.wireSize src
        + e.headers.wireSize excluded) := by
  have hfront : (2 + 1 + .number (Address.wireSize dest) + .number (Address.wireSize src)
      : Tally).value = .ok (2 + 1 + Address.wireSize dest + Address.wireSize src) := rfl
  rw [tallyWith, Tally.value_add_of_ok hfront, HeaderMap.value_tally]
  rfl

theorem Parcel.value_packedTally (p : Parcel D) :
    p.packedTally.value = p.packed?.map fun bytes => (bytes.getD []).length := by
  unfold packedTally
  cases p.packed? <;> rfl

theorem Parcel.value_lengthTally (parcel : Option (Parcel D)) :
    (lengthTally parcel).value = length parcel := by
  rcases parcel with _ | (x | x | bytes)
  · rfl
  · rfl
  · exact value_packedTally (.object x)
  · exact value_packedTally (.packed bytes : Parcel D)

theorem Parcel.value_wireTally (parcel : Option (Parcel D)) :
    (wireTally parcel).value = wireSize parcel := by
  have hpacked : ∀ p : Parcel D, (1 + (4 + p.packedTally) : Tally).value
      = p.packed?.map fun bytes => 1 + (4 + (bytes.getD []).length) := by
    intro p
    rw [Tally.value_add_of_ok (Tally.value_ofNat 1), Tally.value_add_of_ok (Tally.value_ofNat 4),
      value_packedTally]
    cases p.packed? <;> rfl
  rcases parcel with _ | (x | x | bytes)
  · rfl
  · rfl
  · exact hpacked _
  · exact hpacked _

mutual

theorem Message.value_lengthTally (m : Message D) : m.lengthTally.value = m.length := by
  cases m with
  | mk e body => exact Body.value_lengthTally body

theorem Body.value_lengthTally (b : Body D) : b.lengthTally.value = b.length := by
  cases b with
  | composite children =>
    rw [Body.lengthTally, Body.length, Tally.value_foldl 0
      (fun _ _ _ => Tally.value_add_of_ok) (fun _ _ u h => Tally.value_add_of_error h u),
      values_lengthTallies children]
    rfl
  | serializable parcel => exact Parcel.value_lengthTally parcel
  | _ => rfl

theorem values_lengthTallies (ms : List (Message D)) :
    (lengthTallies ms).map Tally.value = lengths ms := by
  cases ms with
  | nil => rfl
  | cons m ms =>
    rw [lengthTallies, lengths, List.map_cons, Message.value_lengthTally m,
      values_lengthTallies ms]

end

mutual

theorem Message.value_wireTally (m : Message D) : m.wireTally.value = m.wireSize := by
  cases m with
  | mk e body =>
    rw [Message.wireTally, Message.wireSize,
      Tally.value_add_of_ok (Envelope.value_tallyWith e e.dest e.src []), Body.value_wireTally body]
    rfl

theorem Body.value_wireTally (b : Body D) : b.wireTally.value = b.wireSize := by
  cases b with
  | buffer view direct => cases view <;> rfl
  | directBuffer view heap => cases view <;> rfl
  | composite children =>
    rw [Body.wireTally, Body.wireSize, Tally.value_foldl 1 ?_ ?_,
      values_wireTallies children]
    · exact foldlM_sizes_add 1 4 (wireSizes children) 0
    · intro t n u ht
      have hkind : (t + 1).value = .ok (n + 1) := by
        rw [Tally.value_add_of_ok ht]
        rfl
      exact Tally.value_add_of_ok hkind
    · intro t error u ht
      exact Tally.value_add_of_error (Tally.value_add_of_error ht 1) u
  | object record => cases record <;> rfl
  | serializable parcel => exact Parcel.value_wireTally parcel
  | _ => rfl

theorem values_wireTallies (ms : List (Message D)) :
    (wireTallies ms).map Tally.value = wireSizes ms := by
  cases ms with
  | nil => rfl
  | cons m ms =>
    rw [wireTallies, wireSizes, List.map_cons, Message.value_wireTally m, values_wireTallies ms]

end

theorem Message.value_wireTallyFor (m : Message D) (sender : Option Address)
    (excluded : List HeaderId) :
    (m.wireTallyFor sender excluded).value = m.wireSizeFor sender excluded := by
  rw [wireTallyFor, wireSizeFor, Tally.value_add_of_ok (Envelope.value_tallyWith _ _ _ _),
    Body.value_wireTally]
  rfl

theorem Message.value_encodedTally (m : Message D) : m.encodedTally.value = m.encodedSize := by
  rw [encodedTally, encodedSize, Tally.value_add_of_ok (Tally.value_ofNat 1), value_wireTally]

/-! ## What a message holds -/

/-- The headers of an envelope and the bytes in them. -/
def Envelope.weight (e : Envelope D) : Nat :=
  (e.headers.entries.map fun entry => 1 + Streamable.size entry.2).sum

mutual

/-- The messages, headers and bytes in a message, with those in the wholes of excerpts. -/
def Message.weight : Message D → Nat
  | .mk e body => 1 + e.weight + body.weight

/-- The messages, headers and bytes in a body, and what the application says of its own bodies. -/
def Body.weight : Body D → Nat
  | .empty => 0
  | .bytes view => View.optionalLength view
  | .buffer view _ => View.optionalLength view
  | .directBuffer view _ => View.optionalLength view
  | .composite children => weights children
  | .object r => r.elim 0 Streamable.size
  | .serializable parcel => (Parcel.lengthTally parcel).total
  | .excerpt whole _ => whole.weight
  | .received view => view.length
  | .custom s held =>
    CustomBody.length s (lengths held) + CustomBody.size s (wireSizes held) + weights held

/-- `Message.weight` of all messages. -/
def weights : List (Message D) → Nat
  | [] => 0
  | m :: ms => m.weight + weights ms

end

mutual

/-- How long the windows are that are met when a message is sized. -/
def Message.windowed : Message D → Nat
  | .mk _ body => body.windowed

/-- How long the windows are that are met when a body is sized. -/
def Body.windowed : Body D → Nat
  | .composite children => windowedAll children
  | .excerpt _ window => window.length
  | _ => 0

/-- `Message.windowed` of all messages. -/
def windowedAll : List (Message D) → Nat
  | [] => 0
  | m :: ms => m.windowed + windowedAll ms

end

/-- The total of a row is the sum of what its items add. -/
theorem Tally.total_foldl {ι : Type} {add : Tally → ι → Tally} (weigh : ι → Nat)
    (hadd : ∀ t i, (add t i).total = t.total + weigh i) (items : List ι) (t : Tally) :
    (items.foldl add t).total = t.total + (items.map weigh).sum := by
  induction items generalizing t with
  | nil => rfl
  | cons i items ih =>
    rw [List.foldl_cons, ih, hadd, List.map_cons, List.sum_cons, Nat.add_assoc]

/-- Each header takes four bytes besides its own, at most. -/
theorem Envelope.total_tally_le (e : Envelope D) (excluded : List HeaderId) :
    (e.headers.tally excluded).total ≤ 4 + 4 * e.weight := by
  have hentries : ∀ entries : List (HeaderId × Record D),
      ((entries.filter (!excluded.contains ·.1)).map fun entry =>
        2 + 2 + Streamable.size entry.2).sum
        ≤ 4 * (entries.map fun entry => 1 + Streamable.size entry.2).sum := by
    intro entries
    induction entries with
    | nil => exact Nat.le_refl _
    | cons entry entries ih =>
      rw [List.filter_cons, List.map_cons, List.sum_cons]
      split
      · rw [List.map_cons, List.sum_cons]
        omega
      · omega
  rw [HeaderMap.tally, Tally.total_add,
    Tally.total_foldl (fun entry => 2 + 2 + Streamable.size entry.2) fun _ _ => rfl,
    Tally.total_ofNat, Tally.total_ofNat, Nat.zero_add]
  exact Nat.add_le_add_left (hentries e.headers.entries) 4

theorem Address.wireSize_le (a : Option Address) : wireSize a ≤ 17 := by
  cases a with
  | none => decide
  | some a => exact Nat.le_refl _

theorem Envelope.total_tallyWith_le (e : Envelope D) (dest src : Option Address)
    (excluded : List HeaderId) : (e.tallyWith dest src excluded).total ≤ 41 + 4 * e.weight := by
  have hheaders := e.total_tally_le excluded
  have hdest := Address.wireSize_le dest
  have hsrc := Address.wireSize_le src
  simp only [tallyWith, Tally.total_add, Tally.total_ofNat, Tally.total_number]
  omega

theorem View.total_bufferTally_le (view : Option View) :
    (bufferTally view).total ≤ optionalLength view + 8 := by
  cases view with
  | none => decide
  | some view =>
    simp only [bufferTally, Tally.total_add, Tally.total_ofNat, Tally.total_number,
      optionalLength]
    omega

theorem Parcel.total_wireTally_le (parcel : Option (Parcel D)) :
    (wireTally parcel).total ≤ (lengthTally parcel).total + 8 := by
  rcases parcel with _ | (x | x | bytes)
  all_goals
    simp only [wireTally, lengthTally, Tally.total_add, Tally.total_ofNat, Tally.total_number]
    omega

mutual

theorem Message.total_lengthTally_le (m : Message D) :
    m.lengthTally.total ≤ m.windowed + m.weight := by
  cases m with
  | mk e body =>
    have hbody := Body.total_lengthTally_le body
    simp only [Message.lengthTally, Message.windowed, Message.weight]
    omega

theorem Body.total_lengthTally_le (b : Body D) :
    b.lengthTally.total ≤ b.windowed + b.weight := by
  cases b with
  | composite children =>
    have hchildren := sum_lengthTallies_le children
    rw [Body.lengthTally, Tally.total_foldl Tally.total (fun _ _ => rfl)]
    simp only [Body.windowed, Body.weight, Tally.total_ofNat]
    omega
  | excerpt whole window => exact Nat.le_add_right _ _
  | custom s held =>
    simp only [Body.lengthTally, Body.windowed, Body.weight, Tally.total_number]
    omega
  | _ => exact Nat.le_add_left _ _

theorem sum_lengthTallies_le (ms : List (Message D)) :
    ((lengthTallies ms).map Tally.total).sum ≤ windowedAll ms + weights ms := by
  cases ms with
  | nil => exact Nat.le_refl _
  | cons m ms =>
    have hfirst := Message.total_lengthTally_le m
    have hothers := sum_lengthTallies_le ms
    simp only [lengthTallies, List.map_cons, List.sum_cons, windowedAll, weights]
    omega

end

mutual

/-- A message takes 64 bytes at most for each message, header and byte that it holds, besides the
windows; its kind is counted. -/
theorem Message.total_wireTally_le (m : Message D) :
    m.wireTally.total + 1 ≤ m.windowed + 64 * m.weight := by
  cases m with
  | mk e body =>
    -- 41 bytes of envelope, eight of body and the kind are paid for by the message itself.
    have henvelope := e.total_tallyWith_le e.dest e.src []
    have hbody := Body.total_wireTally_le body
    simp only [Message.wireTally, Message.windowed, Message.weight, Tally.total_add]
    omega

/-- A body takes eight bytes besides what it holds. -/
theorem Body.total_wireTally_le (b : Body D) :
    b.wireTally.total ≤ b.windowed + 64 * b.weight + 8 := by
  cases b with
  | empty => exact Nat.zero_le _
  | bytes view =>
    simp only [Body.wireTally, Body.windowed, Body.weight, Tally.total_add, Tally.total_ofNat,
      Tally.total_number]
    omega
  | buffer view direct =>
    have hview := View.total_bufferTally_le view
    simp only [Body.wireTally, Body.windowed, Body.weight]
    omega
  | directBuffer view heap =>
    have hview := View.total_bufferTally_le view
    simp only [Body.wireTally, Body.windowed, Body.weight]
    omega
  | composite children =>
    have hchildren := sum_wireTallies_le children
    rw [Body.wireTally, Tally.total_foldl (fun child => 1 + child.total) fun _ _ => by
      simp only [Tally.total_add, Tally.total_ofNat, Nat.add_assoc]]
    simp only [Body.windowed, Body.weight, Tally.total_ofNat]
    omega
  | object record =>
    cases record with
    | none => exact Nat.le_add_left _ _
    | some r =>
      simp only [Body.wireTally, Body.windowed, Body.weight, Tally.total_add, Tally.total_ofNat,
        Tally.total_number, Option.elim_some]
      omega
  | serializable parcel =>
    have hparcel := Parcel.total_wireTally_le parcel
    simp only [Body.wireTally, Body.windowed, Body.weight]
    omega
  | excerpt whole window =>
    simp only [Body.wireTally, Body.windowed, Body.weight, Tally.total_add, Tally.total_ofNat,
      Tally.total_number]
    omega
  | received view =>
    simp only [Body.wireTally, Body.windowed, Body.weight, Tally.total_add, Tally.total_ofNat,
      Tally.total_number]
    omega
  | custom s held =>
    simp only [Body.wireTally, Body.windowed, Body.weight, Tally.total_number]
    omega

theorem sum_wireTallies_le (ms : List (Message D)) :
    ((wireTallies ms).map fun child => 1 + child.total).sum
      ≤ windowedAll ms + 64 * weights ms := by
  cases ms with
  | nil => exact Nat.le_refl _
  | cons m ms =>
    have hfirst := Message.total_wireTally_le m
    have hothers := sum_wireTallies_le ms
    simp only [wireTallies, List.map_cons, List.sum_cons, windowedAll, weights]
    omega

end

theorem Message.total_wireTallyFor_le (m : Message D) (sender : Option Address)
    (excluded : List HeaderId) :
    (m.wireTallyFor sender excluded).total ≤ m.windowed + 64 * m.weight := by
  cases m with
  | mk e body =>
    have henvelope := e.total_tallyWith_le (e.addressesFor sender).1 (e.addressesFor sender).2
      excluded
    have hbody := Body.total_wireTally_le body
    simp only [wireTallyFor, Message.envelope, Message.body, windowed, weight, Tally.total_add]
    omega

theorem Message.total_encodedTally_le (m : Message D) :
    m.encodedTally.total ≤ m.windowed + 64 * m.weight := by
  have hwire := m.total_wireTally_le
  simp only [encodedTally, Tally.total_add, Tally.total_ofNat]
  omega

/-! ## A window without bounds -/

/-- A window of a message without payload, from the start on. -/
def Message.windowOfEmpty (length : Nat) : Message Catalogue.dialect :=
  ofBody (.excerpt (ofBody .empty) ⟨0, length⟩)

/-- It takes 14 bytes besides those of the window, and is sized whether there are any such or
not. -/
theorem Message.encodedSize_windowOfEmpty (length : Nat) :
    (windowOfEmpty length).encodedSize = .ok (14 + length) := by
  have hbody : (windowOfEmpty length).wireSize = .ok (9 + (4 + length)) := rfl
  rw [encodedSize, hbody]
  show Except.ok (1 + (9 + (4 + length))) = _
  rw [← Nat.add_assoc, ← Nat.add_assoc]

end Groupcast
