import Groupcast.Proofs.Catalogue.Contract
import Groupcast.Proofs.Catalogue.Payload
import Groupcast.Proofs.Message.Tidied
import Groupcast.Proofs.Reading.Turns

/-!
# Announced counts are not trusted

An input announces how many headers follow, and how many messages or payloads lie in a composite.
The announced number bounds nothing: the bytes at hand do. A header takes 4 bytes, a message 10 and
a payload 1, so a reader that is promised more of them than there are bytes for stops at the one
for which they do not suffice.
-/

namespace Groupcast

/-! ## Headers -/

namespace HeaderMap

variable {α : Type} [Streamable α]

/-- Reads a header with its layer. -/
def readingEntry (blank : UInt16 → Except DecodeError α) : Reading (HeaderId × α) := do
  let id ← Reading.u16
  let kind ← Reading.u16
  let header ← Reading.ofExcept (blank kind)
  let header ← Streamable.refill header
  return (id, header)

/-- Reading into a map is to put one header after the other. Induction on how many are left. -/
theorem readingInto_eq_putAll (blank : UInt16 → Except DecodeError α) (n : Nat) (m : HeaderMap α)
    (before : List (HeaderId × α)) : readingInto blank n (m.putAll before.reverse)
      = m.putAll <$> (readingEntry blank).repeated n before := by
  induction n generalizing before with
  | zero => rfl
  | succ n ih =>
    have hput : ∀ id header, (m.putAll before.reverse).put id header
        = m.putAll ((id, header) :: before).reverse := by
      intro id header
      rw [List.reverse_cons, putAll, putAll, List.foldl_append]
      rfl
    simp only [readingInto, Reading.repeated, readingEntry, hput, ih, ← Reading.bind_eq_bind,
      map_bind, bind_assoc, pure_bind]

theorem readingInto_eq_times (blank : UInt16 → Except DecodeError α) (n : Nat) (m : HeaderMap α) :
    readingInto blank n m = m.putAll <$> Reading.times n (readingEntry blank) :=
  readingInto_eq_putAll blank n m []

variable {blank : UInt16 → Except DecodeError α}

/-- Layer and kind take 4 bytes, even if the header takes none. -/
theorem costs_readingEntry : (readingEntry blank).Costs fun _ => 4 :=
  Reading.costs_u16.bind fun _ => Reading.costs_u16.bind fun _ => Reading.costs_nothing _

theorem costs_readingInto (n : Nat) (m : HeaderMap α) :
    (readingInto blank n m).Costs fun found => 4 * found.size - 4 * m.size := by
  rw [readingInto_eq_times]
  refine (costs_readingEntry.times n).map fun entries => ?_
  have hgrown : (m.putAll entries).size ≤ m.size + entries.length :=
    m.length_entries_putAll_le entries
  have hpaid : (entries.map fun _ => 4).sum = entries.length * 4 := by
    rw [List.map_const', List.sum_replicate_nat]
  omega

theorem costs_reading : (reading blank).Costs fun m => 4 + 4 * m.size :=
  Reading.costs_u32.bind fun count =>
    (costs_readingInto count.toNat empty).mono fun m => by
      have hnone : (empty : HeaderMap α).size = 0 := rfl
      omega

end HeaderMap

/-! ## Messages -/

variable {D : Dialect}

mutual

/-- A message and the messages that lie in it through composites. -/
def Message.units : Message D → List (Message D)
  | .mk e body => .mk e body :: body.units

/-- The messages that lie in a body through composites. -/
def Body.units : Body D → List (Message D)
  | .composite children => unitsOf children
  | _ => []

/-- `Message.units` of each message. -/
def unitsOf : List (Message D) → List (Message D)
  | [] => []
  | m :: ms => m.units ++ unitsOf ms

end

/-- How many headers some messages carry. -/
def headersOf (ms : List (Message D)) : Nat :=
  (ms.map fun m => m.envelope.headers.size).sum

/-- Bytes without which some messages cannot be told: each has a kind, two fields of flags, two
marks for addresses and the number of its headers, and a header has a layer and a kind. -/
def leastSize (ms : List (Message D)) : Nat :=
  10 * ms.length + 4 * headersOf ms

theorem leastSize_cons (m : Message D) (ms : List (Message D)) :
    leastSize (m :: ms) = 10 + 4 * m.envelope.headers.size + leastSize ms := by
  simp only [leastSize, headersOf, List.length_cons, List.map_cons, List.sum_cons]
  omega

theorem leastSize_append (ms others : List (Message D)) :
    leastSize (ms ++ others) = leastSize ms + leastSize others := by
  simp only [leastSize, headersOf, List.length_append, List.map_append, List.sum_append]
  omega

theorem leastSize_unitsOf (ms : List (Message D)) :
    leastSize (unitsOf ms) = (ms.map fun m => leastSize m.units).sum := by
  induction ms with
  | nil => rfl
  | cons m ms ih => rw [unitsOf, leastSize_append, ih, List.map_cons, List.sum_cons]

theorem Message.ten_le_leastSize_units (m : Message D) : 10 ≤ leastSize m.units := by
  cases m with
  | mk e body =>
    rw [units, leastSize_cons]
    omega

theorem Address.costs_reading : Address.reading.Costs fun _ => 1 :=
  Reading.costs_flag.bind fun _ => Reading.costs_nothing _

variable {r : Registry D}

theorem Envelope.costs_reading : (reading r).Costs fun e => 9 + 4 * e.headers.size := by
  refine (Reading.costs_natural 2).bind fun flags => (Reading.costs_natural 1).bind fun transient =>
    Address.costs_reading.bind fun dest => Address.costs_reading.bind fun src =>
      HeaderMap.costs_reading.bind fun headers => Reading.costs_done ?_
  simp only
  omega

/-- A composite costs what its children do. No other body has messages that count. -/
theorem Body.costs_refill {message : (levels : Nat) → Reading (Message D)}
    (hmessage : ∀ levels, (message levels).Costs fun m => leastSize m.units) (levels : Nat)
    (b : Body D) : (b.refill r message levels).Costs fun found => leastSize found.units := by
  cases b with
  | composite children =>
    cases levels with
    | zero => exact Reading.costs_fail tooDeep
    | succ levels =>
      -- The number of children may be free: whatever it says, each of them pays for itself.
      refine (Reading.costs_nothing Reading.length).bind fun count =>
        ((hmessage levels).times count).bind fun found => Reading.costs_done ?_
      rw [units, leastSize_unitsOf, Nat.sub_zero, Nat.sub_self]
  | empty => exact Reading.costs_done rfl
  | bytes view => exact (Reading.costs_nothing _).bind fun _ => Reading.costs_done rfl
  | buffer view direct =>
    refine (Reading.costs_nothing View.readingBuffer).bind fun found => ?_
    cases found <;> exact Reading.costs_done rfl
  | directBuffer view heap =>
    refine (Reading.costs_nothing View.readingBuffer).bind fun found => ?_
    cases found <;> exact Reading.costs_done rfl
  | object held =>
    refine (Reading.costs_nothing Reading.flag).bind fun present => ?_
    cases present with
    | false => exact Reading.costs_done rfl
    | true => exact (Reading.costs_nothing _).bind fun _ => Reading.costs_done rfl
  | serializable parcel => exact (Reading.costs_nothing _).bind fun _ => Reading.costs_done rfl
  | excerpt whole window => exact (Reading.costs_nothing _).bind fun _ => Reading.costs_done rfl
  | received view => exact (Reading.costs_nothing _).bind fun _ => Reading.costs_done rfl
  | custom s held => exact (Reading.costs_nothing _).bind fun _ => Reading.costs_done rfl

/-- Induction on the fuel: a message pays for itself, and its body for what lies in it. -/
theorem Message.costs_reading (r : Registry D) (fuel levels : Nat) :
    (reading r fuel levels).Costs fun m => leastSize m.units := by
  induction fuel generalizing levels with
  | zero => exact Reading.costs_fail _
  | succ fuel ih =>
    refine Reading.costs_u8.bind fun kind => Reading.costs_ofExcept_bind fun blank _ =>
      Envelope.costs_reading.bind fun e =>
        (Body.costs_refill ih levels blank).bind fun body => Reading.costs_done ?_
    simp only [units, leastSize_cons, envelope]
    omega

/-! ## Payloads -/

theorem Payload.costs_readingWithin {π : Type} [CustomPayload π] (s : PayloadRegistry π)
    (levels : Nat) : (readingWithin s levels).Costs fun _ => 1 := by
  cases levels <;> exact Reading.costs_u8.bind fun _ => Reading.costs_nothing _

/-! ## Work -/

/-- Whatever counts an input announces, and whatever the registries, bytes bound the turns in which
headers, messages in composites and payloads in composites are read: each that is completed takes 4,
10 or 1 of them, and the last is the one that completes the count or fails. A message that was read
has taken 10 bytes for each message in it, itself included, and 4 for each of their headers. -/
theorem announced_counts_paid {π : Type} [CustomPayload π] (r : Registry D)
    (s : PayloadRegistry π) :
    (∀ n m, HeaderMap.readingInto r.header n m
      = m.putAll <$> Reading.times n (HeaderMap.readingEntry r.header)) ∧
    (∀ n w, (HeaderMap.readingEntry r.header).PaidTurns 4 n w) ∧
    (∀ fuel levels n w, (Message.reading r fuel levels).PaidTurns 10 n w) ∧
    (∀ levels n w, (Payload.readingWithin s levels).PaidTurns 1 n w) ∧
    ∀ (w rest : Bytes) m, Message.read r w = (.ok m, rest) →
      10 * m.units.length + 4 * headersOf m.units + rest.length ≤ w.length := by
  refine ⟨HeaderMap.readingInto_eq_times r.header, ?_, ?_, ?_, ?_⟩
  · exact HeaderMap.costs_readingEntry.paidTurns (by decide)
  · intro fuel levels
    have hcosts := (Message.costs_reading r fuel levels).mono Message.ten_le_leastSize_units
    exact hcosts.paidTurns (by decide)
  · intro levels
    exact (Payload.costs_readingWithin s levels).paidTurns (by decide)
  · intro w rest m hread
    exact Message.costs_reading r _ _ hread

namespace Catalogue

/-- A composite of two empty messages, of which the second has a header, and a byte after it. -/
def pairInput : Bytes :=
  [4, 0, 0, 0, 0, 0, 0, 0, 0, 0, 0, 0, 0, 2,
    2, 0, 0, 0, 0, 0, 0, 0, 0, 0,
    2, 0, 0, 0, 0, 0, 0, 0, 0, 1, 0, 7, 3, 233, 0, 0, 0, 1, 9]

/-- Of as many headers as can be announced, no more than three are begun in 8 bytes. In the input of
two empty messages the three messages and the header leave room for 8 bytes more. -/
theorem announced_counts_paid_pair :
    ((HeaderMap.readingEntry registry.header).turns (UInt32.size - 1)
      [0, 7, 3, 233, 0, 0, 0, 1]).length ≤ 3 ∧
    ∃ m, Message.read registry pairInput = (.ok m, [9]) ∧ m.units.length = 3 ∧
      headersOf m.units = 1 ∧ 10 * 3 + 4 * 1 + 1 ≤ pairInput.length := by
  obtain ⟨-, hheaders, -, -, hread⟩ := announced_counts_paid registry payloadRegistry
  refine ⟨(hheaders _ _).length_le, ?_⟩
  obtain ⟨m, hm, hunits, hcarried⟩ : ∃ m, Message.read registry pairInput = (.ok m, [9]) ∧
      m.units.length = 3 ∧ headersOf m.units = 1 := ⟨_, rfl, rfl, rfl⟩
  have hpaid := hread pairInput [9] m hm
  rw [hunits, hcarried] at hpaid
  exact ⟨m, hm, hunits, hcarried, hpaid⟩

end Catalogue

end Groupcast
