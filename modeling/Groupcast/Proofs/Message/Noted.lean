import Groupcast.Proofs.Reading.Spelling
import Groupcast.Proofs.Message.Congruence

/-!
# A reader that takes notes

A message does not tell everything about the bytes that it was read from: of the headers of one
layer in a block only the last is left, and a window of no bytes may have come without a length.
`Message.readingNoted` gets the messages that `Message.reading` gets, and notes these things down,
for the message and for all that lie in it.
-/

namespace Groupcast

variable {D : Dialect}

/-- What is noted of an input. -/
inductive Note where
  /-- The layers of a block of headers, in the order in which they came. -/
  | layers (ids : List HeaderId)
  /-- The length of the window that a fragment holds, unless it came without. -/
  | window (length : Option Nat)
deriving DecidableEq, Repr

/-! ## The reader -/

namespace HeaderMap

variable {α : Type}

/-- A map with more headers put into it, one after the other. -/
def putAll (m : HeaderMap α) (entries : List (HeaderId × α)) : HeaderMap α :=
  entries.foldl (fun m entry => m.put entry.1 entry.2) m

/-- Reads `n` headers in a row, each with its layer, given the blank header of each kind. -/
def readingEntries [Streamable α] (blank : UInt16 → Except DecodeError α) :
    Nat → Reading (List (HeaderId × α))
  | 0 => pure []
  | n + 1 => do
    let id ← Reading.u16
    let kind ← Reading.u16
    let header ← Reading.ofExcept (blank kind)
    let header ← Streamable.refill header
    let others ← readingEntries blank n
    return (id, header) :: others

/-- Reads a map, and notes the layers that its headers had. -/
def readingNoted [Streamable α] (blank : UInt16 → Except DecodeError α) :
    Reading (HeaderMap α × List Note) := do
  let count ← Reading.u32
  let entries ← readingEntries blank count.toNat
  return (ofList entries, [.layers (entries.map Prod.fst)])

end HeaderMap

/-- Reads an envelope, and notes the layers of its headers. -/
def Envelope.readingNoted (r : Registry D) : Reading (Envelope D × List Note) := do
  let flags ← Reading.natural 2
  let transient ← Reading.natural 1
  let dest ← Address.reading
  let src ← Address.reading
  let (headers, notes) ← HeaderMap.readingNoted r.header
  return (⟨dest, src, FlagSet.ofNat flags, FlagSet.ofNat transient, headers⟩, notes)

/-- Refills a body, and notes the length of a window and what is noted of messages in the body. -/
def Body.refillNoted (r : Registry D) (message : (levels : Nat) → Reading (Message D × List Note))
    (levels : Nat) : Body D → Reading (Body D × List Note)
  | .composite _ =>
    match levels with
    | 0 => .fail tooDeep
    | levels + 1 => do
      let count ← Reading.length
      let found ← Reading.times count (message levels)
      return (.composite (found.map Prod.fst), found.flatMap Prod.snd)
  | .received _ => do
    let view ← View.readingOptional
    return (.received (view.getD View.empty), [.window (view.map View.length)])
  | .custom s _ => do
    let (s, found) ← (CustomBody.refill s).reading (message maxNesting)
    return (.custom s (found.map Prod.fst), found.flatMap Prod.snd)
  | b => do return (← b.refill r (fun levels => Prod.fst <$> message levels) levels, [])

/-- Reads a message in which composites may nest `levels` deep, and takes notes. -/
def Message.readingNoted (r : Registry D) :
    (fuel levels : Nat) → Reading (Message D × List Note)
  | 0, _ => .fail (.truncated 1 0)
  | fuel + 1, levels => do
    let kind ← Reading.u8
    let blank ← Reading.ofExcept (r.body kind)
    let (envelope, notes) ← Envelope.readingNoted r
    let (body, more) ← blank.refillNoted r (readingNoted r fuel) levels
    return (mk envelope body, notes ++ more)

/-- What is noted of an input from which a message is read. -/
def Message.notes (r : Registry D) (source : Bytes) : List Note :=
  match ((readingNoted r source.length maxNesting).run source).1 with
  | .ok found => found.2
  | .error _ => []

/-! ## Notes change nothing -/

section HeaderMap

variable {α : Type} [Streamable α] (blank : UInt16 → Except DecodeError α)

/-- The headers may be read first and put into the map afterwards. Induction on their number. -/
theorem HeaderMap.readingInto_eq (n : Nat) (m : HeaderMap α) :
    readingInto blank n m = m.putAll <$> readingEntries blank n := by
  induction n generalizing m with
  | zero => rfl
  | succ n ih =>
    simp only [readingInto, readingEntries, map_bind, ih, map_pure]
    rfl

theorem HeaderMap.map_fst_readingNoted :
    Prod.fst <$> readingNoted blank = reading blank := by
  simp only [readingNoted, reading, readingInto_eq, map_bind, map_pure]
  rfl

end HeaderMap

theorem Envelope.map_fst_readingNoted (r : Registry D) :
    Prod.fst <$> readingNoted r = reading r := by
  simp only [readingNoted, reading, ← HeaderMap.map_fst_readingNoted, map_bind, map_pure,
    bind_map_left]

/-- Values may be changed while they are read or afterwards. -/
theorem Reading.map_repeated {α β : Type} (f : α → β) (a : Reading α) (n : Nat) (before : List α) :
    List.map f <$> a.repeated n before = (f <$> a).repeated n (before.map f) := by
  induction n generalizing before with
  | zero =>
    show done (before.reverse.map f) = done (before.map f).reverse
    rw [List.map_reverse]
  | succ n ih =>
    show List.map f <$> (a >>= fun value => a.repeated n (value :: before))
      = (f <$> a) >>= fun value => (f <$> a).repeated n (value :: before.map f)
    simp only [map_bind, bind_map_left, ih, List.map_cons]

/-- The messages held may be changed while they are read or afterwards: a script does not look at
them. -/
theorem BodyScript.map_readingFrom {σ μ ν : Type} (f : μ → ν) (message : Reading μ)
    (script : BodyScript σ) (held : List μ) :
    Prod.map id (List.map f) <$> script.readingFrom message held
      = script.readingFrom (f <$> message) (held.map f) := by
  induction script generalizing held with
  | done state =>
    show Reading.done (state, held.reverse.map f) = Reading.done (state, (held.map f).reverse)
    rw [List.map_reverse]
  | fail error => rfl
  | take how count next ih =>
    exact congrArg (Reading.take how count) (funext fun bytes => ih bytes held)
  | ask next ih => exact congrArg Reading.ask (funext fun left => ih left held)
  | message next ih =>
    show Prod.map id (List.map f) <$> (message >>= fun m => next.readingFrom message (m :: held))
      = (f <$> message) >>= fun m => next.readingFrom (f <$> message) (m :: held.map f)
    simp only [map_bind, bind_map_left, ih, List.map_cons]

/-- One case for each kind of body that is noted, and one for the others. -/
theorem Body.map_fst_refillNoted (r : Registry D)
    (message : (levels : Nat) → Reading (Message D × List Note)) (levels : Nat) (b : Body D) :
    Prod.fst <$> b.refillNoted r message levels
      = b.refill r (fun levels => Prod.fst <$> message levels) levels := by
  cases b with
  | composite children =>
    cases levels with
    | zero => rfl
    | succ levels =>
      have htimes : ∀ count, List.map Prod.fst <$> Reading.times count (message levels)
          = Reading.times count (Prod.fst <$> message levels) :=
        fun count => Reading.map_repeated Prod.fst (message levels) count []
      simp only [refillNoted, refill, map_bind, map_pure, ← htimes, bind_map_left]
  | received view => simp only [refillNoted, refill, map_bind, map_pure]
  | custom s held =>
    have hscript : (CustomBody.refill s).reading (Prod.fst <$> message maxNesting)
        = Prod.map id (List.map Prod.fst) <$> (CustomBody.refill s).reading (message maxNesting) :=
      (BodyScript.map_readingFrom Prod.fst (message maxNesting) (CustomBody.refill s) []).symm
    simp only [refillNoted, refill, map_bind, map_pure, hscript, bind_map_left]
    rfl
  | _ => simp only [refillNoted, map_bind, map_pure, bind_pure]

/-- The reader that takes notes gets what the reader gets. Induction on the fuel. -/
theorem Message.map_fst_readingNoted (r : Registry D) (fuel levels : Nat) :
    Prod.fst <$> readingNoted r fuel levels = reading r fuel levels := by
  induction fuel generalizing levels with
  | zero => rfl
  | succ fuel ih =>
    have hmessage : (fun levels => Prod.fst <$> readingNoted r fuel levels) = reading r fuel :=
      funext ih
    simp only [readingNoted, reading, readingOfKind, map_bind, map_pure, ← hmessage,
      ← Envelope.map_fst_readingNoted, ← Body.map_fst_refillNoted, bind_map_left]

theorem Body.map_fst_refillNoted_readingNoted (r : Registry D) (fuel levels : Nat) (b : Body D) :
    Prod.fst <$> b.refillNoted r (Message.readingNoted r fuel) levels
      = b.refill r (Message.reading r fuel) levels := by
  rw [map_fst_refillNoted, funext (Message.map_fst_readingNoted r fuel)]

/-- What is read is noted. -/
theorem Message.run_readingNoted_of_read {r : Registry D} {source rest : Bytes} {m : Message D}
    (h : read r source = (.ok m, rest)) :
    (readingNoted r source.length maxNesting).run source = (.ok (m, notes r source), rest) := by
  have hread : (reading r source.length maxNesting).run source = (.ok m, rest) := h
  rw [← map_fst_readingNoted] at hread
  rcases Reading.run_map_eq_ok.mp hread with ⟨⟨m', noted⟩, hnoted, rfl⟩
  rw [notes, hnoted]

end Groupcast
