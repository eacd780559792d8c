import Groupcast.Nesting
import Groupcast.Registry

/-!
# Reading messages

A message is read by its kind: the registry gives a blank body, and after the envelope the body is
refilled. Composites nest at most `maxNesting` deep; a body of the application that holds messages
starts counting again.

The recursion is bounded by `fuel`. Every message takes at least its kind byte, so as many units of
fuel as there are bytes always suffice, and with none left the outcome is that of empty input.
-/

namespace Groupcast

variable {D : Dialect}

namespace View

/-- A view behind its length, or none for the length -1. -/
def readingOptional : Reading (Option View) := do
  match ← Reading.optionalLength with
  | none => return none
  | some n => return some (whole (← Reading.bytes n))

/-- A buffer body: its wish about memory and its bytes, or none for the length -1. -/
def readingBuffer : Reading (Option (Bool × View)) := do
  match ← Reading.optionalLength with
  | none => return none
  | some n =>
    let wish ← Reading.flag
    return some (wish, whole (← Reading.bytes n))

end View

/-- An object behind its kind. -/
def Record.reading (r : Registry D) : Reading (Record D) := do
  let kind ← Reading.u16
  let blank ← Reading.ofExcept (r.object kind)
  Streamable.refill blank

/-- A parcel. -/
def Parcel.reading (r : Registry D) : Reading (Option (Parcel D)) := do
  if ← Reading.flag then
    return some (.record (← Record.reading r))
  else
    match ← Reading.optionalLength with
    | none => return none
    | some n => return some (.packed (← Reading.bytes n))

def Envelope.reading (r : Registry D) : Reading (Envelope D) := do
  let flags ← Reading.natural 2
  let transient ← Reading.natural 1
  let dest ← Address.reading
  let src ← Address.reading
  let headers ← HeaderMap.reading r.header
  return ⟨dest, src, FlagSet.ofNat flags, FlagSet.ofNat transient, headers⟩

/-- Refills a body in which composites may nest `levels` deep, given the reading of a message that
lies in it. A buffer or object body that finds no payload stays as it is. -/
def Body.refill (r : Registry D) (message : (levels : Nat) → Reading (Message D)) (levels : Nat) :
    Body D → Reading (Body D)
  | .empty => return .empty
  | .bytes _ => return .bytes (← View.readingOptional)
  | .buffer view direct => do
    match ← View.readingBuffer with
    | none => return .buffer view direct
    | some (direct, view) => return .buffer (some view) direct
  | .directBuffer view heap => do
    match ← View.readingBuffer with
    | none => return .directBuffer view heap
    | some (heap, view) => return .directBuffer (some view) heap
  | .composite _ =>
    match levels with
    | 0 => .fail tooDeep
    | levels + 1 => do
      let count ← Reading.length
      return .composite (← Reading.times count (message levels))
  | .object held => do
    if ← Reading.flag then return .object (some (← Record.reading r)) else return .object held
  | .serializable _ => return .serializable (← Parcel.reading r)
  | .excerpt _ _ => return .received ((← View.readingOptional).getD View.empty)
  | .received _ => return .received ((← View.readingOptional).getD View.empty)
  | .custom s _ => do
    let (s, held) ← (CustomBody.refill s).reading (message maxNesting)
    return .custom s held

namespace Message

/-- A message whose kind has been read and in which composites may nest `levels` deep, given the
reading of a message that lies in it. -/
def readingOfKind (r : Registry D) (message : (levels : Nat) → Reading (Message D)) (kind : UInt8)
    (levels : Nat) : Reading (Message D) := do
  let blank ← Reading.ofExcept (r.body kind)
  let envelope ← Envelope.reading r
  return mk envelope (← blank.refill r message levels)

/-- A message in which composites may nest `levels` deep. -/
def reading (r : Registry D) : (fuel levels : Nat) → Reading (Message D)
  | 0, _ => .fail (.truncated 1 0)
  | fuel + 1, levels => do
    let kind ← Reading.u8
    readingOfKind r (reading r fuel) kind levels

/-- Reads one message from a source. -/
def read [Source σ] (r : Registry D) (source : σ) : Except DecodeError (Message D) × σ :=
  (reading r (Source.available source) maxNesting).run source

/-- Reads a message whose kind is known. -/
def readOfKind [Source σ] (r : Registry D) (kind : UInt8) (source : σ) :
    Except DecodeError (Message D) × σ :=
  (readingOfKind r (reading r (Source.available source)) kind maxNesting).run source

/-- Reads the one message that a source holds. -/
def readExactly [Source σ] (r : Registry D) (source : σ) : Except DecodeError (Message D) :=
  (reading r (Source.available source) maxNesting).runExactly source

/-- The message that a byte string encodes. -/
def decode (r : Registry D) (bytes : Bytes) : Except DecodeError (Message D) :=
  readExactly r bytes

/-- Reads at most `limit` messages from a source, until it is empty or a message cannot be read.
Each outcome comes with the number of bytes left after it. -/
def readUpTo [Source σ] (r : Registry D) :
    (limit : Nat) → σ → List (Except DecodeError (Message D) × Nat)
  | 0, _ => []
  | limit + 1, source =>
    if Source.available source = 0 then []
    else
      match read r source with
      | (.error error, rest) => [(.error error, Source.available rest)]
      | (.ok m, rest) => (.ok m, Source.available rest) :: readUpTo r limit rest

/-- Reads all messages of a source. Every message takes at least a byte, so there are no more of
them than bytes. -/
def readAll [Source σ] (r : Registry D) (source : σ) :
    List (Except DecodeError (Message D) × Nat) :=
  readUpTo r (Source.available source) source

end Message

/-- Refills a body from a source. A body that cannot be refilled stays as it was. -/
def Body.read [Source σ] (r : Registry D) (b : Body D) (source : σ) :
    Except DecodeError Unit × Body D × σ :=
  match (b.refill r (Message.reading r (Source.available source)) maxNesting).run source with
  | (.ok b, rest) => (.ok (), b, rest)
  | (.error error, rest) => (.error error, b, rest)

end Groupcast
