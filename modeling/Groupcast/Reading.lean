import Groupcast.Error
import Groupcast.Octets

/-!
# Readings

A reading is a program that takes bytes from the front of an input, a fixed number at a time, and
ends with a value or an error. It never looks ahead. It may ask how many bytes are left, which
values of an application are free to do; nothing in this library does.

`Reading.run` runs a reading on a source. A request for more bytes than the source holds ends the
reading with `DecodeError.truncated`, and takes nothing itself.
-/

namespace Groupcast

/-- How bytes leave a source: copied into room that the reader has ready, or handed over as a
buffer, which a source may do without copying. -/
inductive Transfer where
  | copied
  | handed
deriving DecidableEq, Repr

/-- A program that reads a value from the front of an input. -/
inductive Reading (α : Type) where
  | done (value : α)
  | fail (error : DecodeError)
  /-- Takes the next `count` bytes and goes on with them. -/
  | take (how : Transfer) (count : Nat) (next : Bytes → Reading α)
  /-- Asks how many bytes are left. -/
  | ask (next : Nat → Reading α)

/-- Something that bytes can be taken from. -/
class Source (σ : Type) where
  /-- Bytes left. -/
  available : σ → Nat
  /-- The next `count` bytes and what is left after them, when there are that many. -/
  split? : (how : Transfer) → (count : Nat) → σ → Option (Bytes × σ)

instance : Source Bytes where
  available := List.length
  split? _ := Bytes.split?

namespace Reading

/-- Reads a value and goes on with it. -/
def bind : Reading α → (α → Reading β) → Reading β
  | done value, next => next value
  | fail error, _ => fail error
  | take how count rest, next => take how count fun bytes => (rest bytes).bind next
  | ask rest, next => ask fun left => (rest left).bind next

instance : Monad Reading where
  pure := done
  bind := bind

/-- A value or error that needs no input. -/
def ofExcept : Except DecodeError α → Reading α
  | .ok value => done value
  | .error error => fail error

/-- The outcome of a reading, and the source as it is left. -/
def run [Source σ] : Reading α → σ → Except DecodeError α × σ
  | done value, source => (.ok value, source)
  | fail error, source => (.error error, source)
  | take how count next, source =>
    match Source.split? how count source with
    | some (bytes, rest) => (next bytes).run rest
    | none => (.error (.truncated count (Source.available source)), source)
  | ask next, source => (next (Source.available source)).run source

/-- Reads one value and refuses input after it. -/
def runExactly [Source σ] (reading : Reading α) (source : σ) : Except DecodeError α :=
  match reading.run source with
  | (.error error, _) => .error error
  | (.ok value, rest) =>
    match Source.available rest with
    | 0 => .ok value
    | remaining => .error (.trailingBytes remaining)

/-- Reads a value `n` times, given the values read before in reverse. -/
def repeated (reading : Reading α) : Nat → List α → Reading (List α)
  | 0, before => done before.reverse
  | n + 1, before => reading.bind fun value => repeated reading n (value :: before)

/-- Reads `n` values in order. -/
def times (n : Nat) (reading : Reading α) : Reading (List α) :=
  reading.repeated n []

/-! ## Fields -/

/-- The next `n` bytes, as a buffer. -/
def bytes (n : Nat) : Reading Bytes :=
  take .handed n done

/-- The next `n` bytes, copied. -/
def exact (n : Nat) : Reading Bytes :=
  take .copied n done

/-- A number of `width` bytes. -/
def natural (width : Nat) : Reading Nat :=
  Bytes.ofBigEndian <$> exact width

def u8 : Reading UInt8 := UInt8.ofNat <$> natural 1

def u16 : Reading UInt16 := UInt16.ofNat <$> natural 2

def u32 : Reading UInt32 := UInt32.ofNat <$> natural 4

def u64 : Reading UInt64 := UInt64.ofNat <$> natural 8

def i32 : Reading Int32 := Int32.ofNat <$> natural 4

/-- A byte as a truth value; every byte but 0 is true. -/
def flag : Reading Bool := (· != 0) <$> u8

/-- A length, which must not be negative. -/
def length : Reading Nat := do
  let n ← i32
  if 0 ≤ n then return n.toInt.toNat else fail (.invalidLength n.toInt)

/-- A length, or none if the field holds -1. -/
def optionalLength : Reading (Option Nat) := do
  let n ← i32
  if n = -1 then return none
  else if 0 ≤ n then return some n.toInt.toNat
  else fail (.invalidLength n.toInt)

/-! ## Laws -/

@[simp] theorem pure_eq_done (value : α) : (pure value : Reading α) = done value := rfl

@[simp] theorem bind_eq_bind (reading : Reading α) (next : α → Reading β) :
    reading >>= next = reading.bind next := rfl

@[simp] theorem done_bind (value : α) (next : α → Reading β) :
    (done value).bind next = next value := rfl

@[simp] theorem fail_bind (error : DecodeError) (next : α → Reading β) :
    (fail error).bind next = fail error := rfl

@[simp] theorem bind_done (reading : Reading α) : reading.bind done = reading := by
  induction reading with
  | done value => rfl
  | fail error => rfl
  | take how count next ih => simp [bind, ih]
  | ask next ih => simp [bind, ih]

theorem bind_assoc (reading : Reading α) (f : α → Reading β) (g : β → Reading γ) :
    (reading.bind f).bind g = reading.bind fun value => (f value).bind g := by
  induction reading with
  | done value => rfl
  | fail error => rfl
  | take how count next ih => simp [bind, ih]
  | ask next ih => simp [bind, ih]

instance : LawfulMonad Reading :=
  LawfulMonad.mk' Reading bind_done (fun _ _ => rfl) bind_assoc

/-- Running two readings in a row runs the second on what the first leaves. -/
theorem run_bind [Source σ] (reading : Reading α) (next : α → Reading β) (source : σ) :
    (reading.bind next).run source =
      match reading.run source with
      | (.ok value, rest) => (next value).run rest
      | (.error error, rest) => (.error error, rest) := by
  induction reading generalizing source with
  | done value => rfl
  | fail error => rfl
  | take how count rest ih =>
    simp only [bind, run]
    cases Source.split? how count source with
    | none => rfl
    | some taken => exact ih taken.1 taken.2
  | ask rest ih => exact ih (Source.available source) source

end Reading

end Groupcast
