import Groupcast.Reading

/-!
# Fillings

A filling is a program that reads, and changes a value in place as it goes. What it has changed
stays changed when a later read fails. A filling that is run on a value of its own is a reading of
that value: if it fails, the value is lost, and its changes with it.
-/

namespace Groupcast

/-- A program that reads bytes and changes a value in place. -/
inductive Filling (α β : Type) where
  | done (result : β)
  | fail (error : DecodeError)
  /-- Takes the next `count` bytes and goes on with them. -/
  | take (how : Transfer) (count : Nat) (next : Bytes → Filling α β)
  /-- Asks how many bytes are left. -/
  | ask (next : Nat → Filling α β)
  /-- Changes the value and goes on. -/
  | change (f : α → α) (next : Filling α β)

namespace Filling

def bind : Filling α β → (β → Filling α γ) → Filling α γ
  | done result, next => next result
  | fail error, _ => fail error
  | take how count rest, next => take how count fun bytes => (rest bytes).bind next
  | ask rest, next => ask fun left => (rest left).bind next
  | change f rest, next => change f (rest.bind next)

instance : Monad (Filling α) where
  pure := done
  bind := bind

/-- Reads without changing anything. -/
def ofReading : Reading β → Filling α β
  | .done value => done value
  | .fail error => fail error
  | .take how count next => take how count fun bytes => ofReading (next bytes)
  | .ask next => ask fun left => ofReading (next left)

instance : MonadLift Reading (Filling α) where
  monadLift := ofReading

/-- Changes the value. -/
def modify (f : α → α) : Filling α Unit :=
  change f (done ())

/-- Puts another value in the place of the value. -/
def assign (a : α) : Filling α Unit :=
  modify fun _ => a

/-- The outcome of a filling, and the value and the source as they are left. -/
def run [Source σ] : Filling α β → α → σ → Except DecodeError β × α × σ
  | done result, a, source => (.ok result, a, source)
  | fail error, a, source => (.error error, a, source)
  | take how count next, a, source =>
    match Source.split? how count source with
    | some (bytes, rest) => (next bytes).run a rest
    | none => (.error (.truncated count (Source.available source)), a, source)
  | ask next, a, source => (next (Source.available source)).run a source
  | change f next, a, source => next.run (f a) source

/-- The reading of a value that starts as `a` and is filled. -/
def readingFrom : Filling α Unit → α → Reading α
  | done _, a => .done a
  | fail error, _ => .fail error
  | take how count next, a => .take how count fun bytes => (next bytes).readingFrom a
  | ask next, a => .ask fun left => (next left).readingFrom a
  | change f next, a => next.readingFrom (f a)

end Filling

end Groupcast
