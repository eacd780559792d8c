import Groupcast.Error
import Groupcast.Fault

/-!
# Tallies

Sizes are added up in 64-bit words. A tally is such a computation: the numbers that it adds and the
order in which it adds them, up to a refusal if there is one. What becomes of a sum that is no word
depends on how a program is built.
-/

namespace Groupcast

/-- A computation that adds up numbers, from left to right. -/
inductive Tally where
  | number (n : Nat)
  | sum (a b : Tally)
  | refuse (error : EncodeError)

namespace Tally

instance : Add Tally := ⟨sum⟩

instance (n : Nat) : OfNat Tally n := ⟨number n⟩

/-- The result if numbers had no bound. -/
def value : Tally → Except EncodeError Nat
  | number n => .ok n
  | refuse error => .error error
  | sum a b =>
    match a.value with
    | .error error => .error error
    | .ok x => b.value.map (x + ·)

/-- The result in words. -/
def run (build : Build) : Tally → Except Fault (Except EncodeError Nat)
  | number n => (build.word n).map .ok
  | refuse error => .ok (.error error)
  | sum a b =>
    match a.run build with
    | .ok (.ok x) =>
      match b.run build with
      | .ok (.ok y) => (build.word (x + y)).map .ok
      | stopped => stopped
    | stopped => stopped

end Tally

end Groupcast
