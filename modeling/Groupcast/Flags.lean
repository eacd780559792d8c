/-!
# Flags

Two sets of flags travel with a message: the lasting ones, which receivers act on, and the
transient ones, which only the process that raised them acts on. A set is kept as its bits, so bits
that stand for no known flag are kept too.
-/

namespace Groupcast

/-- A kind of flag, each of which occupies one bit of a set. -/
class FlagKind (φ : Type) where
  /-- Bits of a set. -/
  width : Nat
  /-- The position of a flag's bit. -/
  position : φ → Nat
  /-- Every flag, lowest bit first. -/
  all : List φ
  name : φ → String

/-- A set of flags, as its bits. -/
structure FlagSet (φ : Type) [FlagKind φ] where
  bits : BitVec (FlagKind.width φ)

namespace FlagSet

variable {φ : Type} [FlagKind φ]

/-- The bit of one flag. -/
def bit (flag : φ) : BitVec (FlagKind.width φ) :=
  1#(FlagKind.width φ) <<< FlagKind.position flag

def empty : FlagSet φ := ⟨0⟩

def ofNat (bits : Nat) : FlagSet φ := ⟨BitVec.ofNat _ bits⟩

def toNat (s : FlagSet φ) : Nat := s.bits.toNat

def contains (s : FlagSet φ) (flag : φ) : Bool :=
  s.bits &&& bit flag != 0

def insert (s : FlagSet φ) (flag : φ) : FlagSet φ :=
  ⟨s.bits ||| bit flag⟩

def erase (s : FlagSet φ) (flag : φ) : FlagSet φ :=
  ⟨s.bits &&& ~~~bit flag⟩

def ofList (flags : List φ) : FlagSet φ :=
  flags.foldl insert empty

/-- The known flags in the set, lowest bit first. -/
def toList (s : FlagSet φ) : List φ :=
  (FlagKind.all).filter s.contains

end FlagSet

/-- Flags that receivers act on. -/
inductive Flag where
  /-- Deliver out of band, past any ordering. -/
  | outOfBand
  /-- Send at once and not in a bundle. -/
  | dontBundle
  | noFlowControl
  | noReliability
  | noTotalOrder
  /-- Do not pass on between sites. -/
  | noRelay
  /-- Hold the sender until every receiver has answered. -/
  | rsvp
  /-- Ask for answers without holding the sender. -/
  | rsvpNonBlocking
  /-- Deliver even while a barrier is closed. -/
  | skipBarrier
deriving DecidableEq, Repr

instance : FlagKind Flag where
  width := 16
  position
    | .outOfBand => 0
    | .dontBundle => 1
    | .noFlowControl => 2
    | .noReliability => 4
    | .noTotalOrder => 5
    | .noRelay => 6
    | .rsvp => 7
    | .rsvpNonBlocking => 8
    | .skipBarrier => 10
  all := [.outOfBand, .dontBundle, .noFlowControl, .noReliability, .noTotalOrder, .noRelay, .rsvp,
    .rsvpNonBlocking, .skipBarrier]
  name
    | .outOfBand => "Oob"
    | .dontBundle => "DontBundle"
    | .noFlowControl => "NoFc"
    | .noReliability => "NoReliability"
    | .noTotalOrder => "NoTotalOrder"
    | .noRelay => "NoRelay"
    | .rsvp => "Rsvp"
    | .rsvpNonBlocking => "RsvpNonBlocking"
    | .skipBarrier => "SkipBarrier"

/-- Flags that matter only to the process that raised them. -/
inductive TransientFlag where
  /-- The message has been delivered here, out of band. -/
  | outOfBandDelivered
  /-- Do not hand a copy back to the sender. -/
  | dontLoopback
deriving DecidableEq, Repr

instance : FlagKind TransientFlag where
  width := 8
  position
    | .outOfBandDelivered => 0
    | .dontLoopback => 1
  all := [.outOfBandDelivered, .dontLoopback]
  name
    | .outOfBandDelivered => "OobDelivered"
    | .dontLoopback => "DontLoopback"

abbrev Flags := FlagSet Flag

abbrev TransientFlags := FlagSet TransientFlag

end Groupcast
