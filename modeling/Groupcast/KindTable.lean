import Groupcast.Error

/-!
# Kind tables

A reader finds a blank value by the kind that it reads. A kind table holds such blanks; a kind in
use is never given away. Putting a blank in a table gives what came of it and the table afterwards.
-/

namespace Groupcast

/-- Blank values by kind, in order of registration. -/
structure KindTable (κ α : Type) where
  entries : List (κ × α)

/-- The last kind kept back for built-in bodies and payloads. -/
def reservedKind : UInt8 := 32

namespace KindTable

variable {κ α : Type} [BEq κ]

def empty : KindTable κ α := ⟨[]⟩

def size (t : KindTable κ α) : Nat := t.entries.length

def get? (t : KindTable κ α) (kind : κ) : Option α :=
  t.entries.lookup kind

def contains (t : KindTable κ α) (kind : κ) : Bool :=
  (t.get? kind).isSome

/-- Puts a blank value under a kind of the given number, unless the kind is in use. The table is known
by its name. -/
def insert (name : String) (number : Nat) (t : KindTable κ α) (kind : κ) (blank : α) :
    Except RegistryError Unit × KindTable κ α :=
  if t.contains kind then (.error (.taken name number), t)
  else (.ok (), ⟨t.entries ++ [(kind, blank)]⟩)

/-- Puts a blank value in a table where small kinds are kept back. -/
def insertAboveReserved (name : String) (t : KindTable UInt8 α) (kind : UInt8) (blank : α) :
    Except RegistryError Unit × KindTable UInt8 α :=
  if kind ≤ reservedKind then (.error (.reserved name kind.toNat reservedKind.toNat), t)
  else t.insert name kind.toNat kind blank

end KindTable

/-- What a registration leaves, unless it is refused. -/
def accepted (registered : Except RegistryError Unit × σ) : Except RegistryError σ :=
  registered.1.map fun () => registered.2

theorem eq_of_accepted {registered : Except RegistryError Unit × σ} {left : σ}
    (h : accepted registered = .ok left) : registered.2 = left := by
  rcases registered with ⟨error | ⟨⟩, state⟩
  · cases h
  · exact Except.ok.inj h

end Groupcast
