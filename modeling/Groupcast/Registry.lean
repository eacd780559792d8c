import Groupcast.KindTable
import Groupcast.Message.Basic

/-!
# Registries

A registry holds the blank values that readers of messages start from: bodies by message kind,
headers and objects by record kind. It starts with the built-in kinds; others are added once each.
-/

namespace Groupcast

/-- The blank values that readers start from. -/
structure Registry (D : Dialect) where
  messages : KindTable UInt8 (Body D)
  headers : KindTable UInt16 (Record D)
  objects : KindTable UInt16 (Record D)

namespace Registry

variable {D : Dialect}

/-- The registry of the built-in kinds. -/
def builtin : Registry D where
  messages := ⟨BodyKind.all.map fun kind => (kind.toByte, Body.blank kind)⟩
  headers := ⟨[(FragmentTag.kind, .tag .blank)]⟩
  objects := .empty

instance : Inhabited (Registry D) := ⟨builtin⟩

/-- Registers a body of the application, which starts without messages held. -/
def addMessage (r : Registry D) (kind : UInt8) (blank : D.Custom) :
    Except RegistryError Unit × Registry D :=
  let (outcome, messages) := r.messages.insertAboveReserved "message" kind (.custom blank [])
  (outcome, { r with messages })

/-- Registers a header. -/
def addHeader (r : Registry D) (kind : UInt16) (blank : Record D) :
    Except RegistryError Unit × Registry D :=
  let (outcome, headers) := r.headers.insert "header" kind.toNat kind blank
  (outcome, { r with headers })

/-- Registers an object. -/
def addObject (r : Registry D) (kind : UInt16) (blank : Record D) :
    Except RegistryError Unit × Registry D :=
  let (outcome, objects) := r.objects.insert "object" kind.toNat kind blank
  (outcome, { r with objects })

/-- The blank body of a message kind. -/
def body (r : Registry D) (kind : UInt8) : Except DecodeError (Body D) :=
  match r.messages.get? kind with
  | none => .error (.unknownMessageKind kind)
  | some blank => .ok blank

/-- The blank header of a kind. -/
def header (r : Registry D) (kind : UInt16) : Except DecodeError (Record D) :=
  match r.headers.get? kind with
  | none => .error (.unknownHeaderKind kind)
  | some blank => .ok blank

/-- The blank object of a kind. -/
def object (r : Registry D) (kind : UInt16) : Except DecodeError (Record D) :=
  match r.objects.get? kind with
  | none => .error (.unknownObjectKind kind)
  | some blank => .ok blank

/-- How many kinds each table holds. -/
def summary (r : Registry D) : String :=
  let messages := r.messages.size
  let headers := r.headers.size
  let objects := r.objects.size
  s!"Registry \x7b messages: {messages}, headers: {headers}, objects: {objects} \x7d"

end Registry

end Groupcast
