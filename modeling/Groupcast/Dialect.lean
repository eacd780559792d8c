import Groupcast.Emission
import Groupcast.Reading

/-!
# Dialects

The wire format is open: an application adds values that know their own encoding (used as headers
and as objects), objects that are packed into opaque bytes, and bodies of its own. A `Dialect`
bundles these; messages and registries are taken over a dialect.
-/

namespace Groupcast

/-- Values that know their kind, their encoded size and how to write and read themselves. -/
class Streamable (α : Type) where
  /-- The tag written ahead of the value, by which a reader finds a blank value to refill. -/
  kind : α → UInt16
  /-- Bytes of the encoding. -/
  size : α → Nat
  /-- The encoding, one entry per write. -/
  pieces : α → List Bytes
  /-- Reads a value to take the place of a blank one. -/
  refill : α → Reading α

/-- Objects that are packed into bytes whose meaning only the application knows. -/
class Packable (α : Type) where
  pack : α → Except Compact.EncodeFault Bytes

/-- How the body of an application is read: bytes of its own, and whole messages that it holds.

Readers of an application may do more than a script can. A script holds each message that it reads,
in the order read, and goes on in the same way whatever the message is; it reads messages from its
own source only, never from bytes that it took; and a read that fails ends it. -/
inductive BodyScript (σ : Type) where
  | done (state : σ)
  | fail (error : DecodeError)
  | take (how : Transfer) (count : Nat) (next : Bytes → BodyScript σ)
  /-- Asks how many bytes are left. -/
  | ask (next : Nat → BodyScript σ)
  /-- Reads one more message to be held. -/
  | message (next : BodyScript σ)

namespace BodyScript

/-- The script that only takes bytes. -/
def ofReading : Reading α → (α → BodyScript σ) → BodyScript σ
  | .done value, next => next value
  | .fail error, _ => fail error
  | .take how count rest, next => take how count fun bytes => ofReading (rest bytes) next
  | .ask rest, next => ask fun left => ofReading (rest left) next

/-- Runs a script with a reading for the messages held, given those read before in reverse. -/
def readingFrom (message : Reading μ) : BodyScript σ → List μ → Reading (σ × List μ)
  | done state, held => .done (state, held.reverse)
  | fail error, _ => .fail error
  | take how count next, held => .take how count fun bytes => (next bytes).readingFrom message held
  | ask next, held => .ask fun left => (next left).readingFrom message held
  | .message next, held => message.bind fun m => next.readingFrom message (m :: held)

/-- The reading of a state and the messages held. -/
def reading (message : Reading μ) (script : BodyScript σ) : Reading (σ × List μ) :=
  script.readingFrom message []

end BodyScript

/-- Bodies of an application: a state of its own and any number of messages that it holds. What
depends on the messages held is computed from what the same operation yields for each of them. -/
class CustomBody (σ : Type) where
  /-- The kind written ahead of the message. -/
  kind : σ → UInt8
  /-- Payload bytes, given those of the messages held. -/
  length : σ → List (Except EncodeError Nat) → Nat
  /-- Whether there is a payload, given the payload bytes of the messages held. -/
  hasPayload : σ → List (Except EncodeError Nat) → Bool := fun s held => 0 < length s held
  /-- Bytes of the encoding, given the sizes of the messages held, their kinds not counted. -/
  size : σ → List (Except EncodeError Nat) → Nat
  /-- The encoding, given those of the messages held, their kinds included. -/
  emit : σ → List Emission → Emission
  /-- Reads a state to take the place of a blank one. -/
  refill : σ → BodyScript σ
  /-- The state of a copy, with or without payload, and whether the messages held are copied: all of
  them, each with its headers and its payload, or none. A copy of an application may also keep some
  of them, or change them; those copies are not modelled. -/
  copy : (withPayload : Bool) → σ → σ × Bool

/-- What an application adds to the wire format. -/
structure Dialect where
  /-- Self-describing values. -/
  Item : Type
  /-- Objects to be packed. -/
  Object : Type
  /-- States of custom bodies. -/
  Custom : Type
  [streamable : Streamable Item]
  [packable : Packable Object]
  [customBody : CustomBody Custom]

attribute [instance] Dialect.streamable Dialect.packable Dialect.customBody

end Groupcast
