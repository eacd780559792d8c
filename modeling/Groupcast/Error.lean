import Groupcast.Compact.Fault
import Groupcast.Window

/-!
# Errors

Every way in which building, writing, reading or registering can fail, with the text that a
diagnostic shows.
-/

namespace Groupcast

/-- A range that does not fit inside its buffer. -/
structure RangeError where
  offset : Nat
  length : Nat
  capacity : Nat
deriving DecidableEq, Repr

def RangeError.message (e : RangeError) : String :=
  s!"range [{e.offset}, {e.offset}+{e.length}) exceeds buffer of {e.capacity} bytes"

/-- Why a kind cannot be registered. -/
inductive RegistryError where
  /-- The kind is not above the last one reserved for built-in kinds. -/
  | reserved (table : String) (kind threshold : Nat)
  | taken (table : String) (kind : Nat)
deriving DecidableEq, Repr

def RegistryError.message : RegistryError → String
  | .reserved table kind threshold => s!"{table} kind {kind} must be greater than {threshold}"
  | .taken table kind => s!"{table} kind {kind} is already taken"

/-- Why a value cannot be written. -/
inductive EncodeError where
  /-- A length or count that does not fit its 32-bit field. -/
  | lengthOverflow (length : Nat)
  /-- More child payloads than a 16-bit count can hold. -/
  | countOverflow (count : Nat)
  /-- A window reaches past the encoding it is cut from. -/
  | windowOutOfRange (window : Window) (forwarded : Nat)
  | object (fault : Compact.EncodeFault)
deriving DecidableEq, Repr

def EncodeError.message : EncodeError → String
  | .lengthOverflow length => s!"length {length} does not fit a 32-bit length prefix"
  | .countOverflow count => s!"{count} children do not fit a 16-bit count prefix"
  | .windowOutOfRange w forwarded =>
    s!"fragment window [{w.offset}, {w.offset}+{w.length}) produced only {forwarded} bytes"
  | .object fault => s!"failed to serialize object: {fault.message}"

/-- Why input cannot be read. -/
inductive DecodeError where
  | truncated (needed remaining : Nat)
  | unknownMessageKind (kind : UInt8)
  | unknownHeaderKind (kind : UInt16)
  | unknownObjectKind (kind : UInt16)
  | unknownPayloadKind (kind : UInt8)
  /-- A negative length where none is allowed. -/
  | invalidLength (length : Int)
  /-- Input left over after a complete message. -/
  | trailingBytes (remaining : Nat)
  /-- A value that its own reader refuses. -/
  | invalid (what reason : String)
  | object (fault : Compact.DecodeFault)
deriving DecidableEq, Repr

def DecodeError.message : DecodeError → String
  | .truncated needed remaining =>
    s!"truncated input: needed {needed} bytes, {remaining} remaining"
  | .unknownMessageKind kind => s!"unknown message kind {kind.toNat}"
  | .unknownHeaderKind kind => s!"unknown header kind {kind.toNat}"
  | .unknownObjectKind kind => s!"unknown object kind {kind.toNat}"
  | .unknownPayloadKind kind => s!"unknown payload kind {kind.toNat}"
  | .invalidLength length => s!"invalid length prefix {length}"
  | .trailingBytes remaining => s!"{remaining} trailing bytes after a complete message"
  | .invalid what reason => s!"invalid {what}: {reason}"
  | .object fault => s!"failed to deserialize object: {fault.message}"

/-- An operation that a body does not offer. -/
structure UnsupportedOperation where
  operation : String
  body : String
deriving DecidableEq, Repr

def UnsupportedOperation.message (e : UnsupportedOperation) : String :=
  s!"{e.operation} is not supported by {e.body} bodies"

/-- Why a message cannot be split into fragments. -/
inductive FragmentationError where
  | encode (error : EncodeError)
  | tooManyFragments (count : Nat)
deriving DecidableEq, Repr

def FragmentationError.message : FragmentationError → String
  | .encode error => s!"failed to encode message: {error.message}"
  | .tooManyFragments count =>
    s!"message needs {count} fragments, more than a fragment header can count"

end Groupcast
