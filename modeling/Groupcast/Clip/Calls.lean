import Groupcast.Clip

/-!
# Calls on a sink

A sink takes single bytes and slices; writes of other kinds come down to these. A clip serves them
one call at a time. It computes in 64-bit words, and treats a byte and a slice in two ways: a byte
is in the window or not, and of a slice the part in the window is worked out from its ends.
`Clip.serve?` follows each operation on words, and has no result if one of them would leave the
words. `Clip.write` says in one formula what comes of it.
-/

namespace Groupcast

/-- A call on a sink. -/
inductive SinkCall where
  | byte (b : UInt8)
  | slice (bytes : Bytes)
deriving DecidableEq, Repr

/-- The bytes that a call writes. -/
def SinkCall.content : SinkCall → Bytes
  | byte b => [b]
  | slice bytes => bytes

/-- A write to a sink. -/
inductive Write where
  | byte (b : UInt8)
  | flag (b : Bool)
  | u16 (n : UInt16)
  | i32 (n : Int32)
  | u32 (n : UInt32)
  | u64 (n : UInt64)
  | u128 (n : BitVec 128)
  | slice (bytes : Bytes)
deriving DecidableEq, Repr

namespace Write

/-- The call that a write comes down to. -/
def call : Write → SinkCall
  | byte b => .byte b
  | flag b => .byte (if b then 1 else 0)
  | u16 n => .slice (Bytes.bigEndian 2 n.toNat)
  | i32 n => .slice (Bytes.bigEndian 4 n.toUInt32.toNat)
  | u32 n => .slice (Bytes.bigEndian 4 n.toNat)
  | u64 n => .slice (Bytes.bigEndian 8 n.toNat)
  | u128 n => .slice (Bytes.bigEndian 16 n.toNat)
  | slice bytes => .slice bytes

/-- The bytes written. -/
def content (w : Write) : Bytes :=
  w.call.content

/-- What some writes come to in a row. -/
def contents (writes : List Write) : Bytes :=
  writes.flatMap content

end Write

/-! ## Words -/

/-- The sum of two words, if it is a word. -/
def addWords? (a b : Nat) : Option Nat :=
  if a + b ≤ maxPosition then some (a + b) else none

/-- The difference of two words, if it is a word. -/
def subtractWords? (a b : Nat) : Option Nat :=
  if b ≤ a then some (a - b) else none

/-- The part of a byte string between two positions, if they lie in it in this order. -/
def Bytes.between? (bytes : Bytes) (first past : Nat) : Option Bytes :=
  if first ≤ past ∧ past ≤ bytes.length then some ((bytes.take past).drop first) else none

/-! ## Clips -/

namespace Clip

/-- The clip after a call, and the call that is passed on, if there is one. -/
def serve? (c : Clip) : SinkCall → Option (Clip × Option SinkCall)
  | .byte b =>
    let moved := { c with position := min (c.position + 1) maxPosition }
    if c.offset ≤ c.position ∧ c.position < c.stop then do
      let forwarded ← addWords? c.forwarded 1
      return ({ moved with forwarded }, some (.byte b))
    else some (moved, none)
  | .slice bytes =>
    let moved := { c with position := min (c.position + bytes.length) maxPosition }
    -- What lies before the window; zero where the window has begun.
    let skipped := c.offset - c.position
    if c.stop ≤ c.position then some (moved, none)
    else if bytes.length ≤ skipped then some (moved, none)
    else do
      let left ← subtractWords? bytes.length skipped
      let first ← addWords? c.position skipped
      let room ← subtractWords? c.stop first
      let count := min left room
      if count = 0 then return (moved, none)
      else do
        let past ← addWords? skipped count
        let part ← bytes.between? skipped past
        let forwarded ← addWords? c.forwarded count
        return ({ moved with forwarded }, some (.slice part))

/-- The clip after some calls, and what was passed on for each of them. -/
def serveAll? : Clip → List SinkCall → Option (Clip × List (Option SinkCall))
  | c, [] => some (c, [])
  | c, call :: calls => do
    let (c, passedOn) ← c.serve? call
    let (c, others) ← c.serveAll? calls
    return (c, passedOn :: others)

/-- The bytes that reached the sink, given what was passed on. -/
def sunk (passedOn : List (Option SinkCall)) : Bytes :=
  passedOn.flatMap fun call => call.toList.flatMap SinkCall.content

end Clip

end Groupcast
