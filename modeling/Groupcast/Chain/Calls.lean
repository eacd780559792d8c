import Groupcast.Chain

/-!
# Calls on a chain

A chain is fed with chunks and drained by calls. It is a fault to advance past its end, or to ask
for more bytes than there can be room for. Faults are caught: the chain is as the call left it, and
the calls after it are made all the same.
-/

namespace Groupcast

/-- A call on a chain. -/
inductive ChainCall where
  | push (chunk : Bytes)
  | advance (n : Nat)
  /-- Copies `n` bytes out, or all if there are fewer. -/
  | copy (n : Nat)
deriving DecidableEq, Repr

/-- What some calls give, one after another, and what they leave. -/
def ChainCall.serveAll (serve : σ → ChainCall → Except Fault Bytes × σ) :
    σ → List ChainCall → List (Except Fault Bytes) × σ
  | state, [] => ([], state)
  | state, call :: calls =>
    let (given, state) := serve state call
    let (others, state) := serveAll serve state calls
    (given :: others, state)

namespace Chain

/-- What a call gives, and the chain as it is then. -/
def serve (c : Chain) : ChainCall → Except Fault Bytes × Chain
  | .push chunk => (.ok [], c.push chunk)
  | .advance n =>
    let (advanced, rest) := c.advance n
    (advanced.map fun () => [], rest)
  | .copy n => c.handOver n

/-- The chain after some calls. -/
def afterCalls (c : Chain) (calls : List ChainCall) : Chain :=
  (ChainCall.serveAll serve c calls).2

end Chain

end Groupcast
