import Groupcast.Fault
import Groupcast.Reading

/-!
# Chains of chunks

A chain is a byte string kept as the chunks in which it arrived, so that received windows can be
read in a row without being joined first. Empty chunks are not kept.
-/

namespace Groupcast

/-- A queue of chunks and the number of bytes in them. -/
structure Chain where
  chunks : List Bytes
  remaining : Nat
deriving DecidableEq, Repr

namespace Chain

def empty : Chain := ⟨[], 0⟩

/-- The byte string that the chain stands for. -/
def bytes (c : Chain) : Bytes :=
  c.chunks.flatten

/-- Adds a chunk at the end. -/
def push (c : Chain) (chunk : Bytes) : Chain :=
  if chunk.isEmpty then c else ⟨c.chunks ++ [chunk], c.remaining + chunk.length⟩

/-- The chain of the given chunks. -/
def ofChunks (chunks : List Bytes) : Chain :=
  ⟨chunks.filter (!·.isEmpty), chunks.flatten.length⟩

/-- The chunk at the front, empty if there is none. -/
def front (c : Chain) : Bytes :=
  c.chunks.headD []

/-- Chunks without their first `n` bytes. -/
def dropBytes (n : Nat) : List Bytes → List Bytes
  | [] => []
  | chunk :: chunks =>
    if n = 0 then chunk :: chunks
    else if n < chunk.length then chunk.drop n :: chunks
    else dropBytes (n - chunk.length) chunks

/-- Drops the first `n` bytes, once it is checked that there are as many. -/
def advance (c : Chain) (n : Nat) : Except Fault Unit × Chain :=
  if c.remaining < n then (.error .overrun, c)
  else (.ok (), ⟨dropBytes n c.chunks, c.remaining - n⟩)

/-- The first `n` bytes, copied chunk by chunk with an advance after each part. Where the chunks run
dry before that, the loop gets nowhere. -/
def gather (c : Chain) (n : Nat) : Except Fault Bytes × Chain :=
  if n = 0 then (.ok [], c)
  else
    let part := c.front.take n
    if _ : part = [] then (.error .stuck, c)
    else
      match c.advance part.length with
      | (.error fault, later) => (.error fault, later)
      | (.ok (), later) =>
        let (more, last) := later.gather (n - part.length)
        (more.map (part ++ ·), last)
termination_by n
decreasing_by
  have : 0 < (c.front.take n).length := List.length_pos_iff.mpr ‹¬part = []›
  omega

/-- Takes the first `n` bytes, or all if there are fewer. Bytes that lie in one chunk are split off
it, others are gathered. -/
def takeFront (c : Chain) (n : Nat) : Except Fault Bytes × Chain :=
  match c.chunks with
  | [] => c.gather (min n c.remaining)
  | chunk :: chunks =>
    if n ≤ chunk.length then
      let left := chunk.drop n
      (.ok (chunk.take n), ⟨if left.isEmpty then chunks else left :: chunks, c.remaining - n⟩)
    else c.gather (min n c.remaining)

/-- Hands over the first `n` bytes, or all if there are fewer. Room is made for as many as are asked
for. Only bytes that lie in one chunk need none, but no chunk has more than there can be room
for. -/
def handOver (c : Chain) (n : Nat) : Except Fault Bytes × Chain :=
  match makeRoom n with
  | .error fault => (.error fault, c)
  | .ok () => c.takeFront n

/-- The first `n` bytes of a chain that has as many, unless there is a fault. What is read is itself
no longer than there can be room for. -/
def transfer? (how : Transfer) (n : Nat) (c : Chain) : Option (Bytes × Chain) :=
  let taken := match how with
    | .copied => c.gather n
    | .handed => c.takeFront n
  match taken with
  | (.ok bytes, rest) => some (bytes, rest)
  | (.error _, _) => none

instance : Source Chain where
  available := remaining
  split? how n c := if n ≤ c.remaining then c.transfer? how n else none

end Chain

end Groupcast
