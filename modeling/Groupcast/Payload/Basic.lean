import Groupcast.Chain
import Groupcast.View

/-!
# Payloads

A payload is a piece of application data that needs no message around it: bytes, a list of
payloads, or a kind that the application adds. On the wire it is its kind and its encoding.
-/

namespace Groupcast

/-- Payloads of an application. -/
class CustomPayload (π : Type) where
  /-- The kind written ahead of the payload. -/
  kind : π → UInt8
  /-- Data bytes. -/
  size : π → Nat
  /-- Bytes of the encoding. -/
  wireSize : π → Nat
  /-- The buffer behind the data, if there is one. -/
  array : π → Option View := fun _ => none
  data : π → Bytes
  emit : π → Emission
  /-- Reads a payload to take the place of a blank one. -/
  refill : π → Reading π
  copy : π → π

/-- A unit of data that tells its own kind. -/
inductive Payload (π : Type) where
  | bytes (view : View)
  | composite (children : List (Payload π))
  | custom (state : π)

namespace Payload

variable {π : Type} [CustomPayload π]

instance : Inhabited (Payload π) := ⟨composite []⟩

/-- The kind of bytes. -/
def bytesKind : UInt8 := 1

/-- The kind of a list of payloads. -/
def compositeKind : UInt8 := 2

/-- The number written ahead of the payload. -/
def kind : Payload π → UInt8
  | bytes _ => bytesKind
  | composite _ => compositeKind
  | custom s => CustomPayload.kind s

/-- The name shown in diagnostics. -/
def name : Payload π → String
  | bytes _ => "byte array"
  | composite _ => "composite"
  | custom _ => "custom"

/-- The buffer behind the data. Composites have none. -/
def array (p : Payload π) : Except UnsupportedOperation View :=
  let found := match p with
    | bytes view => some view
    | composite _ => none
    | custom s => CustomPayload.array s
  match found with
  | some view => .ok view
  | none => .error ⟨"array", p.name⟩

/-- Whether there is a buffer behind the data. -/
def hasArray (p : Payload π) : Bool :=
  p.array.toBool

/-- The offset of the data in the buffer behind it. -/
def arrayOffset (p : Payload π) : Except UnsupportedOperation Nat :=
  p.array.map View.offset

/-! ## Children -/

/-- The payloads in a composite, in order. -/
def children? : Payload π → Option (List (Payload π))
  | composite children => some children
  | _ => none

/-- A composite with one more payload at the end. -/
def addLast? (p child : Payload π) : Option (Payload π) :=
  p.children?.map fun children => composite (children ++ [child])

/-- A composite with one more payload in front. -/
def addFirst? (p child : Payload π) : Option (Payload π) :=
  p.children?.map fun children => composite (child :: children)

/-- The last payload of a composite, if any, and the composite without it. -/
def removeLast? (p : Payload π) : Option (Option (Payload π) × Payload π) :=
  p.children?.map fun children => (children.getLast?, composite children.dropLast)

/-- The first payload of a composite, if any, and the composite without it. -/
def removeFirst? (p : Payload π) : Option (Option (Payload π) × Payload π) :=
  p.children?.map fun children => (children.head?, composite children.tail)

/-! ## Sizes -/

mutual

/-- Data bytes. -/
def size : Payload π → Nat
  | bytes view => view.length
  | composite children => (sizes children).foldl (· + ·) 0
  | custom s => CustomPayload.size s

/-- `Payload.size` of each payload. -/
def sizes : List (Payload π) → List Nat
  | [] => []
  | p :: ps => p.size :: sizes ps

end

mutual

/-- Bytes that the payload takes on the wire, its kind not counted. -/
def wireSize : Payload π → Nat
  | bytes view => view.wireSize
  | composite children => (wireSizes children).foldl (fun sum size => sum + (1 + size)) 2
  | custom s => CustomPayload.wireSize s

/-- `Payload.wireSize` of each payload. -/
def wireSizes : List (Payload π) → List Nat
  | [] => []
  | p :: ps => p.wireSize :: wireSizes ps

end

/-! ## Data -/

mutual

/-- The data of the payloads that are not composites, from left to right. -/
def leaves : Payload π → List Bytes
  | bytes view => [view.data]
  | composite children => leavesOf children
  | custom s => [CustomPayload.data s]

/-- The data of several payloads. -/
def leavesOf : List (Payload π) → List Bytes
  | [] => []
  | p :: ps => p.leaves ++ leavesOf ps

end

/-- The data as a chain of chunks. -/
def reader (p : Payload π) : Chain :=
  Chain.ofChunks p.leaves

mutual

/-- Pushes the data to a chain, payload by payload. -/
def collect : Payload π → Chain → Chain
  | bytes view, c => c.push view.data
  | composite children, c => collectAll children c
  | custom s, c => c.push (CustomPayload.data s)

/-- `Payload.collect` of each payload. -/
def collectAll : List (Payload π) → Chain → Chain
  | [], c => c
  | p :: ps, c => collectAll ps (p.collect c)

end

/-! ## Copies -/

mutual

/-- A copy whose views keep no bytes but those they show. -/
def copy : Payload π → Payload π
  | bytes view => bytes view.copy
  | composite children => composite (copies children)
  | custom s => custom (CustomPayload.copy s)

/-- `Payload.copy` of each payload. -/
def copies : List (Payload π) → List (Payload π)
  | [] => []
  | p :: ps => p.copy :: copies ps

end

/-! ## Writing -/

mutual

/-- A payload without its kind. -/
def emitUntagged : Payload π → Emission
  | bytes view => view.emit
  | composite children =>
    if children.length < UInt16.size then
      Emission.u16 (UInt16.ofNat children.length) ++ Emission.concat (emissions children)
    else Emission.fail (.countOverflow children.length)
  | custom s => CustomPayload.emit s

/-- Each payload, its kind included. -/
def emissions : List (Payload π) → List Emission
  | [] => []
  | p :: ps => (Emission.byte p.kind ++ p.emitUntagged) :: emissions ps

end

/-- A payload, its kind included. -/
def emit (p : Payload π) : Emission :=
  Emission.byte p.kind ++ p.emitUntagged

/-- The bytes of a payload, its kind included. -/
def serialize (p : Payload π) : Except EncodeError Bytes :=
  p.emit.result

/-- The bytes of a payload, its kind included. Room is made for them ahead, as much as they are said
to take. The sizes are added up for that in words; each of their sums is a word if the last is. -/
def serializeIn (build : Build) (p : Payload π) : Except Fault (Except EncodeError Bytes) := do
  let size ← build.word (1 + p.wireSize)
  makeRoom size
  return p.serialize

/-! ## Laws -/

theorem sizes_eq_map (ps : List (Payload π)) : sizes ps = ps.map size := by
  induction ps with
  | nil => rfl
  | cons p ps ih => simp [sizes, ih]

theorem leavesOf_eq_flatMap (ps : List (Payload π)) : leavesOf ps = ps.flatMap leaves := by
  induction ps with
  | nil => rfl
  | cons p ps ih => simp [leavesOf, ih]

theorem copies_eq_map (ps : List (Payload π)) : copies ps = ps.map copy := by
  induction ps with
  | nil => rfl
  | cons p ps ih => simp [copies, ih]

theorem emissions_eq_map (ps : List (Payload π)) : emissions ps = ps.map emit := by
  induction ps with
  | nil => rfl
  | cons p ps ih => simp [emissions, emit, ih]

end Payload

end Groupcast
