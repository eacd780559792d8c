import Groupcast.Dialect

/-!
# Header maps

Each protocol layer keeps at most one header in a message, under the layer's number. A header map
holds them in the order in which the layers came: a header put under a number in use takes the
place of the old one.
-/

namespace Groupcast

/-- The number of a protocol layer. -/
abbrev HeaderId := UInt16

/-- Headers by layer, in order of insertion. -/
structure HeaderMap (α : Type) where
  entries : List (HeaderId × α)
  /-- A layer has one header at most. -/
  distinct : (entries.map Prod.fst).Nodup
deriving DecidableEq, Repr

namespace HeaderMap

def empty : HeaderMap α := ⟨[], List.nodup_nil⟩

instance : Inhabited (HeaderMap α) := ⟨empty⟩

def size (m : HeaderMap α) : Nat := m.entries.length

def isEmpty (m : HeaderMap α) : Bool := m.entries.isEmpty

/-- The layers that have a header, in order. -/
def ids (m : HeaderMap α) : List HeaderId := m.entries.map Prod.fst

def get? (m : HeaderMap α) (id : HeaderId) : Option α :=
  m.entries.lookup id

def contains (m : HeaderMap α) (id : HeaderId) : Bool :=
  (m.get? id).isSome

theorem contains_iff_mem_ids (m : HeaderMap α) (id : HeaderId) : m.contains id ↔ id ∈ m.ids := by
  simp [contains, get?, ids, List.lookup_isSome_iff]

/-- Entries with another header in the place of a layer's. -/
def replaced (entries : List (HeaderId × α)) (id : HeaderId) (header : α) :
    List (HeaderId × α) :=
  entries.map fun entry => if entry.1 = id then (id, header) else entry

/-- Replacing a header leaves the layers alone. -/
theorem map_fst_replaced (entries : List (HeaderId × α)) (id : HeaderId) (header : α) :
    (replaced entries id header).map Prod.fst = entries.map Prod.fst := by
  simp only [replaced, List.map_map]
  refine List.map_congr_left fun entry _ => ?_
  by_cases h : entry.1 = id <;> simp [h]

/-- A new layer at the end keeps the layers apart. -/
theorem nodup_map_fst_append (m : HeaderMap α) {id : HeaderId} (header : α)
    (hnew : ¬ m.contains id) : ((m.entries ++ [(id, header)]).map Prod.fst).Nodup := by
  rw [contains_iff_mem_ids] at hnew
  rw [List.map_append, List.nodup_append]
  refine ⟨m.distinct, by simp, fun a ha b hb => ?_⟩
  obtain rfl : b = id := by simpa using hb
  exact fun h => hnew (h ▸ ha)

/-- Puts a header in the place of the old one, or at the end. -/
def put (m : HeaderMap α) (id : HeaderId) (header : α) : HeaderMap α :=
  if h : m.contains id then
    ⟨replaced m.entries id header, by rw [map_fst_replaced]; exact m.distinct⟩
  else ⟨m.entries ++ [(id, header)], m.nodup_map_fst_append header h⟩

/-- The given headers, put in order. -/
def ofList (entries : List (HeaderId × α)) : HeaderMap α :=
  entries.foldl (fun m entry => m.put entry.1 entry.2) empty

def erase (m : HeaderMap α) (id : HeaderId) : HeaderMap α :=
  ⟨m.entries.filter (·.1 ≠ id), m.distinct.sublist (List.filter_sublist.map _)⟩

/-- The headers of the layers numbered `first` or more. -/
def startingFrom (m : HeaderMap α) (first : HeaderId) : HeaderMap α :=
  ⟨m.entries.filter (first ≤ ·.1), m.distinct.sublist (List.filter_sublist.map _)⟩

/-- The headers of all layers but the given ones, in order. -/
def retained (m : HeaderMap α) (excluded : List HeaderId) : List (HeaderId × α) :=
  m.entries.filter (!excluded.contains ·.1)

section Wire

variable [Streamable α]

/-- Bytes that the headers take on the wire when the excluded layers are left out. -/
def wireSize (m : HeaderMap α) (excluded : List HeaderId) : Nat :=
  (m.retained excluded).foldl (fun size entry => size + (2 + 2 + Streamable.size entry.2)) 4

/-- One header: its layer, its kind and its encoding. -/
def emitEntry (entry : HeaderId × α) : Emission :=
  Emission.u16 entry.1 ++ Emission.u16 (Streamable.kind entry.2)
    ++ Emission.ofPieces (Streamable.pieces entry.2)

/-- The number of headers and each of them, leaving out the excluded layers. -/
def emit (m : HeaderMap α) (excluded : List HeaderId) : Emission :=
  let entries := m.retained excluded
  if entries.length < UInt32.size then
    Emission.u32 (UInt32.ofNat entries.length) ++ Emission.concat (entries.map emitEntry)
  else Emission.fail (.lengthOverflow entries.length)

/-- Reads `n` headers into a map, given the blank header of each kind. -/
def readingInto (blank : UInt16 → Except DecodeError α) :
    Nat → HeaderMap α → Reading (HeaderMap α)
  | 0, m => pure m
  | n + 1, m => do
    let id ← Reading.u16
    let kind ← Reading.u16
    let header ← Reading.ofExcept (blank kind)
    let header ← Streamable.refill header
    readingInto blank n (m.put id header)

/-- Reads a map, given the blank header of each kind. -/
def reading (blank : UInt16 → Except DecodeError α) : Reading (HeaderMap α) := do
  let count ← Reading.u32
  readingInto blank count.toNat empty

end Wire

end HeaderMap

end Groupcast
