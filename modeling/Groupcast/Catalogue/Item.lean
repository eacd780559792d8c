import Groupcast.Dialect

/-!
# Items of the catalogue

Five self-describing values, each with a kind of its own. All their integers are big-endian.
-/

namespace Groupcast.Catalogue

inductive Item where
  /-- A sequence number. -/
  | seq (seqno : UInt32)
  | point (x y : Int32)
  /-- The number of a group view. -/
  | view (id : UInt64)
  /-- A version and the bytes of a state transfer. -/
  | state (version : UInt32) (entries : Bytes)
  | label (text : String)
deriving DecidableEq, Repr

namespace Item

/-- A blank item of each form. -/
def blanks : List Item :=
  [.seq 0, .point 0 0, .view 0, .state 0 [], .label ""]

/-- The name of an item's form. -/
def form : Item → String
  | seq _ => "seq"
  | point _ _ => "point"
  | view _ => "view"
  | state _ _ => "state"
  | label _ => "label"

def kind : Item → UInt16
  | seq _ => 1001
  | point _ _ => 2001
  | view _ => 3001
  | state _ _ => 3002
  | label _ => 4001

def size : Item → Nat
  | seq _ => 4
  | point _ _ => 4 + 4
  | view _ => 8
  | state _ entries => 4 + 4 + entries.length
  | label text => 2 + (Utf8.ofString text).length

def pieces : Item → List Bytes
  | seq seqno => [Bytes.bigEndian 4 seqno.toNat]
  | point x y => [Bytes.bigEndian 4 x.toUInt32.toNat, Bytes.bigEndian 4 y.toUInt32.toNat]
  | view id => [Bytes.bigEndian 8 id.toNat]
  | state version entries =>
    [Bytes.bigEndian 4 version.toNat, Bytes.bigEndian 4 entries.length, entries]
  | label text =>
    let bytes := Utf8.ofString text
    [Bytes.bigEndian 2 bytes.length, bytes]

def refill : Item → Reading Item
  | seq _ => return seq (← Reading.u32)
  | point _ _ => return point (← Reading.i32) (← Reading.i32)
  | view _ => return view (← Reading.u64)
  | state _ _ => do
    let version ← Reading.u32
    let length ← Reading.u32
    return state version (← Reading.bytes length.toNat)
  | label _ => do
    let length ← Reading.u16
    match Utf8.toString (← Reading.bytes length.toNat) with
    | .ok text => return label text
    | .error _ => .fail (.invalid "label" "not valid UTF-8")

instance : Streamable Item := ⟨kind, size, pieces, refill⟩

end Item

end Groupcast.Catalogue
