import Groupcast.Compact.Basic
import Groupcast.Dialect

/-!
# Objects of the catalogue

Values of some common types, packed in the compact encoding, and an object that refuses to be
packed.
-/

namespace Groupcast.Catalogue

/-- The types of objects. -/
inductive ObjectType where
  | unsigned (width : Compact.Width)
  | signed (width : Compact.Width)
  | boolean
  | character
  | text
  | bytes
  | texts
  /-- A 64-bit number, or none. -/
  | maybe
  /-- A 32-bit number and a text. -/
  | pair
  /-- A 32-bit order number and the name of an item. -/
  | order
deriving DecidableEq, Repr

namespace ObjectType

/-- Every type. -/
def all : List ObjectType :=
  [.unsigned .w8, .unsigned .w16, .unsigned .w32, .unsigned .w64, .unsigned .w128,
    .signed .w8, .signed .w16, .signed .w32, .signed .w64, .signed .w128,
    .boolean, .character, .text, .bytes, .texts, .maybe, .pair, .order]

def name : ObjectType → String
  | .unsigned w => s!"u{w.bits}"
  | .signed w => s!"i{w.bits}"
  | .boolean => "bool"
  | .character => "char"
  | .text => "string"
  | .bytes => "bytes"
  | .texts => "strings"
  | .maybe => "opt"
  | .pair => "pair"
  | .order => "order"

def ofName? (name : String) : Option ObjectType :=
  all.find? (·.name = name)

@[reducible] def shape : ObjectType → Compact.Shape
  | .unsigned w => .unsigned w
  | .signed w => .signed w
  | .boolean => .boolean
  | .character => .character
  | .text => .text
  | .bytes => .bytes
  | .texts => .list .text
  | .maybe => .optional "core::option::Option<u64>" (.unsigned .w64)
  | .pair => .pair (.unsigned .w32) .text
  | .order => .pair (.unsigned .w32) .text

end ObjectType

/-- An object that is packed when it is written. -/
inductive Object where
  | value (type : ObjectType) (value : type.shape.Value)
  /-- An object that refuses to be packed. -/
  | refusing (reason : String)

namespace Object

/-- The name of the object's type. -/
def typeName : Object → String
  | value type _ => type.name
  | refusing _ => "fail"

instance : Packable Object where
  pack
    | value type v => .ok (Compact.encode type.shape v)
    | refusing reason => .error (.refused reason)

end Object

end Groupcast.Catalogue
