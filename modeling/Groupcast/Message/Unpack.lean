import Groupcast.Compact.Basic
import Groupcast.Message.Basic

/-!
# Unpacking objects

A serializable body that holds packed bytes, or an object that can be packed, is unpacked as a
value of any shape.
-/

namespace Groupcast.Parcel

variable {D : Dialect}

/-- The value of a given shape that a parcel holds in packed form. -/
def unpack (s : Compact.Shape) (parcel : Option (Parcel D)) : Except DecodeError s.Value :=
  match parcel.elim (.ok none) packed? with
  | .error error => .error (.invalid "serializable object" error.message)
  | .ok none => .error (.invalid "serializable object" "body holds no opaque object")
  | .ok (some bytes) => (Compact.decodeFront s bytes).mapError .object

end Groupcast.Parcel
