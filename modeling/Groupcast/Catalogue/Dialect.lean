import Groupcast.Catalogue.Custom
import Groupcast.Catalogue.Item
import Groupcast.Catalogue.Object
import Groupcast.Registry

/-!
# The dialect of the catalogue
-/

namespace Groupcast.Catalogue

/-- Five items, packed objects, counters and wrappers. -/
abbrev dialect : Dialect where
  Item := Item
  Object := Object
  Custom := Custom

/-- Registers every item under its kind, as header and as object. -/
def addItems (r : Registry dialect) : Except RegistryError (Registry dialect) :=
  Item.blanks.foldlM (fun r item => do
    let r ← accepted (r.addHeader item.kind (.item item))
    accepted (r.addObject item.kind (.item item))) r

/-- Registers both bodies, under 40 and 41. -/
def addBodies (r : Registry dialect) : Except RegistryError (Registry dialect) := do
  let r ← accepted (r.addMessage 40 (.counter 40 0))
  accepted (r.addMessage 41 (.wrap 41))

end Groupcast.Catalogue
