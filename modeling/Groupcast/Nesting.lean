import Groupcast.Error

/-!
# Nesting

Composite messages and composite payloads may lie in one another only so deep.
-/

namespace Groupcast

/-- How deep composites may nest. -/
def maxNesting : Nat := 64

/-- The error of a composite that lies in `maxNesting` others. -/
def tooDeep : DecodeError :=
  .invalid "composite" s!"nested deeper than {maxNesting} levels"

end Groupcast
