import Groupcast.Chain
import Groupcast.Message.Reader

/-!
# Assembling messages

The windows of a message, received in order, are read in a row as one message. Collecting and
ordering them is left to the caller.
-/

namespace Groupcast

variable {D : Dialect}

/-- The message whose encoding the windows make up. -/
def assemble (r : Registry D) (windows : List Bytes) : Except DecodeError (Message D) :=
  Message.readExactly r (Chain.ofChunks windows)

/-- The window that a received fragment holds. -/
def Message.receivedWindow (m : Message D) : Except DecodeError Bytes :=
  match m.body with
  | .received view => .ok view.data
  | other =>
    .error (.invalid "fragment" s!"expected a received fragment, found a {other.name} body")

/-- The message whose fragments these are. -/
def assembleFragments (r : Registry D) (fragments : List (Message D)) :
    Except DecodeError (Message D) := do
  assemble r (← fragments.mapM Message.receivedWindow)

end Groupcast
