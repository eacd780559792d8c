import Groupcast.Message.Basic

/-!
# Copies of messages

A copy keeps addresses and flags. It takes the payload or an empty body of the same kind, and all
headers, none, or those of the layers from a given number on. The children of a composite are
copied in full or dropped.
-/

namespace Groupcast

variable {D : Dialect}

mutual

/-- A copy in full. -/
def Message.copyAll : Message D → Message D
  | .mk e body => .mk e (body.copy true)

/-- A copy of a body, with or without its payload. -/
def Body.copy (withPayload : Bool) : Body D → Body D
  | .empty => .empty
  | .bytes view => .bytes (if withPayload then view else none)
  | .buffer view direct => .buffer (if withPayload then view else none) direct
  | .directBuffer view heap => .directBuffer (if withPayload then view else none) heap
  | .composite children => .composite (if withPayload then copies children else [])
  | .object r => .object (if withPayload then r else none)
  | .serializable parcel => .serializable (if withPayload then parcel else none)
  | .excerpt whole window =>
    if withPayload then .excerpt whole window else .received View.empty
  | .received view => .received (if withPayload then view else View.empty)
  | .custom s held =>
    let (s, keepHeld) := CustomBody.copy withPayload s
    .custom s (if keepHeld then copies held else [])

/-- `Message.copyAll` of each message. -/
def copies : List (Message D) → List (Message D)
  | [] => []
  | m :: ms => m.copyAll :: copies ms

end

theorem copies_eq_map (ms : List (Message D)) : copies ms = ms.map Message.copyAll := by
  induction ms with
  | nil => rfl
  | cons m ms ih => simp [copies, ih]

namespace Message

/-- A copy with or without payload and headers. -/
def copy (m : Message D) (withPayload withHeaders : Bool) : Message D :=
  mk { m.envelope with headers := if withHeaders then m.envelope.headers else HeaderMap.empty }
    (m.body.copy withPayload)

/-- A copy with the headers of the layers numbered `first` or more. -/
def copyFrom (m : Message D) (withPayload : Bool) (first : HeaderId) : Message D :=
  mk { m.envelope with headers := m.envelope.headers.startingFrom first }
    (m.body.copy withPayload)

theorem copyAll_eq_copy (m : Message D) : m.copyAll = m.copy true true := by
  cases m
  simp [copyAll, copy, envelope, body]

end Message

end Groupcast
