import Groupcast.Fragment.Fragmenter
import Groupcast.Message.Tally

/-!
# Splitting step by step

A message is sized first, in words. Then there are two loops. The first plans windows: it moves a
position forward and counts down what remains, and room for all windows is made before it starts.
The second makes a fragment for each window and counts their places on its own, up to the last place
that a tag can name. That there is a fragment is asserted in the end. `Fragmenter.split` says
without words and loops what comes of it.
-/

namespace Groupcast

variable {D : Dialect}

namespace Window

/-- The first position past a window, computed in words. -/
def stopIn (build : Build) (w : Window) : Except Fault Nat :=
  build.word (w.offset + w.length)

/-- Bytes that a planned window takes. -/
def footprint : Nat := 8 + 8

/-- Windows of at most `most` positions, planned one after another from a position on until nothing
remains. -/
def planFrom (build : Build) {most : Nat} (hmost : 0 < most) (position remaining : Nat) :
    Except Fault (List Window) :=
  if remaining = 0 then .ok []
  else do
    let length := min remaining most
    let after ← build.word (position + length)
    let others ← planFrom build hmost after (remaining - length)
    return ⟨position, length⟩ :: others
termination_by remaining
decreasing_by omega

/-- Windows of at most `most` positions for `[base, base + total)`. Room is made for all of them
ahead. -/
def plan (build : Build) {most : Nat} (hmost : 0 < most) (base total : Nat) :
    Except Fault (List Window) := do
  makeRoom (count total most * footprint)
  planFrom build hmost base total

end Window

namespace Fragmenter

/-- The fragments of a message for windows in a row, the first of them at the given place. -/
def fragmentsFrom (f : Fragmenter) (id : UInt64) (m : Message D) (count : Nat) :
    (place : UInt32) → List Window → Except FragmentationError (List (Message D))
  | _, [] => .ok []
  | place, window :: windows => do
    let fragment := m.fragment f.config.layer ⟨id, place, UInt32.ofNat count, true⟩ window
    match FragmentTag.nextIndex? place with
    | none => .error (.tooManyFragments count)
    | some next => return fragment :: (← f.fragmentsFrom id m count next windows)

/-- Whether a message does not fit one window, going by its size in words. -/
def needsSplitIn (f : Fragmenter) (build : Build) (m : Message D) :
    Except Fault (Except FragmentationError Bool) := do
  match ← m.encodedTally.run build with
  | .error error => return .error (.encode error)
  | .ok size => return .ok (f.config.windowLength < size)

/-- Splits a message under the next number, going by its size in words. What is left besides is the
fragmenter, also after a fault: its number is taken once the windows are planned and counted. -/
def splitIn (f : Fragmenter) (build : Build) (m : Message D) :
    Except Fault (Except FragmentationError (Batch D)) × Fragmenter :=
  match m.encodedTally.run build with
  | .error fault => (.error fault, f)
  | .ok (.error error) => (.ok (.error (.encode error)), f)
  | .ok (.ok total) =>
    match Window.plan build f.config.windowLength_pos 0 total with
    | .error fault => (.error fault, f)
    | .ok windows =>
      let count := windows.length
      if count < UInt32.size then
        let (id, after) := f.allocate
        match f.fragmentsFrom id m count 0 windows with
        | .error error => (.ok (.error error), after)
        | .ok fragments =>
          ((build.assert (!fragments.isEmpty) .emptyBatch).map fun _ => .ok ⟨id, fragments⟩, after)
      else (.ok (.error (.tooManyFragments count)), f)

end Fragmenter

end Groupcast
