import Mathlib.Algebra.GroupWithZero.Nat
import Groupcast.Proofs.Chain.Calls

/-!
# A chain is a queue of bytes

Whatever calls a chain has served, faults among them, it counts its bytes right and keeps no empty
chunk, and the next call does to it what it does to the byte string that the chain stands for. The
invariant is `Chain.StandsFor`: every call keeps it, and a chain starts with it.
-/

namespace Groupcast

/-! ## Calls on a byte string -/

/-- The byte string after some calls. -/
def Bytes.afterCalls (source : Bytes) (calls : List ChainCall) : Bytes :=
  (ChainCall.serveAll Bytes.serve source calls).2

namespace ChainCall

/-- The bytes that a call puts in. -/
def fed : ChainCall → Bytes
  | push chunk => chunk
  | advance _ => []
  | copy _ => []

end ChainCall

/-- A call adds at most the bytes that it puts in. -/
theorem Bytes.length_serve_le (source : Bytes) (call : ChainCall) :
    (Bytes.serve source call).2.length ≤ source.length + call.fed.length := by
  have hdrop : ∀ n, (source.drop n).length ≤ source.length := fun n =>
    (List.drop_sublist n source).length_le
  cases call with
  | push chunk => exact Nat.le_of_eq List.length_append
  | advance n =>
    by_cases hlong : source.length < n
    · rw [Bytes.serve, if_pos hlong]
      exact Nat.le_refl _
    · rw [Bytes.serve, if_neg hlong]
      exact hdrop n
  | copy n =>
    by_cases hlarge : maxRoom < n
    · rw [Bytes.serve, if_pos hlarge]
      exact Nat.le_refl _
    · rw [Bytes.serve, if_neg hlarge]
      exact hdrop n

theorem Bytes.length_afterCalls_le (source : Bytes) (calls : List ChainCall) :
    (Bytes.afterCalls source calls).length
      ≤ source.length + (calls.flatMap ChainCall.fed).length := by
  induction calls generalizing source with
  | nil => exact Nat.le_refl _
  | cons call calls ih =>
    have hstep := Bytes.length_serve_le source call
    have hrest := ih (Bytes.serve source call).2
    rw [List.flatMap_cons, List.length_append]
    exact Nat.le_trans hrest (by omega)

namespace Chain

variable {c : Chain} {source : Bytes}

/-! ## Queues -/

/-- A chain that counts its bytes right, keeps no empty chunk, and serves each call as a queue of
bytes. -/
structure IsQueue (c : Chain) : Prop where
  remaining_eq : c.remaining = (c.chunks.map List.length).sum
  nonempty : ∀ chunk ∈ c.chunks, chunk ≠ []
  front_ne_nil : 0 < c.remaining → c.front ≠ []
  push : ∀ chunk, ∃ rest, c.serve (.push chunk) = (.ok [], rest) ∧ rest.bytes = c.bytes ++ chunk
  advance : ∀ n ≤ c.remaining, ∃ rest,
    c.serve (.advance n) = (.ok [], rest) ∧ rest.bytes = c.bytes.drop n
  overrun : ∀ n, c.remaining < n → (c.serve (.advance n)).1 = .error .overrun
  copy : ∀ n ≤ maxRoom, ∃ rest,
    c.serve (.copy n) = (.ok (c.bytes.take (min n c.remaining)), rest) ∧
      rest.bytes = c.bytes.drop (min n c.remaining)
  noRoom : ∀ n, maxRoom < n → (c.serve (.copy n)).1 = .error .noRoom
  /-- A call that is a fault changes nothing. -/
  unchanged : ∀ call fault rest, c.serve call = (.error fault, rest) → rest = c

/-- A chain that stands for a byte string is a queue. -/
theorem StandsFor.isQueue (h : c.StandsFor source) : c.IsQueue := by
  obtain rfl : c.bytes = source := h.flatten
  -- What the byte string serves, the chain serves, and it then stands for what is left.
  have hserved : ∀ call given left, Bytes.serve c.bytes call = (.ok given, left) →
      ∃ rest, c.serve call = (.ok given, rest) ∧ rest.bytes = left := by
    intro call given left hcall
    obtain ⟨hgiven, hrest⟩ := h.serve call
    rw [hcall] at hgiven hrest
    exact ⟨(c.serve call).2, Prod.ext hgiven rfl, hrest.flatten⟩
  constructor
  case remaining_eq => rw [h.remaining, bytes, List.length_flatten]
  case nonempty => exact h.nonempty
  case front_ne_nil =>
    intro hpos hempty
    rw [h.remaining] at hpos
    exact (h.take_front 1).2 (Nat.one_pos) hpos (by rw [hempty, List.take_nil])
  case push =>
    intro chunk
    exact hserved (.push chunk) _ _ rfl
  case advance =>
    intro n hn
    refine hserved (.advance n) _ _ ?_
    rw [Bytes.serve, if_neg (Nat.not_lt.mpr (h.remaining ▸ hn))]
  case overrun =>
    intro n hn
    rw [(h.serve (.advance n)).1, Bytes.serve, if_pos (h.remaining ▸ hn)]
  case copy =>
    intro n hn
    have htake : c.bytes.take (min n c.remaining) = c.bytes.take n := by
      rw [h.remaining, ← List.take_eq_take_min]
    have hdrop : c.bytes.drop (min n c.remaining) = c.bytes.drop n := by
      rw [h.remaining, ← List.drop_eq_drop_min]
    rw [htake, hdrop]
    refine hserved (.copy n) _ _ ?_
    rw [Bytes.serve, if_neg (Nat.not_lt.mpr hn)]
  case noRoom =>
    intro n hn
    rw [(h.serve (.copy n)).1, Bytes.serve, if_pos hn]
  case unchanged =>
    intro call fault rest hfault
    exact h.serve_eq_error hfault

/-- A chain that is made of any chunks, empty ones too, is a queue of bytes after any calls, faults
among them. It stands for what the calls make of the chunks in a row, and never holds more bytes
than were put in, so its counter stays a word where those do. -/
theorem isQueue_afterCalls (chunks : List Bytes) (calls : List ChainCall) :
    ofChunks chunks = chunks.foldl Chain.push empty ∧
      ((ofChunks chunks).afterCalls calls).IsQueue ∧
      (ChainCall.serveAll Chain.serve (ofChunks chunks) calls).1
        = (ChainCall.serveAll Bytes.serve chunks.flatten calls).1 ∧
      ((ofChunks chunks).afterCalls calls).bytes = Bytes.afterCalls chunks.flatten calls ∧
      ((ofChunks chunks).afterCalls calls).remaining
        ≤ chunks.flatten.length + (calls.flatMap ChainCall.fed).length := by
  obtain ⟨hgiven, hstands⟩ := (standsFor_ofChunks chunks).serveAll calls
  refine ⟨ofChunks_eq_foldl_push chunks, hstands.isQueue, hgiven, hstands.flatten, ?_⟩
  rw [afterCalls, hstands.remaining]
  exact Bytes.length_afterCalls_le chunks.flatten calls

/-- A chain of three bytes does not give them to a call for 2 ^ 64 - 1: there is no room for so
many, and the chain keeps its bytes. -/
theorem no_room_for_largest_copy :
    (ofChunks [[1, 2, 3]]).serve (.copy (2 ^ 64 - 1))
      = (.error .noRoom, ofChunks [[1, 2, 3]]) ∧
    (ofChunks [[1, 2, 3]]).bytes.take (min (2 ^ 64 - 1) (ofChunks [[1, 2, 3]]).remaining)
      = [1, 2, 3] := by
  refine ⟨?_, by decide⟩
  rw [serve, handOver, makeRoom_of_lt (by decide)]

/-- A copy over the end of a chunk, an advance too far, and a push of nothing. -/
example : ((ofChunks [[1, 2], [], [3]]).afterCalls [.copy 1, .advance 5, .push [], .push [4]])
    = ⟨[[2], [3], [4]], 3⟩ := rfl

end Chain

end Groupcast
