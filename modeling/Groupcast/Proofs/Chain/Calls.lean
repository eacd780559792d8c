import Groupcast.Chain.Calls
import Groupcast.Proofs.Chain

/-!
# Calls on a chain are calls on a byte string

A chunk that is pushed is put behind the byte string that a chain stands for, an advance drops bytes
in front and a copy takes them. So whatever calls are made, faults among them, how the bytes are cut
into chunks makes no difference.
-/

namespace Groupcast

/-- What a call gives of a byte string and what it leaves. It is a fault to drop more bytes than
there are, or to ask for more than there can be room for. -/
def Bytes.serve (source : Bytes) : ChainCall → Except Fault Bytes × Bytes
  | .push chunk => (.ok [], source ++ chunk)
  | .advance n =>
    if source.length < n then (.error .overrun, source) else (.ok [], source.drop n)
  | .copy n =>
    if maxRoom < n then (.error .noRoom, source) else (.ok (source.take n), source.drop n)

namespace Chain

variable {c : Chain} {source : Bytes}

theorem StandsFor.push (h : c.StandsFor source) (chunk : Bytes) :
    (c.push chunk).StandsFor (source ++ chunk) := by
  cases chunk with
  | nil =>
    rw [List.append_nil]
    exact h
  | cons byte chunk =>
    refine ⟨fun other hmem => ?_, ?_, ?_⟩
    · rcases List.mem_append.mp hmem with hold | hnew
      · exact h.nonempty other hold
      · rw [List.mem_singleton.mp hnew]
        exact List.cons_ne_nil byte chunk
    · show (c.chunks ++ [byte :: chunk]).flatten = _
      rw [List.flatten_append, h.flatten, List.flatten_singleton]
    · show c.remaining + (byte :: chunk).length = _
      rw [h.remaining, List.length_append]

/-- A call that fails leaves the chain as it is: what it asks for is checked before anything is
done, and what is done afterwards does not fail. -/
theorem StandsFor.serve_eq_error (h : c.StandsFor source) {call : ChainCall} {fault : Fault}
    {rest : Chain} (hfault : c.serve call = (.error fault, rest)) : rest = c := by
  cases call with
  | push chunk => cases hfault
  | advance n =>
    by_cases hn : n ≤ source.length
    · obtain ⟨rest, hadvance, -⟩ := h.advance hn
      rw [Chain.serve, hadvance] at hfault
      cases hfault
    · have hlong : c.remaining < n := by
        rw [h.remaining]
        exact Nat.lt_of_not_le hn
      rw [Chain.serve, Chain.advance, if_pos hlong] at hfault
      cases hfault
      rfl
  | copy n =>
    by_cases hroom : n ≤ maxRoom
    · obtain ⟨rest, hcopy, -⟩ := h.handOver hroom
      rw [Chain.serve, hcopy] at hfault
      cases hfault
    · rw [Chain.serve, Chain.handOver, makeRoom_of_lt (Nat.lt_of_not_le hroom)] at hfault
      cases hfault
      rfl

/-- A call gives the same of both, and the chain that it leaves stands for the byte string that it
leaves. -/
theorem StandsFor.serve (h : c.StandsFor source) (call : ChainCall) :
    (c.serve call).1 = (Bytes.serve source call).1 ∧
      (c.serve call).2.StandsFor (Bytes.serve source call).2 := by
  cases call with
  | push chunk => exact ⟨rfl, h.push chunk⟩
  | advance n =>
    by_cases hn : n ≤ source.length
    · obtain ⟨rest, hadvance, hrest⟩ := h.advance hn
      rw [Chain.serve, hadvance, Bytes.serve, if_neg (Nat.not_lt.mpr hn)]
      exact ⟨rfl, hrest⟩
    · have hlong : source.length < n := Nat.lt_of_not_le hn
      rw [Chain.serve, Chain.advance, h.remaining, if_pos hlong, Bytes.serve, if_pos hlong]
      exact ⟨rfl, h⟩
  | copy n =>
    by_cases hroom : n ≤ maxRoom
    · obtain ⟨rest, hcopy, hrest⟩ := h.handOver hroom
      rw [Chain.serve, hcopy, Bytes.serve, if_neg (Nat.not_lt.mpr hroom)]
      exact ⟨rfl, hrest⟩
    · have hlarge : maxRoom < n := Nat.lt_of_not_le hroom
      rw [Chain.serve, Chain.handOver, makeRoom_of_lt hlarge, Bytes.serve, if_pos hlarge]
      exact ⟨rfl, h⟩

/-- So do calls in a row. Induction on the calls. -/
theorem StandsFor.serveAll (h : c.StandsFor source) (calls : List ChainCall) :
    (ChainCall.serveAll Chain.serve c calls).1 = (ChainCall.serveAll Bytes.serve source calls).1 ∧
      (ChainCall.serveAll Chain.serve c calls).2.StandsFor
        (ChainCall.serveAll Bytes.serve source calls).2 := by
  induction calls generalizing c source with
  | nil => exact ⟨rfl, h⟩
  | cons call calls ih =>
    obtain ⟨hgiven, hrest⟩ := h.serve call
    obtain ⟨hothers, hlast⟩ := ih hrest
    refine ⟨?_, hlast⟩
    show (c.serve call).1 :: (ChainCall.serveAll Chain.serve (c.serve call).2 calls).1 = _
    rw [hgiven, hothers]
    rfl

end Chain

end Groupcast
