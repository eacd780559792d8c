import Groupcast.Catalogue.Payload
import Groupcast.Proofs.Payload.RoundTrip

/-!
# Payloads of the catalogue are read exactly

Counters and blobs are read back, and are written as they were read. So there are registries that
keep what is asked of them for payloads.
-/

namespace Groupcast.Catalogue

/-- A counter is written as its number. -/
theorem Datum.result_emit_counter (kind : UInt8) (value : UInt32) :
    (CustomPayload.emit (Datum.counter kind value)).result
      = .ok (Bytes.bigEndian 4 value.toNat) :=
  Emission.result_piece _

theorem Datum.counter_readsBack {r : PayloadRegistry Datum} {kind : UInt8} {blank : UInt32}
    (hfind : r.blank kind = .ok (.custom (.counter kind blank))) (value : UInt32) :
    CustomPayload.ReadsBack r (.counter kind value) := by
  refine ⟨.counter kind blank, hfind, fun w hw => ?_⟩
  rw [result_emit_counter] at hw
  cases hw
  exact (Reading.restores_u32 value).map (Datum.counter kind)

/-- A blob is read back if it shows its whole buffer. -/
theorem Datum.blob_readsBack {r : PayloadRegistry Datum} {kind : UInt8} {blank view : View}
    (hfind : r.blank kind = .ok (.custom (.blob kind blank))) (hwhole : view.norm = view) :
    CustomPayload.ReadsBack r (.blob kind view) := by
  refine ⟨.blob kind blank, hfind, fun w hw => ?_⟩
  have hview := (View.restores_reading hw).map (Datum.blob kind)
  rwa [hwhole] at hview

theorem reachable_addPayloads {r r' : PayloadRegistry Datum} (hreach : r.Reachable)
    (hadd : addPayloads r = .ok r') : r'.Reachable := by
  unfold addPayloads at hadd
  cases hcounter : accepted (r.add 40 (.counter 40 0)) with
  | error error => simp [hcounter, bind, Except.bind] at hadd
  | ok r₁ =>
    obtain rfl := eq_of_accepted hcounter
    simp only [hcounter, bind, Except.bind] at hadd
    obtain rfl := eq_of_accepted hadd
    exact (hreach.add _ _).add _ _

/-- The registry of both payloads. -/
def payloadRegistry : PayloadRegistry Datum where
  payloads := ⟨PayloadRegistry.builtin.payloads.entries ++
    [(40, .custom (.counter 40 0)), (41, .custom (.blob 41 View.empty))]⟩

theorem payloadRegistry_reachable : payloadRegistry.Reachable := by
  have hadd : addPayloads PayloadRegistry.builtin = .ok payloadRegistry := rfl
  exact reachable_addPayloads .builtin hadd

theorem payloadRegistry_exact : payloadRegistry.Exact := by
  intro kind blank hfind source s rest h
  have hmem := KindTable.mem_of_get?_eq_some (PayloadRegistry.blank_eq_ok.mp hfind)
  have hentry : (kind, blank) = (40, .counter 40 0) ∨
      (kind, blank) = (41, .blob 41 View.empty) := by
    simpa [payloadRegistry, PayloadRegistry.builtin] using hmem
  rcases hentry with hentry | hentry
  · cases hentry
    rcases Reading.run_map_eq_ok.mp h with ⟨value, hvalue, rfl⟩
    exact ⟨⟨rfl, Datum.counter_readsBack hfind value⟩, _, Datum.result_emit_counter 40 value,
      Reading.run_u32_eq_ok hvalue⟩
  · cases hentry
    rcases Reading.run_map_eq_ok.mp h with ⟨view, hview, rfl⟩
    rcases View.reading_exact _ _ _ hview with ⟨hwhole, hwritten⟩
    exact ⟨⟨rfl, Datum.blob_readsBack hfind hwhole⟩, hwritten⟩

end Groupcast.Catalogue
