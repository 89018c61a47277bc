import Apportion.Proofs.Payload.WrittenPayload

namespace Apportion.Proofs.Payload.SelfDelimiting

open Apportion.Payload.Decoding
open Apportion.Payload.Encoding
open Apportion.Tensor.Arrays
open Apportion.Proofs.Outcomes
open Apportion.Proofs.Payload.Layouts
open Apportion.Proofs.Payload.WrittenPayload

/-- A payload is read as its array whatever follows, and no cut of it is a payload. -/
theorem encode_selfDelimiting {array : TypedArray} (hwritable : Writable array) :
    (∀ rest, decode (encode array ++ rest) = .ok array) ∧
      ∀ count < (encode array).length,
        decode ((encode array).take count) = .error (.unreadable .malformed) := by
  constructor
  · intro rest
    exact decode_encode_append hwritable rest
  · intro count hcount
    rw [decode, readParts_cut (laidOut_encode hwritable) hcount, mapError_error, error_bind]

def truth : TypedArray :=
  .scalar .bool true

theorem encode_selfDelimiting_truth :
    Writable truth ∧ decode (encode truth ++ [0xc1]) = .ok truth ∧
      decode ((encode truth).take 37) = .error (.unreadable .malformed) := by
  have hwritable : Writable truth := by
    refine ⟨rfl, by decide, by decide, ?_⟩
    intro dimension hmem
    exact absurd hmem List.not_mem_nil
  obtain ⟨hwhole, hcut⟩ := encode_selfDelimiting hwritable
  exact ⟨hwritable, hwhole [0xc1], hcut 37 (by decide)⟩

end Apportion.Proofs.Payload.SelfDelimiting
