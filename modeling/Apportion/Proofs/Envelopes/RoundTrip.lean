import Apportion.Envelopes.Packing
import Apportion.Proofs.Base64
import Apportion.Proofs.Payload.WrittenPayload

namespace Apportion.Proofs.Envelopes.RoundTrip

open Apportion.Envelopes.Packing
open Apportion.Tensor.Arrays
open Apportion.Tensor.Shapes
open Apportion.Proofs.Outcomes
open Apportion.Proofs.Payload.WrittenPayload

/-- The announced shape leaves an array as it is. A single element and an empty vector are both
announced as `[0]`, which keeps the shape that the payload itself holds. -/
theorem applyShape_announced {array : TypedArray} (hformed : array.WellFormed) :
    applyShape (ofArray array).shape array = .ok array := by
  have hlength : array.length = array.shape.count := hformed
  have hkept : array.length ≤ 1 → applyShape [0] array = .ok array := by
    intro hfew
    have hplaceholder : Shape.isPlaceholder [0] = true := rfl
    rw [applyShape, if_pos hplaceholder, if_neg (Nat.not_lt.mpr hfew)]
  by_cases hscalar : array.shape = []
  · have hshape : (ofArray array).shape = [0] := by simp [ofArray, hscalar]
    rw [hshape]
    apply hkept
    rw [hlength, hscalar]
    exact Nat.le_refl 1
  · have hshape : (ofArray array).shape = array.shape := by simp [ofArray, hscalar]
    rw [hshape]
    by_cases hflat : array.shape = [0]
    · rw [hflat]
      apply hkept
      rw [hlength, hflat, Shape.count, Nat.zero_mul]
      exact Nat.zero_le 1
    · have hother : Shape.isPlaceholder array.shape ≠ true := by simpa [Shape.isPlaceholder]
      have hlaid : array.reshape array.shape = .ok array :=
        TypedArray.ofBuffer_eq_ok_iff.mpr ⟨rfl, hformed⟩
      rw [applyShape, if_neg hother, hlaid, mapError_ok]

theorem cast_own_type (array : TypedArray) : array.cast array.type = array := by
  have hbuffer : Tensor.Casting.cast array.buffer.type array.buffer = array.buffer := if_pos rfl
  rw [TypedArray.cast, TypedArray.type, hbuffer]

/-- An envelope names the type of its array, announces the array's shape, or `[0]` where the array
has no axes, and gives the array back. -/
theorem toArray_ofArray {array : TypedArray} (hwritable : Writable array) :
    (ofArray array).type = array.type ∧
      (ofArray array).shape = (if array.rank = 0 then [0] else array.shape) ∧
      toArray (ofArray array) = .ok array := by
  refine ⟨rfl, ?_, ?_⟩
  · simp [ofArray, TypedArray.rank, List.isEmpty_iff, List.length_eq_zero_iff]
  · have hbytes : Base64.decode (Bytes.ofText (ofArray array).buffer) =
        .ok (Payload.Encoding.encode array) := Proofs.Base64.decode_encode _
    have hpayload : Payload.Decoding.decode (Payload.Encoding.encode array) = .ok array := by
      have hdecoded := decode_encode_append hwritable []
      rwa [List.append_nil] at hdecoded
    have hshaped := applyShape_announced hwritable.formed
    simp only [toArray, hbytes, hpayload, mapError_ok, ok_bind, hshaped, pure_eq_ok]
    exact congrArg Except.ok (cast_own_type array)

def markedNan : TypedArray :=
  .scalar .float64 0xfff8000000000001

theorem toArray_ofArray_markedNan :
    Writable markedNan ∧ (ofArray markedNan).shape = [0] ∧
      toArray (ofArray markedNan) = .ok markedNan := by
  have hwritable : Writable markedNan := by
    refine ⟨rfl, by decide, by decide, ?_⟩
    intro dimension hmem
    exact absurd hmem List.not_mem_nil
  obtain ⟨_, hshape, harray⟩ := toArray_ofArray hwritable
  exact ⟨hwritable, hshape, harray⟩

end Apportion.Proofs.Envelopes.RoundTrip
