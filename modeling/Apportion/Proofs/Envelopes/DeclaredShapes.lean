import Apportion.Proofs.Envelopes.RoundTrip

namespace Apportion.Proofs.Envelopes.DeclaredShapes

open Apportion.Envelopes.Packing
open Apportion.Tensor.Casting
open Apportion.Tensor.Elements
open Apportion.Tensor.Buffers
open Apportion.Tensor.Shapes
open Apportion.Tensor.Arrays
open Apportion.Proofs.Outcomes
open Apportion.Proofs.Payload.WrittenPayload

def convertElement (source target : ElementType) (element : source.Element) : target.Element :=
  if same : source = target then same ▸ element else toElement target (ofElement source element)

/-- The elements of an array one by one as elements of the given type, in the given shape. -/
def laidOutAs (type : ElementType) (shape : Shape) (array : TypedArray) : TypedArray where
  shape := shape
  buffer := ⟨type, array.buffer.elements.map (convertElement array.type type)⟩

/-- The envelope is refused for what it holds, and not because its type is not supported. -/
def UndecodableFor (cause : OpenError) (outcome : Except OpenError TypedArray) : Prop :=
  outcome = .error cause ∧ cause.isUnsupported = false

/-- What becomes of an array under a declared type and a declared shape. -/
structure OpensAs (array : TypedArray) (type : ElementType) (shape : Shape)
    (outcome : Except OpenError TypedArray) : Prop where
  placeholder : shape = [0] → array.length ≤ 1 →
    outcome = .ok (array.cast type) ∧ array.cast type = laidOutAs type array.shape array
  notFlat : shape = [0] → 1 < array.length → UndecodableFor (.notFlat array.length) outcome
  laidOut : shape ≠ [0] → shape.count = array.length → outcome = .ok (laidOutAs type shape array)
  countMismatch : shape ≠ [0] → shape.count ≠ array.length →
    UndecodableFor (.countMismatch shape array.length) outcome

theorem cast_eq_map (type : ElementType) (buffer : Buffer) :
    Tensor.Casting.cast type buffer =
      ⟨type, buffer.elements.map (convertElement buffer.type type)⟩ := by
  obtain ⟨source, elements⟩ := buffer
  by_cases hsame : source = type
  · subst hsame
    have hkept : convertElement source source = id := by
      funext element
      exact dif_pos rfl
    rw [Tensor.Casting.cast, if_pos rfl, hkept, List.map_id]
  · have hconverted : convertElement source type =
        fun element => toElement type (ofElement source element) := by
      funext element
      exact dif_neg hsame
    rw [Tensor.Casting.cast, if_neg hsame, hconverted]

theorem cast_eq_laidOutAs (type : ElementType) (array : TypedArray) :
    array.cast type = laidOutAs type array.shape array := by
  rw [TypedArray.cast, cast_eq_map]
  rfl

theorem toArray_written {array : TypedArray} (hwritable : Writable array) (type : ElementType)
    (shape : Shape) :
    toArray ⟨(ofArray array).buffer, type, shape⟩ =
      applyShape shape array >>= fun shaped => .ok (shaped.cast type) := by
  have hbytes : Base64.decode (Bytes.ofText (ofArray array).buffer) =
      .ok (Payload.Encoding.encode array) := Proofs.Base64.decode_encode _
  have hpayload : Payload.Decoding.decode (Payload.Encoding.encode array) = .ok array := by
    have hdecoded := decode_encode_append hwritable []
    rwa [List.append_nil] at hdecoded
  simp only [toArray, hbytes, hpayload, mapError_ok, ok_bind, pure_eq_ok]

theorem isPlaceholder_iff {shape : Shape} : shape.isPlaceholder = true ↔ shape = [0] := by
  simp [Shape.isPlaceholder]

theorem applyShape_placeholder (array : TypedArray) :
    applyShape [0] array =
      if 1 < array.length then .error (.notFlat array.length) else .ok array :=
  if_pos (isPlaceholder_iff.mpr rfl)

theorem applyShape_other {shape : Shape} (hshape : shape ≠ [0]) (array : TypedArray) :
    applyShape shape array =
      if shape.count = array.length then .ok ⟨shape, array.buffer⟩
      else .error (.countMismatch shape array.length) := by
  rw [applyShape, if_neg (mt isPlaceholder_iff.mp hshape), TypedArray.reshape, TypedArray.ofBuffer]
  by_cases hcount : shape.count = array.length
  · have hfits : array.buffer.length = shape.count := hcount.symm
    rw [if_pos hcount, if_pos hfits, mapError_ok]
  · have hmisfits : array.buffer.length ≠ shape.count := fun hfits => hcount hfits.symm
    rw [if_neg hcount, if_neg hmisfits, mapError_error]

/-- An array's payload can be taken out under every declared type and shape: under `[0]` if it has
at most one element, with the shape that it has itself, and under any other shape that demands as
many elements as it has, with the declared one. -/
theorem toArray_opensAs {array : TypedArray} (hwritable : Writable array) (type : ElementType)
    (shape : Shape) :
    OpensAs array type shape (toArray ⟨(ofArray array).buffer, type, shape⟩) := by
  rw [toArray_written hwritable]
  constructor
  case placeholder =>
    rintro rfl hfew
    rw [applyShape_placeholder, if_neg (Nat.not_lt.mpr hfew), ok_bind]
    exact ⟨rfl, cast_eq_laidOutAs type array⟩
  case notFlat =>
    rintro rfl hmany
    rw [applyShape_placeholder, if_pos hmany, error_bind]
    exact ⟨rfl, rfl⟩
  case laidOut =>
    intro hshape hcount
    rw [applyShape_other hshape, if_pos hcount, ok_bind, cast_eq_laidOutAs]
    rfl
  case countMismatch =>
    intro hshape hcount
    rw [applyShape_other hshape, if_neg hcount, error_bind]
    exact ⟨rfl, rfl⟩

def measurements : TypedArray :=
  ⟨[2, 2], ⟨.float64, [0x3ffe666666666666, 0xbffe666666666666, 0x7ff8000000000000,
    0x4202a05f20000000]⟩⟩

theorem toArray_opensAs_measurements :
    Writable measurements ∧
      toArray ⟨(ofArray measurements).buffer, .int32, [4, 1]⟩ =
        .ok ⟨[4, 1], ⟨.int32, [1, -1, 0, 2147483647]⟩⟩ ∧
      UndecodableFor (.notFlat 4) (toArray ⟨(ofArray measurements).buffer, .bool, [0]⟩) ∧
      UndecodableFor (.countMismatch [] 4)
        (toArray ⟨(ofArray measurements).buffer, .bool, []⟩) := by
  have hwritable : Writable measurements := by
    refine ⟨rfl, by decide, by decide, ?_⟩
    intro dimension hmem
    rcases List.mem_pair.mp hmem with rfl | rfl <;> decide
  refine ⟨hwritable, ?_, ?_, ?_⟩
  · exact (toArray_opensAs hwritable .int32 [4, 1]).laidOut (by decide) rfl
  · exact (toArray_opensAs hwritable .bool [0]).notFlat rfl (by decide)
  · exact (toArray_opensAs hwritable .bool []).countMismatch (by decide) (by decide)

end Apportion.Proofs.Envelopes.DeclaredShapes
