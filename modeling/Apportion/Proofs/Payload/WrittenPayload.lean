import Apportion.Proofs.Payload.Layouts

namespace Apportion.Proofs.Payload.WrittenPayload

open Apportion.Bytes
open Apportion.MessagePack.Heads
open Apportion.Payload.Decoding
open Apportion.Payload.Descriptors
open Apportion.Payload.Encoding
open Apportion.Tensor.Arrays
open Apportion.Tensor.Elements
open Apportion.Tensor.Shapes
open Apportion.Proofs.MessagePack.Spellings
open Apportion.Proofs.MessagePack.Delimiting
open Apportion.Proofs.Payload.Layouts

/-- The lengths in the payload of an array fit the widest forms that MessagePack has for them. -/
structure Writable (array : TypedArray) : Prop where
  formed : array.WellFormed
  byteCount_lt : array.buffer.toBytes.length < 2 ^ 32
  rank_lt : array.rank < 2 ^ 32
  dimension_lt : ∀ dimension ∈ array.shape, dimension < UInt64.size

theorem length_descriptor (type : ElementType) : (ofText (descriptor type)).length < 32 := by
  cases type <;> decide

def writtenEntries (array : TypedArray) : List Entry :=
  [.isArray true, .descriptor (descriptor array.type), .other, .shape array.shape,
  .data array.buffer.toBytes]

theorem numbersForm_writeShape {shape : Shape} (hrank : shape.length < 2 ^ 32)
    (hbound : ∀ dimension ∈ shape, dimension < UInt64.size) :
    NumbersForm shape (writeShape shape) := by
  have hpieces : List.Forall₂ (fun dimension piece => Spelled (.integer (dimension : Nat)) piece)
      shape (shape.map writeNatural) := by
    rw [List.forall₂_map_right_iff, List.forall₂_same]
    intro dimension hmem
    exact spelled_writeNatural (hbound dimension hmem)
  exact .array (spelled_writeArrayHead hrank) hpieces

theorem laidOut_encode {array : TypedArray} (hwritable : Writable array) :
    LaidOut (writtenEntries array) (encode array) := by
  have hkey : ∀ key ∈ ["nd", "type", "kind", "shape", "data"],
      StringForm (ofText key) (writeKey key) := by
    have hlength : ∀ key ∈ ["nd", "type", "kind", "shape", "data"],
        (ofText key).length < 2 ^ 32 := by decide
    exact fun key hmem => stringForm_writeBinary (hlength key hmem)
  have hforms : List.Forall₂ EntryForm (writtenEntries array)
      [writeKey "nd" ++ writeBoolean true,
        writeKey "type" ++ writeShortText (descriptor array.type),
        writeKey "kind" ++ writeBinary [], writeKey "shape" ++ writeShape array.shape,
        writeKey "data" ++ writeBinary array.buffer.toBytes] := by
    refine .cons (.isArray (hkey _ (by simp)) (spelled_writeBoolean true)) ?_
    refine .cons (.descriptor (hkey _ (by simp))
      (stringForm_writeShortText (length_descriptor _))) ?_
    refine .cons (.other (hkey "kind" (by simp)) (by decide)
      (.string (stringForm_writeBinary (by decide)))) ?_
    refine .cons (.shape (hkey _ (by simp))
      (numbersForm_writeShape hwritable.rank_lt hwritable.dimension_lt)) ?_
    exact .cons (.data (hkey _ (by simp)) (.string (stringForm_writeBinary hwritable.byteCount_lt)))
      .nil
  have hhead : Spelled (.map (writtenEntries array).length) (writeMapHead 5) :=
    spelled_writeMapHead (show 5 < 16 by decide)
  have hlaid := LaidOut.map hhead hforms
  simpa only [encode, List.flatten_cons, List.flatten_nil, List.append_nil, List.append_assoc]
    using hlaid

theorem decode_encode_append {array : TypedArray} (hwritable : Writable array)
    (rest : List UInt8) : decode (encode array ++ rest) = .ok array := by
  have hread := readParts_whole (laidOut_encode hwritable) rest
  have hparts : (lastEntries (writtenEntries array)).parts =
      .ok ⟨true, descriptor array.type, some array.shape, array.buffer.toBytes⟩ :=
    parts_lastEntries rfl rfl rfl
  exact decode_array hwritable.formed (hread.trans hparts)

end Apportion.Proofs.Payload.WrittenPayload
