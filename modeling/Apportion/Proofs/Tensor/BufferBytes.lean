import Apportion.Proofs.Bytes
import Apportion.Tensor.Buffers

namespace Apportion.Proofs.Tensor.BufferBytes

open Apportion.Bytes
open Apportion.Proofs.Bytes
open Apportion.Tensor.Buffers
open Apportion.Tensor.Elements

theorem width_pos (type : ElementType) : 0 < type.width := by
  cases type <;> decide

theorem toWord_lt (type : ElementType) (element : type.Element) :
    type.toWord element < 256 ^ type.width := by
  cases type with
  | float16 => exact UInt16.toNat_lt element
  | float32 => exact UInt32.toNat_lt element
  | float64 => exact UInt64.toNat_lt element
  | uint8 => exact UInt8.toNat_lt element
  | int8 => exact UInt8.toNat_lt element.toUInt8
  | int16 => exact UInt16.toNat_lt element.toUInt16
  | int32 => exact UInt32.toNat_lt element.toUInt32
  | int64 => exact UInt64.toNat_lt element.toUInt64
  | bool => cases element <;> decide

theorem readElement_littleEndian (type : ElementType) (element : type.Element) :
    readElement type .little (littleEndian type.width (type.toWord element)) = element := by
  change type.ofWord (ofLittleEndian (littleEndian type.width (type.toWord element))) = element
  rw [ofLittleEndian_littleEndian, Nat.mod_eq_of_lt (toWord_lt type element),
    ElementType.ofWord_toWord]

theorem length_toBytes (buffer : Buffer) :
    buffer.toBytes.length = buffer.length * buffer.type.width := by
  simp [Buffer.toBytes, Buffer.length, List.length_flatMap]

theorem ofBytes_toBytes (buffer : Buffer) :
    Buffer.ofBytes buffer.type .little buffer.toBytes = .ok buffer := by
  have hwhole : buffer.toBytes.length % buffer.type.width = 0 := by
    rw [length_toBytes]
    exact Nat.mul_mod_left _ _
  have hcount : buffer.toBytes.length / buffer.type.width = buffer.elements.length := by
    rw [length_toBytes]
    exact Nat.mul_div_cancel _ (width_pos buffer.type)
  have hpieces : chunks buffer.type.width buffer.elements.length buffer.toBytes =
      buffer.elements.map fun element =>
        littleEndian buffer.type.width (buffer.type.toWord element) :=
    chunks_flatMap buffer.elements fun element => length_littleEndian _ _
  have helements : (buffer.elements.map fun element =>
      littleEndian buffer.type.width (buffer.type.toWord element)).map
        (readElement buffer.type .little) = buffer.elements := by
    rw [List.map_map]
    exact List.map_id'' (readElement_littleEndian buffer.type) buffer.elements
  rw [Buffer.ofBytes, if_pos hwhole, hcount, hpieces]
  exact congrArg (fun elements => Except.ok (⟨buffer.type, elements⟩ : Buffer)) helements

end Apportion.Proofs.Tensor.BufferBytes
