import Apportion.Bytes
import Apportion.Tensor.Elements

namespace Apportion.Tensor.Buffers

open Apportion.Bytes
open Apportion.Tensor.Elements

structure Buffer where
  type : ElementType
  elements : List type.Element

structure PartialElement where
  byteCount : Nat
  type : ElementType
  deriving DecidableEq, Repr

def PartialElement.message (fault : PartialElement) : String :=
  let name := fault.type.name
  s!"Decode error: {fault.byteCount} payload bytes is not a multiple of the {name} width " ++
    s!"({fault.type.width})"

def readElement (type : ElementType) (order : ByteOrder) (piece : List UInt8) : type.Element :=
  type.ofWord (ofLittleEndian (if order = .big then piece.reverse else piece))

namespace Buffer

def length (buffer : Buffer) : Nat :=
  buffer.elements.length

def isEmpty (buffer : Buffer) : Bool :=
  buffer.elements.isEmpty

def zeros (type : ElementType) (count : Nat) : Buffer :=
  ⟨type, List.replicate count type.zero⟩

def toBytes (buffer : Buffer) : List UInt8 :=
  buffer.elements.flatMap fun element =>
    littleEndian buffer.type.width (buffer.type.toWord element)

def ofBytes (type : ElementType) (order : ByteOrder) (bytes : List UInt8) :
    Except PartialElement Buffer :=
  if bytes.length % type.width = 0 then
    let pieces := chunks type.width (bytes.length / type.width) bytes
    .ok ⟨type, pieces.map (readElement type order)⟩
  else .error ⟨bytes.length, type⟩

def equal (left right : Buffer) : Bool :=
  if same : right.type = left.type then
    left.elements.length == right.elements.length &&
      (left.elements.zip (same ▸ right.elements)).all fun pair =>
        left.type.equal pair.1 pair.2
  else false

end Buffer

end Apportion.Tensor.Buffers
