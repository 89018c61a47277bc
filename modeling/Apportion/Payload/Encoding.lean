import Apportion.MessagePack.Heads
import Apportion.Payload.Descriptors
import Apportion.Tensor.Arrays

namespace Apportion.Payload.Encoding

open Apportion.Bytes
open Apportion.MessagePack.Heads
open Apportion.Payload.Descriptors
open Apportion.Tensor.Shapes
open Apportion.Tensor.Arrays

def writeKey (key : String) : List UInt8 :=
  writeBinary (ofText key)

def writeShape (shape : Shape) : List UInt8 :=
  writeArrayHead shape.length ++ shape.flatMap writeNatural

def encode (array : TypedArray) : List UInt8 :=
  writeMapHead 5 ++
    (writeKey "nd" ++ writeBoolean true) ++
    (writeKey "type" ++ writeShortText (descriptor array.type)) ++
    (writeKey "kind" ++ writeBinary []) ++
    (writeKey "shape" ++ writeShape array.shape) ++
    (writeKey "data" ++ writeBinary array.buffer.toBytes)

end Apportion.Payload.Encoding
