import Apportion.Tensor.Elements

namespace Apportion.Payload.Descriptors

open Apportion.Tensor.Elements

def code : ElementType → String
  | .float16 => "f2"
  | .float32 => "f4"
  | .float64 => "f8"
  | .uint8 => "u1"
  | .int8 => "i1"
  | .int16 => "i2"
  | .int32 => "i4"
  | .int64 => "i8"
  | .bool => "b1"

/-- The descriptor that a type is written with. Types of one byte are marked as having no order,
and the others as having their lowest byte first. -/
def descriptor (type : ElementType) : String :=
  (if type.width = 1 then "|" else "<") ++ code type

/-- The order that a mark stands for. The mark `=` means the order in which this library writes. -/
def order? : Char → Option ByteOrder
  | '<' => some .little
  | '|' => some .little
  | '=' => some .little
  | '>' => some .big
  | _ => none

def ofCode? (text : List Char) : Option ElementType :=
  ElementType.all.find? fun type => (code type).toList == text

def parse? (text : String) : Option (ElementType × ByteOrder) :=
  match text.toList with
  | [] => none
  | mark :: rest =>
      match order? mark with
      | some order => (ofCode? rest).map (·, order)
      | none => (ofCode? (mark :: rest)).map (·, .little)

theorem parse?_descriptor (type : ElementType) :
    parse? (descriptor type) = some (type, .little) := by
  cases type <;> decide

def unknownText (text : String) : String :=
  s!"numpy type `{text}` has no supported element type"

end Apportion.Payload.Descriptors
