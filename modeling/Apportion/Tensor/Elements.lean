import Apportion.Number.Binary

/-!
The nine element types of arrays and their elements. Floating-point elements are kept as the words
that hold them, so that a value that is not a number keeps all its bits.
-/

namespace Apportion.Tensor.Elements

open Apportion.Number.Binary

inductive ElementType where
  | float16
  | float32
  | float64
  | uint8
  | int8
  | int16
  | int32
  | int64
  | bool
  deriving DecidableEq, Repr

namespace ElementType

def all : List ElementType :=
  [.float16, .float32, .float64, .uint8, .int8, .int16, .int32, .int64, .bool]

def name : ElementType → String
  | .float16 => "float16"
  | .float32 => "float32"
  | .float64 => "float64"
  | .uint8 => "uint8"
  | .int8 => "int8"
  | .int16 => "int16"
  | .int32 => "int32"
  | .int64 => "int64"
  | .bool => "bool"

/-- The type of a name, which must be written exactly as `name` writes it. -/
def ofName? (name : String) : Option ElementType :=
  all.find? (·.name == name)

def width : ElementType → Nat
  | .float16 => 2
  | .float32 => 4
  | .float64 => 8
  | .uint8 => 1
  | .int8 => 1
  | .int16 => 2
  | .int32 => 4
  | .int64 => 8
  | .bool => 1

def format? : ElementType → Option BinaryFormat
  | .float16 => some half
  | .float32 => some single
  | .float64 => some double
  | _ => none

def isFloat (type : ElementType) : Bool :=
  type.format?.isSome

abbrev Element : ElementType → Type
  | .float16 => UInt16
  | .float32 => UInt32
  | .float64 => UInt64
  | .uint8 => UInt8
  | .int8 => Int8
  | .int16 => Int16
  | .int32 => Int32
  | .int64 => Int64
  | .bool => Bool

def toWord : (type : ElementType) → type.Element → Nat
  | .float16, word => word.toNat
  | .float32, word => word.toNat
  | .float64, word => word.toNat
  | .uint8, value => value.toNat
  | .int8, value => value.toUInt8.toNat
  | .int16, value => value.toUInt16.toNat
  | .int32, value => value.toUInt32.toNat
  | .int64, value => value.toUInt64.toNat
  | .bool, value => value.toNat

/-- The element that a word stores. Every word but 0 stores a true element. -/
def ofWord : (type : ElementType) → Nat → type.Element
  | .float16, word => UInt16.ofNat word
  | .float32, word => UInt32.ofNat word
  | .float64, word => UInt64.ofNat word
  | .uint8, word => UInt8.ofNat word
  | .int8, word => (UInt8.ofNat word).toInt8
  | .int16, word => (UInt16.ofNat word).toInt16
  | .int32, word => (UInt32.ofNat word).toInt32
  | .int64, word => (UInt64.ofNat word).toInt64
  | .bool, word => word != 0

def zero (type : ElementType) : type.Element :=
  type.ofWord 0

/-- Whether two elements are equal as values: the two zeros of a floating-point type are, and a
value that is not a number equals nothing. -/
def equal (type : ElementType) (left right : type.Element) : Bool :=
  match type.format? with
  | some format => format.equal (type.toWord left) (type.toWord right)
  | none => type.toWord left == type.toWord right

theorem ofWord_toWord (type : ElementType) (element : type.Element) :
    type.ofWord (type.toWord element) = element := by
  cases type with
  | bool => cases element <;> rfl
  | float16 => exact UInt16.ofNat_toNat
  | float32 => exact UInt32.ofNat_toNat
  | float64 => exact UInt64.ofNat_toNat
  | uint8 => exact UInt8.ofNat_toNat
  | int8 => simp [ofWord, toWord]
  | int16 => simp [ofWord, toWord]
  | int32 => simp [ofWord, toWord]
  | int64 => simp [ofWord, toWord]

theorem ofName?_name (type : ElementType) : ofName? type.name = some type := by
  cases type <;> decide

end ElementType

inductive ByteOrder where
  | little
  | big
  deriving DecidableEq, Repr

end Apportion.Tensor.Elements
