import Apportion.Tensor.Buffers

/-!
Converting elements to another type. An element is first read as a double, an integer or a truth
value, and then written in the other type: a double loses its fraction and stops at the bounds of an
integer type, an integer wraps around in a narrower one, and everything but zero is true.
-/

namespace Apportion.Tensor.Casting

open Apportion.Number.Binary
open Apportion.Tensor.Elements
open Apportion.Tensor.Buffers

/-- The value of an element without its type. -/
inductive ElementValue where
  /-- A double, given by its word. -/
  | real (word : Nat)
  | integer (value : Int)
  | truth (value : Bool)
  deriving DecidableEq, Repr

/-- The value of an element. Every value of a narrower floating-point type is a double. -/
def ofElement : (type : ElementType) → type.Element → ElementValue
  | .float16, word => .real (convert half double word.toNat)
  | .float32, word => .real (convert single double word.toNat)
  | .float64, word => .real word.toNat
  | .uint8, value => .integer value.toNat
  | .int8, value => .integer value.toInt
  | .int16, value => .integer value.toInt
  | .int32, value => .integer value.toInt
  | .int64, value => .integer value.toInt
  | .bool, value => .truth value

/-- The integer within bounds that is nearest to the whole part of a double; 0 for a double that is
not a number. -/
def saturate (low high : Int) (word : Nat) : Int :=
  max low (min high (double.wholePart UInt64.size word))

def toInteger (low high : Int) : ElementValue → Int
  | .real word => saturate low high word
  | .integer value => value
  | .truth value => if value then 1 else 0

def toDouble : ElementValue → Nat
  | .real word => word
  | .integer value => double.ofInt value
  | .truth value => double.ofInt (if value then 1 else 0)

def toSingle : ElementValue → Nat
  | .real word => convert double single word
  | .integer value => single.ofInt value
  | .truth value => single.ofInt (if value then 1 else 0)

/-- The word of the half that is nearest to the double of a value. The double is rounded once. A
conversion that goes over single precision first, or drops the low half of the double's word, can
differ from this in the last place next to a tie. -/
def toHalf (value : ElementValue) : Nat :=
  convert double half (toDouble value)

def toTruth : ElementValue → Bool
  | .real word => !double.isZero word
  | .integer value => value != 0
  | .truth value => value

def toElement : (type : ElementType) → ElementValue → type.Element
  | .float16, value => UInt16.ofNat (toHalf value)
  | .float32, value => UInt32.ofNat (toSingle value)
  | .float64, value => UInt64.ofNat (toDouble value)
  | .uint8, value => UInt8.ofInt (toInteger 0 255 value)
  | .int8, value => Int8.ofInt (toInteger Int8.minValue.toInt Int8.maxValue.toInt value)
  | .int16, value => Int16.ofInt (toInteger Int16.minValue.toInt Int16.maxValue.toInt value)
  | .int32, value => Int32.ofInt (toInteger Int32.minValue.toInt Int32.maxValue.toInt value)
  | .int64, value => Int64.ofInt (toInteger Int64.minValue.toInt Int64.maxValue.toInt value)
  | .bool, value => toTruth value

/-- Convert every element of a buffer to a type. A buffer that has the type already is left as it
is. -/
def cast (type : ElementType) (buffer : Buffer) : Buffer :=
  if buffer.type = type then buffer
  else ⟨type, buffer.elements.map fun element => toElement type (ofElement buffer.type element)⟩

def doubles (buffer : Buffer) : List UInt64 :=
  buffer.elements.map fun element => UInt64.ofNat (toDouble (ofElement buffer.type element))

@[simp]
theorem length_cast (type : ElementType) (buffer : Buffer) :
    (cast type buffer).length = buffer.length := by
  unfold cast
  split <;> simp [Buffer.length]

end Apportion.Tensor.Casting
