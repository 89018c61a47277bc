import Apportion.Tensor.Casting
import Apportion.Tensor.Shapes

namespace Apportion.Tensor.Arrays

open Apportion.Tensor.Elements
open Apportion.Tensor.Buffers
open Apportion.Tensor.Shapes

inductive ArrayError where
  | countMismatch (shape : Shape) (count : Nat)
  | overflow
  | typeMismatch (held requested : ElementType)
  deriving DecidableEq, Repr

def ArrayError.message : ArrayError → String
  | .countMismatch shape count =>
      let text := shape.text
      let wanted := shape.count
      s!"Invalid value for `shape`: {text} holds {wanted} elements but the buffer has {count}"
  | .overflow => "Invalid value for `shape`: ShapeError/Overflow: arithmetic overflow"
  | .typeMismatch held requested =>
      "Unsupported element type: array holds " ++ held.name ++ " elements, requested " ++
        requested.name

structure TypedArray where
  shape : Shape
  buffer : Buffer

namespace TypedArray

/-- The buffer holds as many elements as the shape demands. -/
def WellFormed (array : TypedArray) : Prop :=
  array.buffer.length = array.shape.count

def type (array : TypedArray) : ElementType :=
  array.buffer.type

def length (array : TypedArray) : Nat :=
  array.buffer.length

def rank (array : TypedArray) : Nat :=
  array.shape.length

def ofBuffer (shape : Shape) (buffer : Buffer) : Except ArrayError TypedArray :=
  if buffer.length = shape.count then .ok ⟨shape, buffer⟩
  else .error (.countMismatch shape buffer.length)

def vector (buffer : Buffer) : TypedArray where
  shape := [buffer.length]
  buffer := buffer

def scalar (type : ElementType) (element : type.Element) : TypedArray where
  shape := []
  buffer := ⟨type, [element]⟩

def zeros (type : ElementType) (shape : Shape) : TypedArray where
  shape := shape
  buffer := Buffer.zeros type shape.count

def empty (type : ElementType) : TypedArray :=
  zeros type [0]

def reshape (shape : Shape) (array : TypedArray) : Except ArrayError TypedArray :=
  ofBuffer shape array.buffer

def cast (type : ElementType) (array : TypedArray) : TypedArray where
  shape := array.shape
  buffer := Casting.cast type array.buffer

def elements? (type : ElementType) (array : TypedArray) : Option (List type.Element) :=
  if same : array.buffer.type = type then some (same ▸ array.buffer.elements) else none

/-- Whether two arrays have one shape and one type and hold equal values. -/
def equal (left right : TypedArray) : Bool :=
  left.shape == right.shape && left.buffer.equal right.buffer

theorem ofBuffer_eq_ok_iff {shape : Shape} {buffer : Buffer} {array : TypedArray} :
    ofBuffer shape buffer = .ok array ↔ array = ⟨shape, buffer⟩ ∧ array.WellFormed := by
  unfold ofBuffer
  split
  case isTrue h =>
    constructor
    · intro made
      cases made
      exact ⟨rfl, h⟩
    · rintro ⟨rfl, _⟩
      rfl
  case isFalse h =>
    constructor
    · intro made
      cases made
    · rintro ⟨rfl, formed⟩
      exact absurd formed h

theorem wellFormed_vector (buffer : Buffer) : (vector buffer).WellFormed := by
  simp [WellFormed, vector, Shape.count]

theorem wellFormed_scalar (type : ElementType) (element : type.Element) :
    (scalar type element).WellFormed := by
  simp [WellFormed, scalar, Shape.count, Buffer.length]

theorem wellFormed_zeros (type : ElementType) (shape : Shape) :
    (zeros type shape).WellFormed := by
  simp [WellFormed, zeros, Buffer.zeros, Buffer.length]

theorem WellFormed.cast {array : TypedArray} (formed : array.WellFormed) (type : ElementType) :
    (array.cast type).WellFormed :=
  (Casting.length_cast type array.buffer).trans formed

end TypedArray

end Apportion.Tensor.Arrays
