import Apportion.Tensor.Arrays

namespace Apportion.Tensor.Axes

open Apportion.Tensor.Elements
open Apportion.Tensor.Buffers
open Apportion.Tensor.Shapes
open Apportion.Tensor.Arrays

/-- How the axes of an array are rearranged. -/
inductive Layout where
  | same
  | reversed
  | inverted (axis : Nat)
  deriving DecidableEq, Repr

def Layout.shape : Layout → Shape → Shape
  | .same, shape => shape
  | .reversed, shape => shape.reverse
  | .inverted _, shape => shape

/-- Where the element that gets the given indices came from, in an array of the given shape. -/
def Layout.source : Layout → Shape → List Nat → List Nat
  | .same, _, indices => indices
  | .reversed, _, indices => indices.reverse
  | .inverted axis, shape, indices =>
      indices.modify axis fun index => shape.getD axis 0 - 1 - index

theorem Layout.count_shape (layout : Layout) (shape : Shape) :
    (layout.shape shape).count = shape.count := by
  cases layout with
  | same => rfl
  | inverted axis => rfl
  | reversed => exact shape.count_reverse

def rearrange (layout : Layout) (array : TypedArray) : TypedArray where
  shape := layout.shape array.shape
  buffer :=
    { type := array.buffer.type
      elements := (List.range array.length).map fun position =>
        let indices := (layout.shape array.shape).indices position
        let source := array.shape.offset (layout.source array.shape indices)
        array.buffer.elements.getD source array.buffer.type.zero }

theorem wellFormed_rearrange (layout : Layout) {array : TypedArray}
    (formed : array.WellFormed) : (rearrange layout array).WellFormed := by
  have count : (rearrange layout array).shape.count = array.shape.count :=
    layout.count_shape array.shape
  have length : (rearrange layout array).buffer.length = array.buffer.length := by
    simp [rearrange, Buffer.length, TypedArray.length]
  exact (length.trans formed).trans count.symm

/-- The extents can be multiplied, those of length 0 left out, without passing the largest signed
64-bit integer. -/
def isAddressable (shape : Shape) : Bool :=
  Shape.count (shape.filter (· != 0)) ≤ 0x7fffffffffffffff

def exchange (type : ElementType) (layout : Layout) (array : TypedArray) :
    Except ArrayError TypedArray :=
  if array.type ≠ type then .error (.typeMismatch array.type type)
  else if isAddressable array.shape then .ok (rearrange layout array)
  else .error .overflow

end Apportion.Tensor.Axes
