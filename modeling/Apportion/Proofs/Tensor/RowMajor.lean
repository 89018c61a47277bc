import Mathlib.Data.List.Forall2
import Mathlib.Data.List.Basic
import Apportion.Tensor.Axes

namespace Apportion.Proofs.Tensor.RowMajor

open Apportion.Tensor.Shapes
open Apportion.Tensor.Axes

/-- One index for each axis, each smaller than the extent of its axis. -/
def Inside (shape : Shape) (indices : List Nat) : Prop :=
  List.Forall₂ (fun index extent => index < extent) indices shape

/-- The indices of all elements of a shape in lexicographic order. -/
def multiIndices : Shape → List (List Nat)
  | [] => [[]]
  | extent :: inner => (List.range extent).flatMap fun index =>
      (multiIndices inner).map (index :: ·)

variable {shape : Shape} {indices : List Nat} {position : Nat}

theorem offset_lt (hinside : Inside shape indices) : shape.offset indices < shape.count := by
  induction hinside with
  | nil => exact Nat.one_pos
  | @cons index extent indices shape hlt _ ih =>
      calc
        index * Shape.count shape + Shape.offset shape indices
            < index * Shape.count shape + Shape.count shape := Nat.add_lt_add_left ih _
        _ = (index + 1) * Shape.count shape := (Nat.succ_mul index _).symm
        _ ≤ extent * Shape.count shape := Nat.mul_le_mul_right _ hlt

theorem indices_cons (extent index : Nat) (hlt : position < Shape.count shape) :
    Shape.indices (extent :: shape) (index * Shape.count shape + position) =
      index :: shape.indices position := by
  have hindex : (index * Shape.count shape + position) / Shape.count shape = index := by
    rw [Nat.add_comm, Nat.add_mul_div_right _ _ (Nat.zero_lt_of_lt hlt), Nat.div_eq_of_lt hlt,
      Nat.zero_add]
  rw [Shape.indices, hindex, Nat.mul_add_mod_self_right, Nat.mod_eq_of_lt hlt]

theorem indices_offset (hinside : Inside shape indices) :
    shape.indices (shape.offset indices) = indices := by
  induction hinside with
  | nil => rfl
  | @cons index extent indices shape _ hothers ih =>
      rw [Shape.offset, indices_cons extent index (offset_lt hothers), ih]

theorem count_pos_of_lt {extent : Nat} (hlt : position < Shape.count (extent :: shape)) :
    0 < shape.count :=
  Nat.pos_of_mul_pos_left (Nat.zero_lt_of_lt hlt)

theorem inside_indices (hlt : position < shape.count) : Inside shape (shape.indices position) := by
  induction shape generalizing position with
  | nil => exact .nil
  | cons extent shape ih =>
      have hpos := count_pos_of_lt hlt
      exact .cons ((Nat.div_lt_iff_lt_mul hpos).mpr hlt) (ih (Nat.mod_lt _ hpos))

theorem offset_indices (hlt : position < shape.count) :
    shape.offset (shape.indices position) = position := by
  induction shape generalizing position with
  | nil => exact (Nat.lt_one_iff.mp hlt).symm
  | cons extent shape ih =>
      rw [Shape.indices, Shape.offset, ih (Nat.mod_lt _ (count_pos_of_lt hlt)), Nat.div_add_mod']

theorem map_range_mul {β : Type} (outer inner : Nat) (f : Nat → β) :
    (List.range (outer * inner)).map f =
      (List.range outer).flatMap fun index =>
        (List.range inner).map fun position => f (index * inner + position) := by
  induction outer with
  | zero => simp
  | succ outer ih =>
      rw [Nat.succ_mul, List.range_add, List.map_append, ih, List.range_succ, List.flatMap_append]
      simp

/-- Row-major order is the lexicographic order of the indices. -/
theorem multiIndices_eq (shape : Shape) :
    multiIndices shape = (List.range shape.count).map shape.indices := by
  induction shape with
  | nil => rfl
  | cons extent shape ih =>
      rw [multiIndices, Shape.count, map_range_mul]
      refine List.flatMap_congr fun index _ => ?_
      rw [ih, List.map_map]
      refine List.map_congr_left fun position hmem => ?_
      exact (indices_cons extent index (List.mem_range.mp hmem)).symm

theorem inside_reverse (hinside : Inside shape indices) : Inside shape.reverse indices.reverse :=
  List.rel_reverse hinside

theorem inside_inverted (hinside : Inside shape indices) (axis : Nat) :
    Inside shape (indices.modify axis fun index => shape.getD axis 0 - 1 - index) := by
  induction hinside generalizing axis with
  | nil =>
      rw [List.modify_nil]
      exact .nil
  | @cons index extent indices shape hlt hothers ih =>
      cases axis with
      | zero =>
          refine .cons ?_ hothers
          change extent - 1 - index < extent
          omega
      | succ axis => exact .cons hlt (ih axis)

theorem inverted_inverted (hinside : Inside shape indices) (axis : Nat) :
    (indices.modify axis fun index => shape.getD axis 0 - 1 - index).modify axis
      (fun index => shape.getD axis 0 - 1 - index) = indices := by
  induction hinside generalizing axis with
  | nil => rw [List.modify_nil, List.modify_nil]
  | @cons index extent indices shape hlt hothers ih =>
      cases axis with
      | zero =>
          have hback : extent - 1 - (extent - 1 - index) = index := by omega
          exact congrArg (· :: indices) hback
      | succ axis => exact congrArg (index :: ·) (ih axis)

theorem inside_source (layout : Layout) (hinside : Inside (layout.shape shape) indices) :
    Inside shape (layout.source shape indices) := by
  cases layout with
  | same => exact hinside
  | reversed =>
      have hreversed := inside_reverse hinside
      rwa [Layout.shape, List.reverse_reverse] at hreversed
  | inverted axis => exact inside_inverted hinside axis

theorem shape_shape (layout : Layout) (shape : Shape) :
    layout.shape (layout.shape shape) = shape := by
  cases layout with
  | same => rfl
  | reversed => exact List.reverse_reverse shape
  | inverted axis => rfl

theorem source_source (layout : Layout) (hinside : Inside shape indices) :
    layout.source shape (layout.source (layout.shape shape) indices) = indices := by
  cases layout with
  | same => rfl
  | reversed => exact List.reverse_reverse indices
  | inverted axis => exact inverted_inverted hinside axis

end Apportion.Proofs.Tensor.RowMajor
