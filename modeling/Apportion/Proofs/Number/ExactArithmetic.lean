import Mathlib.Algebra.BigOperators.Group.List.Basic
import Mathlib.Data.Rat.Floor
import Apportion.Number.Arithmetic

namespace Apportion.Proofs.Number.ExactArithmetic

open Apportion.Number.Arithmetic

@[simp]
theorem ofNat_eq_cast (count : Nat) : (Scalar.ofNat count : Rat) = count := rfl

@[simp]
theorem isFinite_eq_true (x : Rat) : Scalar.isFinite x = true := rfl

@[simp]
theorem truncate_eq_floor (x : Rat) : Scalar.truncate x = ⌊x⌋₊ := rfl

theorem foldl_add_eq (values : List Rat) (start : Rat) :
    values.foldl (· + ·) start = start + values.sum := by
  induction values generalizing start with
  | nil => simp
  | cons value values ih => rw [List.foldl_cons, ih, List.sum_cons, add_assoc]

@[simp]
theorem total_eq_sum (values : List Rat) : total values = values.sum := by
  change values.foldl (· + ·) (0 : Rat) = values.sum
  rw [foldl_add_eq, zero_add]

theorem roundUp_eq_ceil {x : Rat} (hx : 0 ≤ x) : roundUp x = ⌈x⌉₊ := by
  unfold roundUp
  rw [truncate_eq_floor, ofNat_eq_cast]
  split
  · rename_i habove
    have hlt : ⌊x⌋₊ < ⌈x⌉₊ := Nat.lt_ceil.mpr habove
    have hle : ⌈x⌉₊ ≤ ⌊x⌋₊ + 1 := Nat.ceil_le_floor_add_one x
    omega
  · rename_i hnot
    have heq : (⌊x⌋₊ : Rat) = x := le_antisymm (Nat.floor_le hx) (not_lt.mp hnot)
    rw [← heq, Nat.floor_natCast, Nat.ceil_natCast]

end Apportion.Proofs.Number.ExactArithmetic
