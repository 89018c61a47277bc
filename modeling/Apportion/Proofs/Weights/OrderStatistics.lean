import Mathlib.Data.List.GetD
import Mathlib.Tactic.Linarith
import Apportion.Proofs.Number.ExactArithmetic
import Apportion.Weights.Quantile

namespace Apportion.Proofs.Weights.OrderStatistics

open Apportion.Weights.Quantile
open Apportion.Proofs.Number.ExactArithmetic

@[simp]
theorem length_ascending (values : List Rat) : (ascending values).length = values.length := by
  simp [ascending]

theorem ascending_perm (values : List Rat) : (ascending values).Perm values :=
  List.mergeSort_perm values _

theorem pairwise_ascending (values : List Rat) : (ascending values).Pairwise (· ≤ ·) := by
  have hsorted := @List.pairwise_mergeSort Rat (fun left right => decide (left ≤ right))
    (by simpa using fun a b c => le_trans) (by simpa using le_total) values
  refine hsorted.imp ?_
  intro left right hle
  exact of_decide_eq_true hle

def statistic (values : List Rat) (place : Nat) : Rat :=
  (ascending values).getD place 0

theorem statistic_eq_getElem {values : List Rat} {place : Nat} (hplace : place < values.length) :
    statistic values place = (ascending values).get ⟨place, by simpa using hplace⟩ := by
  have hlength : place < (ascending values).length := by simpa using hplace
  exact List.getD_eq_getElem _ _ hlength

theorem statistic_mono {values : List Rat} {lower upper : Nat} (hle : lower ≤ upper)
    (hupper : upper < values.length) : statistic values lower ≤ statistic values upper := by
  rw [statistic_eq_getElem hupper, statistic_eq_getElem (hle.trans_lt hupper)]
  rcases hle.lt_or_eq with hlt | rfl
  · exact List.pairwise_iff_getElem.mp (pairwise_ascending values) _ _ _ _ hlt
  · exact le_rfl

theorem statistic_mem {values : List Rat} {place : Nat} (hplace : place < values.length) :
    statistic values place ∈ values := by
  rw [statistic_eq_getElem hplace]
  exact (ascending_perm values).mem_iff.mp (List.get_mem _ _)

/-- The place in a list that a fraction of the way through it falls on. -/
def position (values : List Rat) (fraction : Rat) : Rat :=
  fraction * ((values.length - 1 : Nat) : Rat)

theorem quantile_eq {values : List Rat} {fraction : Rat} (hfraction : 0 ≤ fraction) :
    quantile values fraction =
      statistic values ⌊position values fraction⌋₊ +
        (statistic values ⌈position values fraction⌉₊ -
          statistic values ⌊position values fraction⌋₊) *
          (position values fraction - ⌊position values fraction⌋₊) := by
  have hposition : 0 ≤ position values fraction := mul_nonneg hfraction (Nat.cast_nonneg _)
  rw [← roundUp_eq_ceil hposition]
  rfl

theorem ceil_position_lt {values : List Rat} {fraction : Rat} (hne : values ≠ [])
    (hone : fraction ≤ 1) : ⌈position values fraction⌉₊ < values.length := by
  have hlength : 0 < values.length := List.length_pos_of_ne_nil hne
  have hle : ⌈position values fraction⌉₊ ≤ values.length - 1 := by
    rw [Nat.ceil_le]
    exact mul_le_of_le_one_left (Nat.cast_nonneg _) hone
  omega

theorem ceil_position_le {values : List Rat} {fraction : Rat} {before : Nat} (hne : values ≠ [])
    (hfraction : 0 ≤ fraction) (hroom : fraction ≤ (before : Rat) / values.length) :
    ⌈position values fraction⌉₊ ≤ before := by
  have hlength : (0 : Rat) < values.length := by
    exact_mod_cast List.length_pos_of_ne_nil hne
  have hshort : ((values.length - 1 : Nat) : Rat) ≤ values.length := by
    exact_mod_cast Nat.sub_le values.length 1
  rw [Nat.ceil_le]
  calc
    position values fraction ≤ fraction * values.length :=
      mul_le_mul_of_nonneg_left hshort hfraction
    _ ≤ before := (le_div_iff₀ hlength).mp hroom

theorem quantile_le_statistic_ceil {values : List Rat} {fraction : Rat} (hne : values ≠ [])
    (hfraction : 0 ≤ fraction) (hone : fraction ≤ 1) :
    quantile values fraction ≤ statistic values ⌈position values fraction⌉₊ := by
  have hposition : 0 ≤ position values fraction := mul_nonneg hfraction (Nat.cast_nonneg _)
  have hmono := statistic_mono (Nat.floor_le_ceil (position values fraction))
    (ceil_position_lt hne hone)
  have hoffset : position values fraction - ⌊position values fraction⌋₊ ≤ 1 := by
    linarith [Nat.lt_floor_add_one (position values fraction)]
  have hstep := mul_le_of_le_one_right (sub_nonneg.mpr hmono) hoffset
  rw [quantile_eq hfraction]
  linarith

theorem statistic_floor_le_quantile {values : List Rat} {fraction : Rat} (hne : values ≠ [])
    (hfraction : 0 ≤ fraction) (hone : fraction ≤ 1) :
    statistic values ⌊position values fraction⌋₊ ≤ quantile values fraction := by
  have hposition : 0 ≤ position values fraction := mul_nonneg hfraction (Nat.cast_nonneg _)
  have hmono := statistic_mono (Nat.floor_le_ceil (position values fraction))
    (ceil_position_lt hne hone)
  rw [quantile_eq hfraction]
  exact le_add_of_nonneg_right
    (mul_nonneg (sub_nonneg.mpr hmono) (sub_nonneg.mpr (Nat.floor_le hposition)))

theorem position_mono (values : List Rat) {lower upper : Rat} (hle : lower ≤ upper) :
    position values lower ≤ position values upper :=
  mul_le_mul_of_nonneg_right hle (Nat.cast_nonneg _)

theorem quantile_mono {values : List Rat} {lower upper : Rat} (hne : values ≠ [])
    (hlower : 0 ≤ lower) (hle : lower ≤ upper) (hupper : upper ≤ 1) :
    quantile values lower ≤ quantile values upper := by
  have hplace := position_mono values hle
  have hceil := ceil_position_lt hne hupper
  rcases (Nat.floor_le_floor hplace).lt_or_eq with hlt | hsame
  · -- An element of the list lies between the two.
    have hbetween : ⌈position values lower⌉₊ ≤ ⌊position values upper⌋₊ :=
      (Nat.ceil_le_floor_add_one _).trans hlt
    calc
      quantile values lower ≤ statistic values ⌈position values lower⌉₊ :=
        quantile_le_statistic_ceil hne hlower (hle.trans hupper)
      _ ≤ statistic values ⌊position values upper⌋₊ :=
        statistic_mono hbetween ((Nat.floor_le_ceil _).trans_lt hceil)
      _ ≤ quantile values upper := statistic_floor_le_quantile hne (hlower.trans hle) hupper
  · -- Both lie above the same element, the larger one with the steeper way up from it.
    have hsteeper : statistic values ⌈position values lower⌉₊ ≤
        statistic values ⌈position values upper⌉₊ := statistic_mono (Nat.ceil_le_ceil hplace) hceil
    have hrise := statistic_mono (Nat.floor_le_ceil (position values upper)) hceil
    have hoffset : 0 ≤ position values lower - ⌊position values lower⌋₊ :=
      sub_nonneg.mpr (Nat.floor_le (mul_nonneg hlower (Nat.cast_nonneg _)))
    rw [← hsame] at hrise
    rw [quantile_eq hlower, quantile_eq (hlower.trans hle), ← hsame]
    refine add_le_add_right (mul_le_mul ?_ ?_ hoffset (sub_nonneg.mpr hrise)) _
    · exact sub_le_sub_right hsteeper _
    · exact sub_le_sub_right hplace _

theorem quantile_le_of_forall_le {values : List Rat} {fraction bound : Rat} (hne : values ≠ [])
    (hfraction : 0 ≤ fraction) (hone : fraction ≤ 1) (hbound : ∀ value ∈ values, value ≤ bound) :
    quantile values fraction ≤ bound :=
  (quantile_le_statistic_ceil hne hfraction hone).trans
    (hbound _ (statistic_mem (ceil_position_lt hne hone)))

/-- As many elements reach the quantile as there are from the neighbour above it on. -/
theorem length_sub_ceil_le_countP {values : List Rat} {fraction : Rat} (hne : values ≠ [])
    (hfraction : 0 ≤ fraction) (hone : fraction ≤ 1) :
    values.length - ⌈position values fraction⌉₊ ≤
      values.countP fun value => decide (quantile values fraction ≤ value) := by
  set place := ⌈position values fraction⌉₊ with hplace
  have habove : ∀ value ∈ (ascending values).drop place,
      decide (quantile values fraction ≤ value) = true := by
    intro value hmem
    obtain ⟨offset, hoffset, rfl⟩ := List.getElem_of_mem hmem
    rw [List.length_drop, length_ascending] at hoffset
    have hindex : place + offset < values.length := by omega
    have hmono := statistic_mono (Nat.le_add_right place offset) hindex
    rw [statistic_eq_getElem hindex] at hmono
    rw [List.getElem_drop]
    exact decide_eq_true ((quantile_le_statistic_ceil hne hfraction hone).trans hmono)
  rw [← (ascending_perm values).countP_eq]
  calc
    values.length - place = ((ascending values).drop place).length := by
      rw [List.length_drop, length_ascending]
    _ = ((ascending values).drop place).countP
          fun value => decide (quantile values fraction ≤ value) :=
      (List.countP_eq_length.mpr habove).symm
    _ ≤ (ascending values).countP fun value => decide (quantile values fraction ≤ value) :=
      (List.drop_sublist place _).countP_le

theorem quantile_zero_le {values : List Rat} {value : Rat} (hmem : value ∈ values) :
    quantile values 0 ≤ value := by
  have hcount := length_sub_ceil_le_countP (List.ne_nil_of_mem hmem) le_rfl zero_le_one
  rw [position, zero_mul, Nat.ceil_zero, Nat.sub_zero] at hcount
  have hall := List.countP_eq_length.mp (le_antisymm List.countP_le_length hcount)
  exact of_decide_eq_true (hall value hmem)

end Apportion.Proofs.Weights.OrderStatistics
