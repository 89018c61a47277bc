import Mathlib
import Apportion.Proofs.Number.Doubles
import Apportion.Proofs.Weights.OrderStatistics

namespace Apportion.Proofs.Weights.QuantileCounts

open Apportion.Number.Arithmetic
open Apportion.Weights.Quantile
open Apportion.Proofs.Number.Doubles
open Apportion.Proofs.Number.ExactArithmetic
open Apportion.Proofs.Weights.OrderStatistics

/-- Where the quantile of a list stands among its elements. -/
structure Counted (values : List Rat) (fraction : Rat) : Prop where
  places : Scalar.truncate (fraction * Scalar.ofNat (values.length - 1)) < values.length ∧
    roundUp (fraction * Scalar.ofNat (values.length - 1)) < values.length
  /-- In every increasing order of the elements the quantile lies between these two. -/
  between : ∀ sorted : List Rat, sorted.Perm values → sorted.Pairwise (· ≤ ·) →
    ∃ low high, sorted[⌊fraction * (values.length - 1 : ℕ)⌋₊]? = some low ∧
      sorted[⌈fraction * (values.length - 1 : ℕ)⌉₊]? = some high ∧
        low ≤ quantile values fraction ∧ quantile values fraction ≤ high
  above : values.length - ⌈fraction * (values.length - 1 : ℕ)⌉₊ ≤
    values.countP fun value => decide (quantile values fraction ≤ value)
  below : ⌊fraction * (values.length - 1 : ℕ)⌋₊ + 1 ≤
    values.countP fun value => decide (value ≤ quantile values fraction)
  perm : ∀ others : List Rat, others.Perm values →
    quantile others fraction = quantile values fraction
  mono : ∀ larger, fraction ≤ larger → larger ≤ 1 →
    quantile values fraction ≤ quantile values larger
  /-- A fraction that leaves room for so many elements is reached by so many. -/
  enough : ∀ least : ℕ, 1 ≤ least → least ≤ values.length →
    fraction ≤ ((values.length : Rat) - least) / values.length →
      least ≤ values.countP fun value => decide (quantile values fraction ≤ value)

section

variable {values others sorted : List Rat} {fraction : Rat}

theorem eq_ascending (hperm : sorted.Perm values) (hsorted : sorted.Pairwise (· ≤ ·)) :
    sorted = ascending values :=
  (hperm.trans (ascending_perm values).symm).eq_of_pairwise
    (fun _ _ _ _ => le_antisymm) hsorted (pairwise_ascending values)

theorem quantile_perm (hperm : others.Perm values) (fraction : Rat) :
    quantile others fraction = quantile values fraction := by
  have hsame : ascending others = ascending values :=
    eq_ascending ((ascending_perm others).trans hperm) (pairwise_ascending others)
  rw [quantile, quantile, hsame, hperm.length_eq]

theorem ascending_getElem? {place : ℕ} (hplace : place < values.length) :
    (ascending values)[place]? = some (statistic values place) := by
  have hlength : place < (ascending values).length := by simpa using hplace
  rw [statistic, List.getD_eq_getElem _ _ hlength, List.getElem?_eq_getElem hlength]

theorem floor_position_lt (hne : values ≠ []) (hone : fraction ≤ 1) :
    ⌊position values fraction⌋₊ < values.length :=
  (Nat.floor_le_ceil _).trans_lt (ceil_position_lt hne hone)

theorem floor_lt_countP (hne : values ≠ []) (hfraction : 0 ≤ fraction) (hone : fraction ≤ 1) :
    ⌊position values fraction⌋₊ + 1 ≤
      values.countP fun value => decide (value ≤ quantile values fraction) := by
  set place := ⌊position values fraction⌋₊ with hplace
  have hlt : place < values.length := floor_position_lt hne hone
  have hbelow : ∀ value ∈ (ascending values).take (place + 1),
      decide (value ≤ quantile values fraction) = true := by
    intro value hmem
    obtain ⟨index, hindex, rfl⟩ := List.getElem_of_mem hmem
    rw [List.length_take, length_ascending] at hindex
    have hmono := statistic_mono (show index ≤ place by omega) hlt
    rw [statistic_eq_getElem (show index < values.length by omega)] at hmono
    rw [List.getElem_take]
    exact decide_eq_true (hmono.trans (statistic_floor_le_quantile hne hfraction hone))
  rw [← (ascending_perm values).countP_eq]
  calc
    place + 1 = ((ascending values).take (place + 1)).length := by
      rw [List.length_take, length_ascending]
      omega
    _ = ((ascending values).take (place + 1)).countP
          fun value => decide (value ≤ quantile values fraction) :=
      (List.countP_eq_length.mpr hbelow).symm
    _ ≤ (ascending values).countP fun value => decide (value ≤ quantile values fraction) :=
      (List.take_sublist _ _).countP_le

/-- The quantile of a list that is not empty stands where the fraction says, between neighbours of
the list in increasing order, with the elements counted on both sides. -/
theorem quantile_counted (hne : values ≠ []) (hfraction : 0 ≤ fraction) (hone : fraction ≤ 1) :
    Counted values fraction := by
  have hlower := floor_position_lt hne hone
  have hupper := ceil_position_lt hne hone
  constructor
  case places =>
    have hposition : 0 ≤ position values fraction := mul_nonneg hfraction (Nat.cast_nonneg _)
    refine ⟨hlower, ?_⟩
    rw [← roundUp_eq_ceil hposition] at hupper
    exact hupper
  case between =>
    intro sorted hperm hsorted
    rw [eq_ascending hperm hsorted]
    exact ⟨_, _, ascending_getElem? hlower, ascending_getElem? hupper,
      statistic_floor_le_quantile hne hfraction hone,
      quantile_le_statistic_ceil hne hfraction hone⟩
  case above => exact length_sub_ceil_le_countP hne hfraction hone
  case below => exact floor_lt_countP hne hfraction hone
  case perm => exact fun others hperm => quantile_perm hperm fraction
  case mono => exact fun larger hle hlarger => quantile_mono hne hfraction hle hlarger
  case enough =>
    intro least hpos hleast hroom
    rw [← Nat.cast_sub hleast] at hroom
    have hplace := ceil_position_le hne hfraction hroom
    have hcount := length_sub_ceil_le_countP hne hfraction hone
    omega

theorem quantile_counted_between :
    quantile [4, 1, 2, (2 : Rat)] (3 / 4) = 5 / 2 ∧ Counted [4, 1, 2, 2] (3 / 4) :=
  ⟨by cbv, quantile_counted (by decide) (by norm_num) (by norm_num)⟩

end

theorem roundUp_le {x : Float} {bound : ℕ} (hbound : bound < 2 ^ 53) (hx : Within 0 bound x) :
    Scalar.truncate x ≤ bound ∧ roundUp x ≤ bound := by
  have hlarge : (bound : ℚ) < 2 ^ 64 := by exact_mod_cast hbound.trans (by norm_num)
  have hfloor := truncate_of_isSize hx.isSize (hx.le_high.trans_lt hlarge)
  have hle : Scalar.truncate x ≤ bound := by
    rw [hfloor]
    exact Nat.floor_le_of_le hx.le_high
  refine ⟨hle, ?_⟩
  obtain ⟨hfinite, hvalue⟩ := (gives_ofNat (Scalar.truncate x)).value_eq
    (representable_natCast (hle.trans_lt hbound))
  unfold roundUp
  split
  · rename_i hlt
    have hbelow := (lt_iff_value_lt hfinite hx.isFinite).mp hlt
    rw [hvalue] at hbelow
    exact_mod_cast hbelow.trans_le hx.le_high
  · exact hle

/-- In doubles, too, the numbers that a quantile lies between are there to be looked up. -/
theorem quantile_looked_up {values : List Float} {fraction position : Float} (hne : values ≠ [])
    (hlength : values.length ≤ 2 ^ 53) (hfraction : 0 ≤ fraction) (hone : fraction ≤ 1)
    (hposition : position = fraction * Scalar.ofNat (values.length - 1)) :
    ∃ low high, (ascending values)[Scalar.truncate position]? = some low ∧
      (ascending values)[roundUp position]? = some high ∧
        quantile values fraction =
          low + (high - low) * (position - Scalar.ofNat (Scalar.truncate position)) := by
  have hpos := List.length_pos_of_ne_nil hne
  have hlast : values.length - 1 < 2 ^ 53 := by omega
  have hcount := (gives_ofNat (values.length - 1)).value_eq (representable_natCast hlast)
  have hwithin := within_zero_one_iff.mpr ⟨hfraction, hone⟩
  have hbetween : Within 0 (values.length - 1 : ℕ) position := by
    rw [hposition]
    refine (gives_mul hwithin.isFinite hcount.1).within representable_zero
      (representable_natCast hlast) ?_ ?_
    · exact mul_nonneg hwithin.low_le (hcount.2 ▸ Nat.cast_nonneg _)
    · rw [hcount.2]
      exact mul_le_of_le_one_left (Nat.cast_nonneg _) hwithin.le_high
  obtain ⟨hlower, hupper⟩ := roundUp_le hlast hbetween
  have hplaces : ∀ place ≤ values.length - 1, (ascending values)[place]? =
      some ((ascending values).getD place 0) := by
    intro place hplace
    have hinside : place < (ascending values).length := by
      rw [ascending, List.length_mergeSort]
      omega
    rw [List.getD_eq_getElem _ _ hinside, List.getElem?_eq_getElem hinside]
  refine ⟨_, _, hplaces _ hlower, hplaces _ hupper, ?_⟩
  rw [hposition]
  rfl

end Apportion.Proofs.Weights.QuantileCounts
