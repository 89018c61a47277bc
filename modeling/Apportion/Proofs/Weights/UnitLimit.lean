import Mathlib
import Apportion.Proofs.Weights.Checks
import Apportion.Proofs.Weights.DoubleShares

namespace Apportion.Proofs.Weights.UnitLimit

open Apportion.Number.Arithmetic
open Apportion.Weights.Normalization
open Apportion.Proofs.Outcomes
open Apportion.Proofs.Number.Doubles
open Apportion.Proofs.Weights.CapPasses
open Apportion.Proofs.Weights.Checks
open Apportion.Proofs.Weights.DoubleShares

section Shares

variable {α : Type} [Scalar α] {limit : α} {weights : List α}

theorem plainShares_of_ne_zero (hsum : ((boundedTotal weights).2 == 0) = false) :
    plainShares weights = (boundedTotal weights).1.map (· / (boundedTotal weights).2) :=
  if_neg (Bool.eq_false_iff.mp hsum)

theorem cappedShares_eq_plainShares (hsum : ((boundedTotal weights).2 == 0) = false)
    (hroom : ¬limit * Scalar.ofNat weights.length ≤ 1)
    (hle : ∀ share ∈ plainShares weights, share ≤ limit) :
    cappedShares limit weights = plainShares weights := by
  rw [cappedShares_eq_applyLimit hsum hroom, ← plainShares_of_ne_zero hsum, applyLimit]
  exact if_pos (List.all_eq_true.mpr fun share hmem => decide_eq_true (hle share hmem))

end Shares

theorem not_mul_ofNat_le_one {count : ℕ} (hcount : 2 ≤ count) :
    ¬(1 : Float) * Scalar.ofNat count ≤ 1 := by
  have hcast : (2 : ℚ) ≤ count := by exact_mod_cast hcount
  intro hle
  cases hfinite : (Float.ofNat count).isFinite with
  | true =>
      have htwo : 2 ≤ value (Float.ofNat count) :=
        ((gives_ofNat count).nearest hfinite).ge_of_ge
          (by simpa using (representable_natCast (show 2 < 2 ^ 53 by norm_num)).onGrid) hcast
      have hgives := gives_mul value_one.1 hfinite
      rw [value_one.2, one_mul] at hgives
      obtain ⟨hproduct, hvalue⟩ := hgives.value_eq (representable_value hfinite)
      have hsmall := (le_iff_value_le hproduct value_one.1).mp hle
      rw [hvalue, value_one.2] at hsmall
      linarith
  | false =>
      -- A count that no double holds is infinite, and so is its product with one.
      have hproduct : ((1 : Float) * Float.ofNat count).toModel.unpack = .infinity .positive := by
        change (Float.Model.pack (.mul _ (1 : Float).toModel.unpack
          (Float.ofNat count).toModel.unpack)).unpack = _
        rw [unpack_ofNat_of_not_isFinite hfinite]
        rfl
      have hmodel : ((1 : Float) * Float.ofNat count).toModel.unpack.le
          (1 : Float).toModel.unpack = true := decide_eq_true_iff.mp hle
      rw [hproduct, not_positive_infinity_le (canonical_of_isFinite value_one.1).1] at hmodel
      cases hmodel

section Doubles

variable {weights : List Float}

theorem plainShares_singleton {weight : Float} (hweight : IsSize weight) (hpos : 0 < value weight) :
    plainShares [weight] = [1] := by
  have hgives := gives_add value_zero.1 hweight.isFinite
  rw [value_zero.2, zero_add] at hgives
  obtain ⟨hfinite, hvalue⟩ := hgives.value_eq (representable_value hweight.isFinite)
  have hsame : 0 + weight = weight :=
    eq_of_value_eq hfinite hweight.isFinite hvalue (hvalue.trans_ne hpos.ne')
  have htotal : boundedTotal [weight] = ([weight], weight) := by
    have hsum : total [weight] = weight := hsame
    rw [boundedTotal, hsum]
    exact if_pos hweight.isFinite
  have hsum : ((boundedTotal [weight]).2 == 0) = false :=
    boundedTotal_ne_zero (List.forall_mem_singleton.mpr hweight)
      ⟨weight, List.mem_singleton_self weight, hpos⟩
  rw [plainShares_of_ne_zero hsum, htotal, List.map_singleton,
    double_div_self hweight.isFinite hpos.ne']

theorem cappedShares_one (hweights : ∀ weight ∈ weights, IsSize weight)
    (hsome : ∃ weight ∈ weights, 0 < value weight) :
    cappedShares 1 weights = plainShares weights := by
  have hsum := boundedTotal_ne_zero hweights hsome
  match weights with
  | [] =>
      obtain ⟨weight, hmem, -⟩ := hsome
      exact absurd hmem List.not_mem_nil
  | [weight] =>
      have hpos : 0 < value weight := by simpa using hsome
      have hfull : (1 : Float) * Scalar.ofNat 1 ≤ 1 := by decide +kernel
      have hequal : cappedShares 1 [weight] = equalShares 1 :=
        cappedShares_eq_equalShares hsum hfull
      rw [plainShares_singleton (hweights weight (List.mem_singleton_self weight)) hpos, hequal]
      decide +kernel
  | first :: second :: others =>
      refine cappedShares_eq_plainShares hsum (not_mul_ofNat_le_one (by simp)) ?_
      rw [plainShares_of_ne_zero hsum]
      intro share hmem
      have hwithin := baseShares_within hweights hsum share hmem
      rw [le_iff_value_le hwithin.isFinite value_one.1, value_one.2]
      exact hwithin.le_high

/-- Under the limit one the shares are the plain ones, the same doubles bit by bit, also where the
sum of the weights is too large for a double. -/
theorem normalizeCapped_one
    (hweights : ∀ weight ∈ weights, weight.isFinite = true ∧ ¬weight < 0)
    (hsome : ∃ weight ∈ weights, (weight == 0) = false) :
    ∃ shares, normalizeCapped weights 1 = .ok shares ∧
      Apportion.Weights.Normalization.normalize weights = .ok shares := by
  have hsizes : ∀ weight ∈ weights, IsSize weight :=
    fun weight hmem => isSize_iff.mpr (hweights weight hmem)
  have hpos : ∃ weight ∈ weights, 0 < value weight := by
    obtain ⟨weight, hmem, hne⟩ := hsome
    have hsize := hsizes weight hmem
    rw [Bool.eq_false_iff, ne_eq, beq_iff_value_eq hsize.isFinite value_zero.1,
      value_zero.2] at hne
    exact ⟨weight, hmem, lt_of_le_of_ne hsize.nonneg (Ne.symm hne)⟩
  refine ⟨plainShares weights, ?_, ?_⟩
  · exact normalizeCapped_eq_ok_iff.mpr
      ⟨⟨by decide +kernel, by decide +kernel⟩, hweights, cappedShares_one hsizes hpos⟩
  · rw [Apportion.Weights.Normalization.normalize,
      requireUsable_eq_ok_iff.mpr hweights, ok_bind, pure_eq_ok]

theorem normalizeCapped_one_scaled :
    (total [1.5e308, 1.5e308, 5e-324, (-0.0 : Float)]).isFinite = false ∧
      ∃ shares, normalizeCapped ([1.5e308, 1.5e308, 5e-324, -0.0] : List Float) 1 = .ok shares ∧
        Apportion.Weights.Normalization.normalize [1.5e308, 1.5e308, 5e-324, -0.0] = .ok shares :=
  ⟨by decide +kernel, normalizeCapped_one (by decide +kernel) (by decide +kernel)⟩

/-- Weights that are all zero are the exception. -/
example : cappedShares 1 [0, (0 : Float)] = [0.5, 0.5] ∧ plainShares [0, (0 : Float)] = [0, 0] := by
  decide +kernel

end Doubles

end Apportion.Proofs.Weights.UnitLimit
