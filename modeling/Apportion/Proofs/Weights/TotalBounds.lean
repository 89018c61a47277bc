import Mathlib
import Apportion.Proofs.Weights.DenseShares
import Apportion.Proofs.Weights.UnitLimit

namespace Apportion.Proofs.Weights.TotalBounds

open Apportion.Number.Arithmetic
open Apportion.Weights.Normalization
open Apportion.Proofs.Outcomes
open Apportion.Proofs.Number.Doubles
open Apportion.Proofs.Weights.CapPasses
open Apportion.Proofs.Weights.Checks
open Apportion.Proofs.Weights.DenseShares
open Apportion.Proofs.Weights.DoubleShares
open Apportion.Proofs.Weights.UnitLimit

/-- What the total of weights is good for, whether they are scaled down for it or not. -/
structure Bounds (weights scaled : List Float) (sum : Float) : Prop where
  isFinite : sum.isFinite = true
  zero_iff : (sum == 0) = true ↔ ∀ weight ∈ weights, (weight == 0) = true
  length_eq : scaled.length = weights.length
  between : ∀ weight ∈ scaled, 0 ≤ weight ∧ weight ≤ sum
  /-- Nothing is scaled down without need. -/
  unscaled : (total weights).isFinite = true → scaled = weights ∧ sum = total weights

/-- The share is a number, and a part of one. -/
structure IsPart (share : Float) : Prop where
  isFinite : share.isFinite = true
  nonneg : 0 ≤ share
  le_one : share ≤ 1

section

variable {x y : Float} {weights : List Float}

theorem zero_le_iff (hx : x.isFinite = true) : 0 ≤ x ↔ 0 ≤ value x := by
  rw [le_iff_value_le value_zero.1 hx, value_zero.2]

theorem beq_zero_iff_value (hx : x.isFinite = true) : (x == 0) = true ↔ value x = 0 := by
  rw [beq_iff_value_eq hx value_zero.1, value_zero.2]

theorem isPart_of_within (hwithin : Within 0 1 x) : IsPart x where
  isFinite := hwithin.isFinite
  nonneg := (zero_le_iff hwithin.isFinite).mpr hwithin.low_le
  le_one := by
    rw [le_iff_value_le hwithin.isFinite value_one.1, value_one.2]
    exact hwithin.le_high

theorem total_eq_zero (hzero : ∀ weight ∈ weights, weight.isFinite = true ∧ value weight = 0) :
    (total weights).isFinite = true ∧ value (total weights) = 0 := by
  suffices hfold : ∀ {start : Float}, start.isFinite = true ∧ value start = 0 →
      (weights.foldl (· + ·) start).isFinite = true ∧ value (weights.foldl (· + ·) start) = 0 from
    hfold value_zero
  induction weights with
  | nil => exact id
  | cons weight weights ih =>
      rintro start ⟨hstart, hstartZero⟩
      obtain ⟨hweight, hweightZero⟩ := hzero weight List.mem_cons_self
      have hgives := gives_add hstart hweight
      rw [hstartZero, hweightZero, add_zero] at hgives
      exact ih (fun other hmem => hzero other (List.mem_cons_of_mem weight hmem))
        (hgives.value_eq representable_zero)

theorem boundedTotal_of_isFinite (hfinite : (total weights).isFinite = true) :
    boundedTotal weights = (weights, total weights) :=
  if_pos hfinite

theorem boundedTotal_eq_zero_iff (hweights : ∀ weight ∈ weights, IsSize weight) :
    ((boundedTotal weights).2 == 0) = true ↔ ∀ weight ∈ weights, (weight == 0) = true := by
  constructor
  · intro hsum weight hmem
    by_contra hne
    have hsize := hweights weight hmem
    rw [beq_zero_iff_value hsize.isFinite] at hne
    have hpos : 0 < value weight := lt_of_le_of_ne hsize.nonneg (Ne.symm hne)
    have hsome := boundedTotal_ne_zero hweights ⟨weight, hmem, hpos⟩
    rw [hsum] at hsome
    cases hsome
  · intro hzero
    have hvalues : ∀ weight ∈ weights, weight.isFinite = true ∧ value weight = 0 := by
      intro weight hmem
      have hfinite := (hweights weight hmem).isFinite
      exact ⟨hfinite, (beq_zero_iff_value hfinite).mp (hzero weight hmem)⟩
    obtain ⟨hfinite, hsum⟩ := total_eq_zero hvalues
    rw [boundedTotal_of_isFinite hfinite]
    exact (beq_zero_iff_value hfinite).mpr hsum

theorem bounds_boundedTotal (hweights : ∀ weight ∈ weights, IsSize weight) :
    Bounds weights (boundedTotal weights).1 (boundedTotal weights).2 := by
  have htotalled := totalled_boundedTotal hweights
  constructor
  case isFinite => exact htotalled.isFinite
  case zero_iff => exact boundedTotal_eq_zero_iff hweights
  case length_eq => exact length_boundedTotal weights
  case between =>
    intro weight hmem
    have hsize := htotalled.isSize weight hmem
    refine ⟨(zero_le_iff hsize.isFinite).mpr hsize.nonneg, ?_⟩
    exact (le_iff_value_le hsize.isFinite htotalled.isFinite).mpr (htotalled.le weight hmem)
  case unscaled =>
    intro hfinite
    rw [boundedTotal_of_isFinite hfinite]
    exact ⟨rfl, rfl⟩

theorem plainShares_isPart (hweights : ∀ weight ∈ weights, IsSize weight) :
    ∀ share ∈ plainShares weights, IsPart share := by
  have htotalled := totalled_boundedTotal hweights
  intro share hmem
  cases hsum : (boundedTotal weights).2 == 0 with
  | true =>
      -- The weights are returned as they are, and none of them is larger than zero.
      have hshares : plainShares weights = (boundedTotal weights).1 := if_pos hsum
      rw [hshares] at hmem
      have hsize := htotalled.isSize share hmem
      have hle := htotalled.le share hmem
      rw [(beq_zero_iff_value htotalled.isFinite).mp hsum] at hle
      exact isPart_of_within ⟨hsize.isFinite, hsize.nonneg, hle.trans zero_le_one⟩
  | false =>
      rw [plainShares_of_ne_zero hsum] at hmem
      exact isPart_of_within (baseShares_within hweights hsum share hmem)

/-- The total of weights that can be used is finite and bounds each of them, zero only if all of
them are, and their shares are parts of one. -/
theorem boundedTotal_bounds
    (hweights : ∀ weight ∈ weights, weight.isFinite = true ∧ ¬weight < 0) :
    Bounds weights (boundedTotal weights).1 (boundedTotal weights).2 ∧
      ∃ shares, Apportion.Weights.Normalization.normalize weights = .ok shares ∧
        shares.length = weights.length ∧ ∀ share ∈ shares, IsPart share := by
  have hsizes : ∀ weight ∈ weights, IsSize weight :=
    fun weight hmem => isSize_iff.mpr (hweights weight hmem)
  have hnormalize :
      Apportion.Weights.Normalization.normalize weights = .ok (plainShares weights) := by
    rw [Apportion.Weights.Normalization.normalize, requireUsable_eq_ok_iff.mpr hweights, ok_bind,
      pure_eq_ok]
  exact ⟨bounds_boundedTotal hsizes, _, hnormalize, length_plainShares weights,
    plainShares_isPart hsizes⟩

def extremes : List Float :=
  [1.7976931348623157e308, 1.7976931348623157e308, 5e-324, -0.0]

theorem boundedTotal_bounds_extremes :
    (∀ weight ∈ extremes, weight.isFinite = true ∧ ¬weight < 0) ∧
      (total extremes).isFinite = false ∧
      Bounds extremes (boundedTotal extremes).1 (boundedTotal extremes).2 ∧
      ∃ shares, Apportion.Weights.Normalization.normalize extremes = .ok shares ∧
        shares.length = 4 ∧ ∀ share ∈ shares, IsPart share := by
  have hweights : ∀ weight ∈ extremes, weight.isFinite = true ∧ ¬weight < 0 := by
    decide +kernel
  exact ⟨hweights, by decide +kernel, boundedTotal_bounds hweights⟩

end

end Apportion.Proofs.Weights.TotalBounds
