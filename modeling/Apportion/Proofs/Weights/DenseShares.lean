import Mathlib
import Apportion.Proofs.Sparse.LastWrites
import Apportion.Proofs.Weights.CappedNormalization
import Apportion.Proofs.Weights.FirstRefusal
import Apportion.Weights.Dense

namespace Apportion.Proofs.Weights.DenseShares

open Apportion.Number.Arithmetic
open Apportion.Sparse.Universe
open Apportion.Sparse.Scatter
open Apportion.Weights.Refusal
open Apportion.Weights.Normalization
open Apportion.Weights.Dense
open Apportion.Proofs.Outcomes
open Apportion.Proofs.Number.Doubles
open Apportion.Proofs.Sparse.LastWrites
open Apportion.Proofs.Weights.CappedNormalization
open Apportion.Proofs.Weights.Checks
open Apportion.Proofs.Weights.FirstRefusal

def lastWeights (n : Int) (uids : List Int) (weights : List Float) : List Float :=
  lastValues 0 n.toNat (uids.zip weights)

/-- Why weights have no dense vector: they cannot be written out, or the last weight of a position
is no weight. An infinity is reported as such, whatever its sign. -/
inductive Inconvertible (n : Int) (uids : List Int) (weights : List Float) :
    WeightError Float → Prop
  | sparse {cause : SparseError} (hscatter : scatter 0 n uids weights = .error cause) :
      Inconvertible n uids weights (.sparse cause)
  | notFinite {uid : Nat} {weight : Float}
      (hscatter : ∀ cause, scatter 0 n uids weights ≠ .error cause)
      (hfirst : FirstAt Unusable (lastWeights n uids weights) uid weight)
      (hinfinite : weight.isFinite = false) : Inconvertible n uids weights (.notFinite uid weight)
  | negativeWeight {uid : Nat} {weight : Float}
      (hscatter : ∀ cause, scatter 0 n uids weights ≠ .error cause)
      (hfirst : FirstAt Unusable (lastWeights n uids weights) uid weight)
      (hfinite : weight.isFinite = true) (hnegative : weight < 0) :
      Inconvertible n uids weights (.negativeWeight uid weight)

/-- Shares of one in the proportions of the weights. Weights that are all zero stay so. -/
structure SharesOf (weights shares : List Rat) : Prop where
  length : shares.length = weights.length
  zero : (∀ weight ∈ weights, weight = 0) → ∀ share ∈ shares, share = 0
  quotient : (∃ weight ∈ weights, weight ≠ 0) → shares = weights.map (· / weights.sum)
  nonneg : ∀ share ∈ shares, 0 ≤ share
  sum : (∃ weight ∈ weights, weight ≠ 0) → shares.sum = 1
  without : ∀ (position : Nat) weight, weights[position]? = some weight → ¬0 < weight →
    shares[position]? = some 0

/-- The outcomes for submitted doubles: an error for each reason, and otherwise a vector of `n`
shares, which are those of the last weights when sums and quotients are exact. -/
structure Converted (n : Int) (uids : List Int) (weights : List Float) : Prop where
  error_iff : ∀ cause, denseWeights n uids weights = .error cause ↔
    Inconvertible n uids weights cause
  length : ∀ shares, denseWeights n uids weights = .ok shares → shares.length = n.toNat
  shares : (∀ cause, ¬Inconvertible n uids weights cause) →
    ∃ shares, denseWeights n uids (weights.map value) = .ok shares ∧
      SharesOf ((lastWeights n uids weights).map value) shares

section Stages

variable {α : Type} [Scalar α] {n : Int} {uids : List Int} {weights shares : List α}

theorem denseWeights_eq_ok_iff :
    denseWeights n uids weights = .ok shares ↔
      ∃ dense, scatter 0 n uids weights = .ok dense ∧ requireUsable dense = .ok () ∧
        shares = plainShares dense := by
  rw [denseWeights, bind_eq_ok_iff]
  simp only [mapError_eq_ok_iff, Weights.Normalization.normalize, check_bind_eq_ok_iff, pure_eq_ok,
    Except.ok.injEq, eq_comm (a := shares)]

theorem denseWeights_eq_error_iff {cause : WeightError α} :
    denseWeights n uids weights = .error cause ↔
      (∃ fault, scatter 0 n uids weights = .error fault ∧ .sparse fault = cause) ∨
        ∃ dense, scatter 0 n uids weights = .ok dense ∧ requireUsable dense = .error cause := by
  rw [denseWeights]
  cases scatter 0 n uids weights with
  | error fault => simp
  | ok dense => simp [Weights.Normalization.normalize, check_bind_eq_error_iff]

end Stages

theorem weightFault_eq_none (weight : Float) (position : Nat) :
    weightFault (weight, position) = none ↔ ¬Unusable weight := by
  rw [weightFault_eq_none_iff, not_unusable_iff, isSize_iff]
  rfl

theorem weightFault_eq_some_iff {weight : Float} {position : Nat} {cause : WeightError Float} :
    weightFault (weight, position) = some cause ↔
      weight.isFinite = false ∧ .notFinite position weight = cause ∨
        weight.isFinite = true ∧ weight < 0 ∧ .negativeWeight position weight = cause := by
  have hscalar : Scalar.isFinite weight = weight.isFinite := rfl
  unfold weightFault
  rw [hscalar]
  cases weight.isFinite with
  | false => simp
  | true => by_cases hnegative : weight < 0 <;> simp [hnegative]

theorem requireUsable_eq_error_iff_firstAt {weights : List Float} {cause : WeightError Float} :
    requireUsable weights = .error cause ↔
      ∃ position weight, FirstAt Unusable weights position weight ∧
        (weight.isFinite = false ∧ .notFinite position weight = cause ∨
          weight.isFinite = true ∧ weight < 0 ∧ .negativeWeight position weight = cause) := by
  rw [requireUsable_eq_error_iff, findSome?_zipIdx_eq_some_iff weightFault_eq_none]
  simp only [weightFault_eq_some_iff]

theorem plainShares_eq (weights : List Rat) :
    plainShares weights = if weights.sum = 0 then weights else weights.map (· / weights.sum) := by
  unfold plainShares
  rw [boundedTotal_eq]
  simp only [beq_zero_iff]

theorem length_plainShares {α : Type} [Scalar α] (weights : List α) :
    (plainShares weights).length = weights.length := by
  simp only [plainShares]
  split <;> simp

theorem sharesOf_plainShares {weights : List Rat} (hweights : ∀ weight ∈ weights, 0 ≤ weight) :
    SharesOf weights (plainShares weights) := by
  have hsome : (∃ weight ∈ weights, weight ≠ 0) → 0 < weights.sum := by
    rintro ⟨weight, hmem, hne⟩
    exact (lt_of_le_of_ne (hweights weight hmem) hne.symm).trans_le
      (List.single_le_sum hweights weight hmem)
  have hquotient : (∃ weight ∈ weights, weight ≠ 0) →
      plainShares weights = weights.map (· / weights.sum) := by
    intro hweight
    rw [plainShares_eq, if_neg (hsome hweight).ne']
  constructor
  case length => exact length_plainShares weights
  case zero =>
    intro hall
    rw [plainShares_eq, if_pos (List.sum_eq_zero hall)]
    exact hall
  case quotient => exact hquotient
  case nonneg =>
    rw [plainShares_eq]
    split
    · exact hweights
    · intro share hmem
      obtain ⟨weight, hweight, rfl⟩ := List.mem_map.mp hmem
      exact div_nonneg (hweights weight hweight) (List.sum_nonneg hweights)
  case sum =>
    intro hweight
    rw [hquotient hweight, sum_map_div (hsome hweight).ne']
  case without =>
    intro position weight hposition hnot
    have hnone : weight = 0 :=
      le_antisymm (not_lt.mp hnot) (hweights weight (List.mem_of_getElem? hposition))
    rw [plainShares_eq]
    split
    · rw [hposition, hnone]
    · rw [List.getElem?_map, hposition, hnone, Option.map_some, zero_div]

section Conversion

variable {n : Int} {uids : List Int} {weights : List Float}

theorem scatter_eq_lastWeights (hscatter : ∀ cause, scatter 0 n uids weights ≠ .error cause) :
    scatter 0 n uids weights = .ok (lastWeights n uids weights) :=
  scatter_eq_lastValues fun cause hcause => hscatter cause (scatter_eq_error hcause)

theorem denseWeights_eq_error_iff_inconvertible {cause : WeightError Float} :
    denseWeights n uids weights = .error cause ↔ Inconvertible n uids weights cause := by
  rw [denseWeights_eq_error_iff]
  simp only [requireUsable_eq_error_iff_firstAt]
  constructor
  · rintro (⟨fault, hscatter, rfl⟩ | ⟨dense, hscatter, uid, weight, hfirst, hfault⟩)
    · exact .sparse hscatter
    · obtain ⟨-, rfl⟩ := scatter_eq_ok_iff.mp hscatter
      have hnone : ∀ cause, scatter 0 n uids weights ≠ .error cause := by
        rw [hscatter]
        nofun
      obtain ⟨hinfinite, rfl⟩ | ⟨hfinite, hnegative, rfl⟩ := hfault
      · exact .notFinite hnone hfirst hinfinite
      · exact .negativeWeight hnone hfirst hfinite hnegative
  · intro hcause
    cases hcause with
    | sparse hscatter => exact .inl ⟨_, hscatter, rfl⟩
    | notFinite hscatter hfirst hinfinite =>
        exact .inr ⟨_, scatter_eq_lastWeights hscatter, _, _, hfirst, .inl ⟨hinfinite, rfl⟩⟩
    | negativeWeight hscatter hfirst hfinite hnegative =>
        exact .inr ⟨_, scatter_eq_lastWeights hscatter, _, _, hfirst,
          .inr ⟨hfinite, hnegative, rfl⟩⟩

theorem length_of_denseWeights {shares : List Float}
    (hshares : denseWeights n uids weights = .ok shares) : shares.length = n.toNat := by
  obtain ⟨dense, hscatter, -, rfl⟩ := denseWeights_eq_ok_iff.mp hshares
  obtain ⟨-, rfl⟩ := scatter_eq_ok_iff.mp hscatter
  rw [length_plainShares, length_lastValues]

theorem isSize_lastWeights (hnone : ∀ cause, ¬Inconvertible n uids weights cause) :
    (∀ cause, ¬Unplaceable n uids weights cause) ∧
      ∀ weight ∈ lastWeights n uids weights, IsSize weight := by
  cases hdense : denseWeights n uids weights with
  | error cause => exact absurd (denseWeights_eq_error_iff_inconvertible.mp hdense) (hnone cause)
  | ok shares =>
      obtain ⟨dense, hscatter, husable, -⟩ := denseWeights_eq_ok_iff.mp hdense
      obtain ⟨hplaceable, rfl⟩ := scatter_eq_ok_iff.mp hscatter
      exact ⟨hplaceable, fun weight hmem =>
        isSize_iff.mpr (requireUsable_eq_ok_iff.mp husable weight hmem)⟩

theorem denseWeights_exact (hnone : ∀ cause, ¬Inconvertible n uids weights cause) :
    denseWeights n uids (weights.map value) =
      .ok (plainShares ((lastWeights n uids weights).map value)) := by
  obtain ⟨hplaceable, hsizes⟩ := isSize_lastWeights hnone
  obtain ⟨hn, hlength, hinside⟩ := forall_not_unplaceable_iff.mp hplaceable
  refine denseWeights_eq_ok_iff.mpr ⟨(lastWeights n uids weights).map value, ?_, ?_, rfl⟩
  · have hexact : ∀ cause, ¬Unplaceable n uids (weights.map value) cause :=
      forall_not_unplaceable_iff.mpr ⟨hn, by rw [List.length_map, hlength], hinside⟩
    rw [scatter_eq_lastValues hexact, lastWeights, map_lastValues, value_zero.2,
      List.zip_map_right]
  · rw [requireUsable_eq_ok_iff]
    intro weight hmem
    obtain ⟨original, horiginal, rfl⟩ := List.mem_map.mp hmem
    exact ⟨rfl, not_lt.mpr (hsizes original horiginal).nonneg⟩

end Conversion

/-- Submitted weights are refused for the first reason that there is, or have the dense vector of
their last weights. -/
theorem denseWeights_converted (n : Int) (uids : List Int) (weights : List Float) :
    Converted n uids weights where
  error_iff _ := denseWeights_eq_error_iff_inconvertible
  length _ hshares := length_of_denseWeights hshares
  shares hnone := by
    refine ⟨_, denseWeights_exact hnone, sharesOf_plainShares ?_⟩
    intro weight hmem
    obtain ⟨original, horiginal, rfl⟩ := List.mem_map.mp hmem
    exact ((isSize_lastWeights hnone).2 original horiginal).nonneg

/-- What is overwritten need not be a weight. -/
example : (denseWeights 3 [1, 2, 1] [0 / 0, 3, (5 : Float)]).toOption =
    some [0, 5 / 8, 3 / 8] := by
  decide +kernel

end Apportion.Proofs.Weights.DenseShares
