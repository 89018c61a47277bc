import Apportion.Proofs.Weights.CappedNormalization

/-!
Limited shares, read exactly, as one function of the weight. The function depends on the weights
through their sum, their number and the number of positive ones only, and of two levels that give
shares of one both give the same shares.
-/

namespace Apportion.Proofs.Weights.ShareRules

open Apportion.Weights.Normalization
open Apportion.Proofs.Weights.WaterFilling
open Apportion.Proofs.Weights.CappedNormalization

/-- The share that a weight gets among others under a limit. -/
inductive ShareRule (limit : Rat) (weights : List Rat) : (Rat → Rat) → Prop where
  /-- Every weight gets the same. -/
  | uniform (hfull : weights.sum = 0 ∨ limit * weights.length ≤ 1) :
      ShareRule limit weights fun _ => 1 / (weights.length : Rat)
  /-- Every weight gets its part, raised by one factor, or the limit if that is less. -/
  | level (factor : Rat) (hsum : 0 < weights.sum) (hroom : 1 < limit * weights.length)
      (henough : 1 ≤ positiveCount weights * limit) (hone : 1 ≤ factor) :
      ShareRule limit weights fun w => min limit (factor * w / weights.sum)
  /-- Every positive weight gets the limit, and the others divide the rest. -/
  | tail (hsum : 0 < weights.sum) (hroom : 1 < limit * weights.length)
      (hlacking : positiveCount weights * limit < 1) :
      ShareRule limit weights fun w => if 0 < w then limit else evenRest limit weights

theorem not_full {weights : List Rat} {limit : Rat} (hsum : 0 < weights.sum)
    (hroom : 1 < limit * weights.length) : ¬(weights.sum = 0 ∨ limit * weights.length ≤ 1) :=
  not_or.mpr ⟨hsum.ne', not_le.mpr hroom⟩

theorem exists_shareRule {weights : List Rat} {limit : Rat} (hne : weights ≠ [])
    (hweights : ∀ weight ∈ weights, 0 ≤ weight) (hlimit : 0 < limit) :
    ∃ share, ShareRule limit weights share ∧ cappedShares limit weights = weights.map share := by
  have hfilled := waterFilled_cappedShares hne hweights hlimit
  by_cases hfull : weights.sum = 0 ∨ limit * weights.length ≤ 1
  · refine ⟨_, .uniform hfull, ?_⟩
    rw [hfilled.uniform hfull, List.map_const']
  · obtain ⟨hzero, hroom⟩ := not_or.mp hfull
    rw [not_le] at hroom
    have hsum : 0 < weights.sum := lt_of_le_of_ne (List.sum_nonneg hweights) (Ne.symm hzero)
    rcases le_or_gt 1 (positiveCount weights * limit) with henough | hlacking
    · obtain ⟨factor, hone, hshares⟩ := hfilled.level hsum hroom henough
      exact ⟨_, .level factor hsum hroom henough hone, hshares⟩
    · exact ⟨_, .tail hsum hroom hlacking, hfilled.tail hsum hroom hlacking⟩

theorem sum_cappedShares {weights : List Rat} {limit : Rat} (hne : weights ≠ [])
    (hweights : ∀ weight ∈ weights, 0 ≤ weight) (hlimit : 0 < limit) :
    (cappedShares limit weights).sum = 1 :=
  (waterFilled_cappedShares hne hweights hlimit).sum

theorem map_eq_of_sum_eq {lower upper : Rat → Rat} {weights : List Rat}
    (hle : ∀ w ∈ weights, lower w ≤ upper w)
    (hsum : (weights.map lower).sum = (weights.map upper).sum) :
    weights.map lower = weights.map upper := by
  refine List.map_congr_left fun w hmem => ?_
  by_contra hne
  have hlt : (weights.map lower).sum < (weights.map upper).sum :=
    List.sum_lt_sum lower upper hle ⟨w, hmem, lt_of_le_of_ne (hle w hmem) hne⟩
  exact hlt.ne hsum

theorem part_le_part {weights : List Rat} {low high : Rat}
    (hweights : ∀ weight ∈ weights, 0 ≤ weight) (hsum : 0 < weights.sum) (hle : low ≤ high)
    {w : Rat} (hmem : w ∈ weights) : low * w / weights.sum ≤ high * w / weights.sum :=
  div_le_div_of_nonneg_right (mul_le_mul_of_nonneg_right hle (hweights w hmem)) hsum.le

/-- Of two levels the lower gives no weight more, so that both give the same if they give the
same together. -/
theorem map_level_eq {weights : List Rat} {limit low high : Rat}
    (hweights : ∀ weight ∈ weights, 0 ≤ weight) (hsum : 0 < weights.sum) (hle : low ≤ high)
    (htotal : (weights.map fun w => min limit (low * w / weights.sum)).sum =
      (weights.map fun w => min limit (high * w / weights.sum)).sum) :
    (weights.map fun w => min limit (low * w / weights.sum)) =
      weights.map fun w => min limit (high * w / weights.sum) :=
  map_eq_of_sum_eq
    (fun _ hmem => min_le_min_left limit (part_le_part hweights hsum hle hmem)) htotal

theorem ShareRule.map_eq {weights : List Rat} {limit : Rat} {left right : Rat → Rat}
    (hleft : ShareRule limit weights left) (hright : ShareRule limit weights right)
    (hweights : ∀ weight ∈ weights, 0 ≤ weight)
    (hsum : (weights.map left).sum = (weights.map right).sum) :
    weights.map left = weights.map right := by
  cases hleft with
  | uniform hfull =>
      cases hright with
      | uniform => rfl
      | level _ hpos hroom => exact absurd hfull (not_full hpos hroom)
      | tail hpos hroom => exact absurd hfull (not_full hpos hroom)
  | level factor hpos hroom henough =>
      cases hright with
      | uniform hfull => exact absurd hfull (not_full hpos hroom)
      | level factor' =>
          rcases le_total factor factor' with hle | hle
          · exact map_level_eq hweights hpos hle hsum
          · exact (map_level_eq hweights hpos hle hsum.symm).symm
      | tail _ _ hlacking => exact absurd henough (not_le.mpr hlacking)
  | tail hpos hroom hlacking =>
      cases hright with
      | uniform hfull => exact absurd hfull (not_full hpos hroom)
      | level _ _ _ henough => exact absurd henough (not_le.mpr hlacking)
      | tail => rfl

theorem ShareRule.perm {weights others : List Rat} {limit : Rat} {share : Rat → Rat}
    (hrule : ShareRule limit weights share) (hperm : others.Perm weights) :
    ShareRule limit others share := by
  have hsum : weights.sum = others.sum := hperm.sum_eq.symm
  have hlength : weights.length = others.length := hperm.length_eq.symm
  have hcount : positiveCount weights = positiveCount others := (hperm.countP_eq _).symm
  cases hrule with
  | uniform hfull =>
      rw [hsum, hlength] at hfull
      rw [hlength]
      exact .uniform hfull
  | level factor hpos hroom henough hone =>
      rw [hsum] at hpos
      rw [hlength] at hroom
      rw [hcount] at henough
      rw [hsum]
      exact .level factor hpos hroom henough hone
  | tail hpos hroom hlacking =>
      rw [hsum] at hpos
      rw [hlength] at hroom
      rw [hcount] at hlacking
      have hrest : evenRest limit weights = evenRest limit others := by
        rw [evenRest, evenRest, hcount, hlength]
      rw [hrest]
      exact .tail hpos hroom hlacking

end Apportion.Proofs.Weights.ShareRules
