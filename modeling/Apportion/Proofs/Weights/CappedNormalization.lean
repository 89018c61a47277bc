import Mathlib.Tactic.NormNum
import Apportion.Proofs.Weights.Checks
import Apportion.Proofs.Weights.WaterFilling

namespace Apportion.Proofs.Weights.CappedNormalization

open Apportion.Weights.Normalization
open Apportion.Proofs.Weights.Checks
open Apportion.Proofs.Weights.WaterFilling

theorem beq_zero_iff {x : Rat} : (x == (0 : Rat)) = true ↔ x = 0 := beq_iff_eq

theorem boundedTotal_eq (weights : List Rat) : boundedTotal weights = (weights, weights.sum) := by
  simp [boundedTotal]

theorem positiveCount_div {weights : List Rat} {divisor : Rat} (hdivisor : 0 < divisor) :
    positiveCount (weights.map (· / divisor)) = positiveCount weights := by
  rw [positiveCount, List.countP_map]
  refine List.countP_congr fun w _ => ?_
  simp [div_pos_iff_of_pos_right hdivisor]

theorem equalShares_eq (count : Nat) :
    (equalShares count : List Rat) = List.replicate count (1 / (count : Rat)) := rfl

theorem cappedShares_eq (limit : Rat) (weights : List Rat) :
    cappedShares limit weights =
      if weights.sum = 0 ∨ limit * weights.length ≤ 1 then
        List.replicate weights.length (1 / (weights.length : Rat))
      else applyLimit limit (weights.map (· / weights.sum)) := by
  unfold cappedShares
  rw [boundedTotal_eq]
  by_cases hsum : weights.sum = 0
  · rw [if_pos (Or.inl hsum)]
    exact if_pos (beq_zero_iff.mpr hsum)
  · refine (if_neg fun hzero => hsum (beq_zero_iff.mp hzero)).trans ?_
    by_cases hroom : limit * weights.length ≤ 1
    · rw [if_pos (Or.inr hroom)]
      exact if_pos hroom
    · rw [if_neg (not_or.mpr ⟨hsum, hroom⟩)]
      exact if_neg hroom

theorem normalizeCapped_eq {weights : List Rat} {limit : Rat}
    (hweights : ∀ weight ∈ weights, 0 ≤ weight) (hlimit : 0 < limit) (hone : limit ≤ 1) :
    normalizeCapped weights limit = .ok (cappedShares limit weights) := by
  have husable : requireUsable weights = .ok () := by
    rw [requireUsable_eq_ok_iff]
    intro weight hmem
    exact ⟨rfl, not_lt.mpr (hweights weight hmem)⟩
  unfold normalizeCapped
  rw [husable]
  exact if_pos ⟨hlimit, hone⟩

theorem sum_map_div {weights : List Rat} (hsum : weights.sum ≠ 0) :
    (weights.map (· / weights.sum)).sum = 1 := by
  simp only [div_eq_mul_inv]
  rw [List.sum_map_mul_right, List.map_id', mul_inv_cancel₀ hsum]

theorem limited_cappedShares {weights : List Rat} {limit : Rat}
    (hweights : ∀ weight ∈ weights, 0 ≤ weight) (hlimit : 0 < limit) (hsum : weights.sum ≠ 0)
    (hroom : 1 < limit * weights.length) :
    Limited limit (weights.map (· / weights.sum)) (cappedShares limit weights) := by
  have hpositive : 0 < weights.sum := lt_of_le_of_ne (List.sum_nonneg hweights) hsum.symm
  rw [cappedShares_eq, if_neg (not_or.mpr ⟨hsum, not_le.mpr hroom⟩)]
  apply limited_applyLimit hlimit
  · intro b hb
    obtain ⟨weight, hmem, rfl⟩ := List.mem_map.mp hb
    exact div_nonneg (hweights weight hmem) hpositive.le
  · exact sum_map_div hsum
  · simpa using hroom

/-- Shares of one that fill weights up under a limit. Every case names the shares themselves, as a
function of the weights. -/
structure WaterFilled (limit : Rat) (weights shares : List Rat) : Prop where
  length : shares.length = weights.length
  sum : shares.sum = 1
  nonneg : ∀ share ∈ shares, 0 ≤ share
  le_limit : 1 < limit * weights.length → ∀ share ∈ shares, share ≤ limit
  uniform : weights.sum = 0 ∨ limit * weights.length ≤ 1 →
    shares = List.replicate weights.length (1 / (weights.length : Rat))
  level : 0 < weights.sum → 1 < limit * weights.length → 1 ≤ positiveCount weights * limit →
    ∃ factor, 1 ≤ factor ∧ shares = weights.map fun w => min limit (factor * w / weights.sum)
  tail : 0 < weights.sum → 1 < limit * weights.length → positiveCount weights * limit < 1 →
    shares = weights.map fun w =>
      if 0 < w then limit
      else (1 - positiveCount weights * limit) / (weights.length - positiveCount weights)
  ordered : ∀ lower ∈ weights.zip shares, ∀ upper ∈ weights.zip shares,
    lower.1 ≤ upper.1 → lower.2 ≤ upper.2

theorem of_mem_zip_map {share : Rat → Rat} {weights : List Rat} {entry : Rat × Rat}
    (hmem : entry ∈ weights.zip (weights.map share)) :
    entry.1 ∈ weights ∧ entry.2 = share entry.1 := by
  rw [List.zip_map_right] at hmem
  obtain ⟨⟨left, right⟩, hpair, rfl⟩ := List.mem_map.mp hmem
  have hsame : left = right := by
    obtain ⟨i, hi, hget⟩ := List.getElem_of_mem hpair
    rw [List.getElem_zip] at hget
    exact (congrArg Prod.fst hget).symm.trans (congrArg Prod.snd hget)
  subst hsame
  exact ⟨(List.of_mem_zip hpair).1, rfl⟩

theorem ordered_map {share : Rat → Rat} {weights : List Rat}
    (hmono : ∀ v ∈ weights, ∀ w ∈ weights, v ≤ w → share v ≤ share w) :
    ∀ lower ∈ weights.zip (weights.map share), ∀ upper ∈ weights.zip (weights.map share),
      lower.1 ≤ upper.1 → lower.2 ≤ upper.2 := by
  intro lower hlower upper hupper hle
  obtain ⟨hlowerMem, hlowerShare⟩ := of_mem_zip_map hlower
  obtain ⟨hupperMem, hupperShare⟩ := of_mem_zip_map hupper
  rw [hlowerShare, hupperShare]
  exact hmono _ hlowerMem _ hupperMem hle

theorem waterFilled_uniform {weights : List Rat} {limit : Rat} (hne : weights ≠ [])
    (huniform : weights.sum = 0 ∨ limit * weights.length ≤ 1) :
    WaterFilled limit weights (cappedShares limit weights) := by
  have hcount : (0 : Rat) < weights.length := by
    exact_mod_cast List.length_pos_of_ne_nil hne
  have hshares : cappedShares limit weights =
      weights.map fun _ => 1 / (weights.length : Rat) := by
    rw [cappedShares_eq, if_pos huniform, List.map_const']
  rw [hshares]
  refine ⟨by simp, ?_, ?_, ?_, ?_, ?_, ?_, ?_⟩
  · rw [List.map_const', List.sum_replicate, nsmul_eq_mul, mul_one_div_cancel hcount.ne']
  · intro share hmem
    obtain ⟨w, -, rfl⟩ := List.mem_map.mp hmem
    exact (one_div_pos.mpr hcount).le
  · intro hroom share hmem
    obtain ⟨w, -, rfl⟩ := List.mem_map.mp hmem
    exact (div_le_iff₀ hcount).mpr hroom.le
  · intro _
    rw [List.map_const']
  · intro hsum hroom _
    exact absurd huniform (not_or.mpr ⟨hsum.ne', not_le.mpr hroom⟩)
  · intro hsum hroom _
    exact absurd huniform (not_or.mpr ⟨hsum.ne', not_le.mpr hroom⟩)
  · exact ordered_map fun _ _ _ _ _ => le_rfl

theorem waterFilled_level {weights : List Rat} {limit factor : Rat}
    (hweights : ∀ weight ∈ weights, 0 ≤ weight) (hlimit : 0 < limit) (hsum : 0 < weights.sum)
    (hroom : 1 < limit * weights.length) (henough : 1 ≤ positiveCount weights * limit)
    (hone : 1 ≤ factor) {shares : List Rat} (htotal : shares.sum = 1)
    (hshares : shares = weights.map fun w => min limit (factor * w / weights.sum)) :
    WaterFilled limit weights shares := by
  have hfactor : 0 ≤ factor := zero_le_one.trans hone
  refine ⟨by simp [hshares], htotal, ?_, ?_, ?_, ?_, ?_, ?_⟩
  · rw [hshares]
    intro share hmem
    obtain ⟨w, hw, rfl⟩ := List.mem_map.mp hmem
    exact le_min hlimit.le (div_nonneg (mul_nonneg hfactor (hweights w hw)) hsum.le)
  · rw [hshares]
    intro _ share hmem
    obtain ⟨w, -, rfl⟩ := List.mem_map.mp hmem
    exact min_le_left _ _
  · rintro (hzero | hfull)
    · exact absurd hzero hsum.ne'
    · exact absurd hroom (not_lt.mpr hfull)
  · intro _ _ _
    exact ⟨factor, hone, hshares⟩
  · intro _ _ hlacking
    exact absurd henough (not_le.mpr hlacking)
  · rw [hshares]
    refine ordered_map fun v _ w _ hle => min_le_min_left limit ?_
    exact div_le_div_of_nonneg_right (mul_le_mul_of_nonneg_left hle hfactor) hsum.le

theorem waterFilled_tail {weights : List Rat} {limit : Rat} (hlimit : 0 < limit)
    (hsum : 0 < weights.sum) (hroom : 1 < limit * weights.length)
    (hlacking : positiveCount weights * limit < 1)
    {shares : List Rat} (htotal : shares.sum = 1)
    (hshares : shares = weights.map fun w => if 0 < w then limit else evenRest limit weights) :
    WaterFilled limit weights shares := by
  have hrestLe : evenRest limit weights ≤ limit := evenRest_le hroom hlacking
  have hrest : 0 ≤ evenRest limit weights := by
    have hle : positiveCount weights ≤ weights.length := List.countP_le_length
    have hcast : (positiveCount weights : Rat) ≤ weights.length := by exact_mod_cast hle
    exact div_nonneg (by linarith) (by linarith)
  refine ⟨by simp [hshares], htotal, ?_, ?_, ?_, ?_, ?_, ?_⟩
  · rw [hshares]
    intro share hmem
    obtain ⟨w, -, rfl⟩ := List.mem_map.mp hmem
    split
    · exact hlimit.le
    · exact hrest
  · rw [hshares]
    intro _ share hmem
    obtain ⟨w, -, rfl⟩ := List.mem_map.mp hmem
    split
    · exact le_rfl
    · exact hrestLe
  · rintro (hzero | hfull)
    · exact absurd hzero hsum.ne'
    · exact absurd hroom (not_lt.mpr hfull)
  · intro _ _ henough
    exact absurd henough (not_le.mpr hlacking)
  · intro _ _ _
    exact hshares
  · rw [hshares]
    refine ordered_map fun v _ w _ hle => ?_
    by_cases hv : 0 < v
    · rw [if_pos hv, if_pos (hv.trans_le hle)]
    · rw [if_neg hv]
      split
      · exact hrestLe
      · exact le_rfl

theorem waterFilled_cappedShares {weights : List Rat} {limit : Rat} (hne : weights ≠ [])
    (hweights : ∀ weight ∈ weights, 0 ≤ weight) (hlimit : 0 < limit) :
    WaterFilled limit weights (cappedShares limit weights) := by
  by_cases huniform : weights.sum = 0 ∨ limit * weights.length ≤ 1
  · exact waterFilled_uniform hne huniform
  · obtain ⟨hsum, hfull⟩ := not_or.mp huniform
    have hroom := not_le.mp hfull
    have hpositive : 0 < weights.sum := lt_of_le_of_ne (List.sum_nonneg hweights) (Ne.symm hsum)
    have hlimited := limited_cappedShares hweights hlimit hsum hroom
    have hcount := @positiveCount_div weights _ hpositive
    rcases le_or_gt 1 (positiveCount weights * limit) with henough | hlacking
    · obtain ⟨factor, hone, hshares⟩ := hlimited.level (hcount.symm ▸ henough)
      rw [List.map_map] at hshares
      refine waterFilled_level hweights hlimit hpositive hroom henough hone hlimited.sum ?_
      simpa [Function.comp_def, mul_div_assoc] using hshares
    · have hshares := hlimited.tail (hcount.symm ▸ hlacking)
      rw [List.map_map] at hshares
      refine waterFilled_tail hlimit hpositive hroom hlacking hlimited.sum ?_
      simpa [Function.comp_def, evenRest, hcount, div_pos_iff_of_pos_right hpositive] using hshares

/-- Usable weights are filled up to a common level under a usable limit. -/
theorem normalizeCapped_waterFilled {weights : List Rat} {limit : Rat} (hne : weights ≠ [])
    (hweights : ∀ weight ∈ weights, 0 ≤ weight) (hlimit : 0 < limit) (hone : limit ≤ 1) :
    ∃ shares, normalizeCapped weights limit = .ok shares ∧ WaterFilled limit weights shares :=
  ⟨cappedShares limit weights, normalizeCapped_eq hweights hlimit hone,
    waterFilled_cappedShares hne hweights hlimit⟩

/-- Two passes are needed here: 28 is lifted above the limit when 100 is capped. -/
theorem waterFilled_two_passes :
    ∃ shares, normalizeCapped [100, 28, 1, 1, 1, 0] (3 / 10) = .ok shares ∧
      WaterFilled (3 / 10) [100, 28, 1, 1, 1, 0] shares :=
  normalizeCapped_waterFilled (by simp) (by simp) (by norm_num) (by norm_num)

end Apportion.Proofs.Weights.CappedNormalization
