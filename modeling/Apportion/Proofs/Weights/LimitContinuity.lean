import Mathlib.Algebra.Order.Group.Unbundled.Abs
import Apportion.Proofs.Weights.ShareRules

namespace Apportion.Proofs.Weights.LimitContinuity

open Apportion.Weights.Normalization
open Apportion.Proofs.Weights.CapPasses
open Apportion.Proofs.Weights.WaterFilling
open Apportion.Proofs.Weights.CappedNormalization
open Apportion.Proofs.Weights.ShareRules

/-- The sum of the differences between two lists, position by position. -/
def distance (left right : List Rat) : Rat :=
  ((left.zip right).map fun pair => |pair.1 - pair.2|).sum

theorem distance_map_le {before after : Rat → Rat} {rise : Rat} {values : List Rat}
    (hsum : (values.map before).sum = (values.map after).sum)
    (hrise : ∀ x ∈ values, after x - before x ≤ rise) (hnonneg : 0 ≤ rise) :
    distance (values.map before) (values.map after) ≤ 2 * values.length * rise := by
  have hpoint : ∀ x ∈ values, |before x - after x| + after x ≤ 2 * rise + before x := by
    intro x hmem
    have hx := hrise x hmem
    rcases le_total (before x) (after x) with hup | hdown
    · rw [abs_of_nonpos (by linarith)]
      linarith
    · rw [abs_of_nonneg (by linarith)]
      linarith
  have htogether := List.sum_le_sum hpoint
  rw [List.sum_map_add, List.sum_map_add, List.map_const', List.sum_replicate, nsmul_eq_mul,
    hsum] at htogether
  have hdistance : distance (values.map before) (values.map after) =
      (values.map fun x => |before x - after x|).sum := by
    rw [distance, List.zip_map', List.map_map]
    rfl
  linarith

section Rises

variable {weights : List Rat} {low high : Rat} {tight loose : Rat → Rat}

theorem le_limit_of_shareRule {limit : Rat} {share : Rat → Rat}
    (hrule : ShareRule limit weights share) (hsum : 0 < weights.sum)
    (hroom : 1 < limit * weights.length) (w : Rat) : share w ≤ limit := by
  cases hrule with
  | uniform hfull => exact absurd hfull (not_full hsum hroom)
  | level => exact min_le_left _ _
  | tail _ _ hlacking =>
      show (if 0 < w then limit else evenRest limit weights) ≤ limit
      split
      · exact le_rfl
      · exact evenRest_le hroom hlacking

theorem rise_of_uniform (hne : weights ≠ []) (hle : low ≤ high)
    (hfull : weights.sum = 0 ∨ low * weights.length ≤ 1) (hloose : ShareRule high weights loose)
    (w : Rat) : loose w - 1 / (weights.length : Rat) ≤ high - low := by
  have hcount : (0 : Rat) < weights.length := by
    exact_mod_cast List.length_pos_of_ne_nil hne
  have habove (hsum : 0 < weights.sum) (hroom : 1 < high * weights.length) :
      loose w - 1 / (weights.length : Rat) ≤ high - low := by
    have hlow : low ≤ 1 / (weights.length : Rat) :=
      (le_div_iff₀ hcount).mpr (hfull.resolve_left hsum.ne')
    linarith [le_limit_of_shareRule hloose hsum hroom w]
  cases hloose with
  | uniform => linarith
  | level _ hsum hroom => exact habove hsum hroom
  | tail hsum hroom => exact habove hsum hroom

/-- From one level to another: where the factor grows no share sinks, so that none rises either. -/
theorem rise_of_level {factor factor' : Rat} (hweights : ∀ weight ∈ weights, 0 ≤ weight)
    (hsum : 0 < weights.sum) (hle : low ≤ high)
    (htotal : (weights.map fun w => min low (factor * w / weights.sum)).sum =
      (weights.map fun w => min high (factor' * w / weights.sum)).sum) :
    ∀ w ∈ weights, min high (factor' * w / weights.sum) - min low (factor * w / weights.sum) ≤
      high - low := by
  intro w hmem
  rcases le_total factor factor' with hgrows | hfalls
  · have hsame := map_eq_of_sum_eq
      (fun _ hmem => min_le_min hle (part_le_part hweights hsum hgrows hmem)) htotal
    rw [List.map_inj_left.mp hsame w hmem]
    linarith
  · have hpart := part_le_part hweights hsum hfalls hmem
    rcases le_total low (factor * w / weights.sum) with hcapped | hfree
    · rw [min_eq_left hcapped]
      linarith [min_le_left high (factor' * w / weights.sum)]
    · rw [min_eq_right hfree]
      linarith [min_le_right high (factor' * w / weights.sum)]

theorem positiveCount_le (weights : List Rat) : (positiveCount weights : Rat) ≤ weights.length := by
  exact_mod_cast List.countP_le_length

theorem evenRest_nonneg {limit : Rat} (hlacking : positiveCount weights * limit < 1) :
    0 ≤ evenRest limit weights := by
  have hcount := positiveCount_le weights
  exact div_nonneg (by linarith) (by linarith)

theorem evenRest_antitone (hle : low ≤ high) :
    evenRest high weights ≤ evenRest low weights := by
  have hcount := positiveCount_le weights
  have hmass : (positiveCount weights : Rat) * low ≤ positiveCount weights * high :=
    mul_le_mul_of_nonneg_left hle (Nat.cast_nonneg _)
  exact div_le_div_of_nonneg_right (by linarith) (by linarith)

/-- From the limit and an even rest: a positive weight has the tighter limit before, and a zero
weight gets nothing or a smaller rest after. -/
theorem rise_of_tail (hweights : ∀ weight ∈ weights, 0 ≤ weight) (hsum : 0 < weights.sum)
    (hroom : 1 < high * weights.length) (hlacking : positiveCount weights * low < 1)
    (hle : low ≤ high) (hloose : ShareRule high weights loose) :
    ∀ w ∈ weights, loose w - (if 0 < w then low else evenRest low weights) ≤ high - low := by
  intro w hmem
  have hbound := le_limit_of_shareRule hloose hsum hroom w
  split
  · linarith
  · rename_i hnot
    have hzero : w = 0 := le_antisymm (not_lt.mp hnot) (hweights w hmem)
    have hrest := evenRest_nonneg hlacking
    cases hloose with
    | uniform hfull => exact absurd hfull (not_full hsum hroom)
    | level factor =>
        have hnothing : min high (factor * w / weights.sum) ≤ 0 := by
          rw [hzero, mul_zero, zero_div]
          exact min_le_right high 0
        linarith
    | tail =>
        have hsmaller : evenRest high weights ≤ evenRest low weights := evenRest_antitone hle
        simp only [hzero, lt_irrefl, if_false]
        linarith

theorem rise_le (hne : weights ≠ []) (hweights : ∀ weight ∈ weights, 0 ≤ weight)
    (hle : low ≤ high) (htight : ShareRule low weights tight)
    (hloose : ShareRule high weights loose)
    (htotal : (weights.map tight).sum = (weights.map loose).sum) :
    ∀ w ∈ weights, loose w - tight w ≤ high - low := by
  have hlarger : low * weights.length ≤ high * weights.length :=
    mul_le_mul_of_nonneg_right hle (Nat.cast_nonneg _)
  cases htight with
  | uniform hfull => exact fun w _ => rise_of_uniform hne hle hfull hloose w
  | level factor hsum hroom henough =>
      have henough' : 1 ≤ positiveCount weights * high :=
        henough.trans (mul_le_mul_of_nonneg_left hle (Nat.cast_nonneg _))
      cases hloose with
      | uniform hfull =>
          exact absurd hfull (not_full hsum (hroom.trans_le hlarger))
      | level factor' => exact rise_of_level hweights hsum hle htotal
      | tail _ _ hlacking => exact absurd henough' (not_le.mpr hlacking)
  | tail hsum hroom hlacking =>
      exact rise_of_tail hweights hsum (hroom.trans_le hlarger) hlacking hle hloose

end Rises

/-- Shares under a limit depend continuously on it. -/
theorem normalizeCapped_continuous {weights : List Rat} {low high : Rat} (hne : weights ≠ [])
    (hweights : ∀ weight ∈ weights, 0 ≤ weight) (hlow : 0 < low) (hle : low ≤ high)
    (hhigh : high ≤ 1) :
    ∃ tight loose, normalizeCapped weights low = .ok tight ∧
      normalizeCapped weights high = .ok loose ∧
      tight.length = weights.length ∧ loose.length = weights.length ∧
      (∀ pair ∈ tight.zip loose, pair.2 - pair.1 ≤ high - low) ∧
      distance tight loose ≤ 2 * weights.length * (high - low) := by
  have hpos := hlow.trans_le hle
  obtain ⟨tight, htight, hlowShares⟩ := exists_shareRule hne hweights hlow
  obtain ⟨loose, hloose, hhighShares⟩ := exists_shareRule hne hweights hpos
  have htotal : (weights.map tight).sum = (weights.map loose).sum := by
    rw [← hlowShares, ← hhighShares, sum_cappedShares hne hweights hlow,
      sum_cappedShares hne hweights hpos]
  have hrise := rise_le hne hweights hle htight hloose htotal
  refine ⟨_, _, normalizeCapped_eq hweights hlow (hle.trans hhigh),
    normalizeCapped_eq hweights hpos hhigh, length_cappedShares _ _, length_cappedShares _ _,
    ?_, ?_⟩
  · rw [hlowShares, hhighShares, List.zip_map']
    intro pair hmem
    obtain ⟨w, hw, rfl⟩ := List.mem_map.mp hmem
    exact hrise w hw
  · rw [hlowShares, hhighShares]
    exact distance_map_le htotal hrise (sub_nonneg.mpr hle)

theorem normalizeCapped_continuous_quarter :
    ∃ tight loose, normalizeCapped [3, 1, 1, 0] (1 / 5) = .ok tight ∧
      normalizeCapped [3, 1, 1, 0] (1 / 2) = .ok loose ∧
      tight.length = [3, 1, 1, 0].length ∧ loose.length = [3, 1, 1, 0].length ∧
      (∀ pair ∈ tight.zip loose, pair.2 - pair.1 ≤ 1 / 2 - 1 / 5) ∧
      distance tight loose ≤ 2 * ([3, 1, 1, 0] : List Rat).length * (1 / 2 - 1 / 5) :=
  normalizeCapped_continuous (by simp) (by simp) (by norm_num) (by norm_num) (by norm_num)

end Apportion.Proofs.Weights.LimitContinuity
