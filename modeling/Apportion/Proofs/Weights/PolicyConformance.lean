import Mathlib
import Apportion.Proofs.Weights.CappedNormalization
import Apportion.Proofs.Weights.OrderStatistics
import Apportion.Proofs.Weights.ProcessingSteps

namespace Apportion.Proofs.Weights.PolicyConformance

open Apportion.Sparse.Scatter
open Apportion.Weights.Normalization
open Apportion.Weights.Policies
open Apportion.Weights.Quantile
open Apportion.Weights.Processing
open Apportion.Proofs.Weights.WaterFilling
open Apportion.Proofs.Weights.CappedNormalization
open Apportion.Proofs.Weights.OrderStatistics
open Apportion.Proofs.Weights.ProcessingSteps

/-- Shares of one that are all positive and under the limit, or all equal where the limit leaves no
room for anything else. -/
structure ProperShares (limit : Rat) (shares : List Rat) : Prop where
  positive : ∀ share ∈ shares, 0 < share
  sum : shares.sum = 1
  le_limit : 1 < limit * shares.length → ∀ share ∈ shares, share ≤ limit
  equal : limit * shares.length ≤ 1 → ∀ share ∈ shares, share = 1 / (shares.length : Rat)

/-- Processed weights for a universe of `size` positions that obey a policy. -/
structure Conforms (size : Nat) (policy : Policy Rat) (processed : Processed Rat) : Prop where
  length : processed.uids.length = processed.weights.length
  count : min size (max 1 policy.minimumCount.toNat) ≤ processed.weights.length
  inside : ∀ uid ∈ processed.uids, 0 ≤ uid ∧ uid < size
  proper : ProperShares policy.limit processed.weights

theorem properShares_equal {limit : Rat} {count : Nat} (hcount : 0 < count) :
    ProperShares limit (equalShares count) := by
  have hpositive : (0 : Rat) < count := by exact_mod_cast hcount
  rw [equalShares_eq]
  refine ⟨?_, ?_, ?_, ?_⟩
  · intro share hmem
    rw [(List.mem_replicate.mp hmem).2]
    exact one_div_pos.mpr hpositive
  · rw [List.sum_replicate, nsmul_eq_mul, mul_one_div_cancel hpositive.ne']
  · intro hroom share hmem
    rw [List.length_replicate] at hroom
    rw [(List.mem_replicate.mp hmem).2, div_le_iff₀ hpositive]
    exact hroom.le
  · intro _ share hmem
    rw [(List.mem_replicate.mp hmem).2, List.length_replicate]

theorem properShares_of_waterFilled {limit : Rat} {weights shares : List Rat}
    (hne : weights ≠ []) (hpositive : ∀ weight ∈ weights, 0 < weight) (hlimit : 0 < limit)
    (hfilled : WaterFilled limit weights shares) : ProperShares limit shares := by
  have hsum : 0 < weights.sum := List.sum_pos weights hpositive hne
  have hlength := hfilled.length
  have huniform := hfilled.uniform
  rw [← hlength] at huniform
  refine ⟨?_, hfilled.sum, ?_, ?_⟩
  · rcases le_or_gt (limit * weights.length) 1 with hfull | hroom
    · have hcount : (0 : Rat) < weights.length := by
        exact_mod_cast List.length_pos_of_ne_nil hne
      intro share hmem
      rw [hfilled.uniform (.inr hfull)] at hmem
      rw [(List.mem_replicate.mp hmem).2]
      exact one_div_pos.mpr hcount
    · have hcount : positiveCount weights = weights.length := by
        rw [positiveCount, List.countP_eq_length]
        intro weight hmem
        exact decide_eq_true (hpositive weight hmem)
      have henough : 1 ≤ positiveCount weights * limit := by
        rw [hcount, mul_comm]
        exact hroom.le
      obtain ⟨factor, hone, hshares⟩ := hfilled.level hsum hroom henough
      rw [hshares]
      intro share hmem
      obtain ⟨weight, hweight, rfl⟩ := List.mem_map.mp hmem
      refine lt_min hlimit (div_pos (mul_pos ?_ (hpositive weight hweight)) hsum)
      exact zero_lt_one.trans_le hone
  · intro hroom
    rw [hlength] at hroom
    exact hfilled.le_limit hroom
  · intro hfull share hmem
    rw [huniform (.inr hfull)] at hmem
    exact (List.mem_replicate.mp hmem).2

theorem properShares_of_normalizeCapped {weights shares : List Rat} {limit : Rat}
    (hne : weights ≠ []) (hpositive : ∀ weight ∈ weights, 0 < weight) (hlimit : 0 < limit)
    (hone : limit ≤ 1) (hshares : normalizeCapped weights limit = .ok shares) :
    ProperShares limit shares ∧ shares.length = weights.length := by
  have hweights : ∀ weight ∈ weights, 0 ≤ weight := fun weight hmem => (hpositive weight hmem).le
  rw [normalizeCapped_eq hweights hlimit hone] at hshares
  cases hshares
  have hfilled := waterFilled_cappedShares hne hweights hlimit
  exact ⟨properShares_of_waterFilled hne hpositive hlimit hfilled, hfilled.length⟩

theorem weightFloor_pos : (0 : Rat) < weightFloor := by
  change (0 : Rat) < 1 / (100000 : Nat)
  norm_num

theorem conforms_equalShares {size : Nat} {policy : Policy Rat} (hsize : 0 < size) :
    Conforms size policy (Processed.equalShares size) := by
  have hlength : (Apportion.Weights.Normalization.equalShares size : List Rat).length = size := by
    simp [Apportion.Weights.Normalization.equalShares]
  refine ⟨?_, ?_, ?_, properShares_equal hsize⟩
  · exact (length_everyUid size).trans hlength.symm
  · exact (min_le_left _ _).trans hlength.ge
  · intro uid hmem
    exact mem_everyUid.mp hmem

theorem conforms_fillUp {size : Nat} {policy : Policy Rat} {pairs : List (Int × Rat)}
    {processed : Processed Rat} (hsize : 0 < size) (husable : Usable policy)
    (hpairs : ∀ pair ∈ pairs, 0 < pair.2)
    (hresult : fillUp size policy.limit pairs = .ok processed) :
    Conforms size policy processed := by
  obtain ⟨-, shares, hshares, rfl⟩ := fillUp_eq_ok_iff.mp hresult
  have hlength : ((place (List.replicate size (0 : Rat)) pairs).map (· + weightFloor)).length =
      size := by
    rw [List.length_map, length_place, List.length_replicate]
  have hpositive : ∀ weight ∈ (place (List.replicate size (0 : Rat)) pairs).map (· + weightFloor),
      0 < weight := by
    intro weight hmem
    obtain ⟨value, hvalue, rfl⟩ := List.mem_map.mp hmem
    have hnonneg : 0 ≤ value := by
      rcases mem_place hvalue with hzero | hlisted
      · exact (List.mem_replicate.mp hzero).2.ge
      · obtain ⟨pair, hpair, rfl⟩ := List.mem_map.mp hlisted
        exact (hpairs pair hpair).le
    exact add_pos_of_nonneg_of_pos hnonneg weightFloor_pos
  obtain ⟨hproper, hcount⟩ := properShares_of_normalizeCapped
    (List.ne_nil_of_length_pos (hlength.symm ▸ hsize)) hpositive husable.limit_pos husable.limit_le
    hshares
  rw [hlength] at hcount
  refine ⟨?_, ?_, ?_, hproper⟩
  · exact (length_everyUid size).trans hcount.symm
  · exact (min_le_left _ _).trans hcount.ge
  · intro uid hmem
    exact mem_everyUid.mp hmem

def excludedFraction (policy : Policy Rat) (count : Nat) : Rat :=
  min policy.quantile (((count - policy.minimumCount.toNat : Nat) : Rat) / count)

theorem cutoff_eq (policy : Policy Rat) (pairs : List (Int × Rat)) :
    cutoff policy pairs =
      quantile (pairs.map Prod.snd) (excludedFraction policy pairs.length) := by
  rw [excludedFraction, min_def_lt]
  rfl

theorem excludedFraction_nonneg {policy : Policy Rat} (husable : Usable policy) (count : Nat) :
    0 ≤ excludedFraction policy count :=
  le_min husable.quantile_nonneg (div_nonneg (Nat.cast_nonneg _) (Nat.cast_nonneg _))

theorem excludedFraction_le_one {policy : Policy Rat} (husable : Usable policy) (count : Nat) :
    excludedFraction policy count ≤ 1 :=
  (min_le_left _ _).trans husable.quantile_le

theorem max_one_le_length_kept {policy : Policy Rat} {pairs : List (Int × Rat)}
    (husable : Usable policy) (hsome : pairs ≠ [])
    (henough : policy.minimumCount.toNat ≤ pairs.length) :
    max 1 policy.minimumCount.toNat ≤
      (pairs.filter fun pair => decide (cutoff policy pairs ≤ pair.2)).length := by
  have hne : pairs.map Prod.snd ≠ [] := by simpa using hsome
  have hlength : (pairs.map Prod.snd).length = pairs.length := List.length_map _
  have hnonneg := excludedFraction_nonneg husable pairs.length
  have hone := excludedFraction_le_one husable pairs.length
  have hcount := length_sub_ceil_le_countP hne hnonneg hone
  have hlt := ceil_position_lt hne hone
  rw [hlength] at hcount hlt
  have hle := ceil_position_le hne hnonneg
    (show excludedFraction policy pairs.length ≤ _ / (pairs.map Prod.snd).length by
      rw [hlength]
      exact min_le_right _ _)
  rw [List.countP_map, ← cutoff_eq] at hcount
  have hkept : (pairs.filter fun pair => decide (cutoff policy pairs ≤ pair.2)).length =
      pairs.countP ((fun value => decide (cutoff policy pairs ≤ value)) ∘ Prod.snd) :=
    List.countP_eq_length_filter.symm
  omega

theorem conforms_excludeTail {size : Nat} {policy : Policy Rat} {pairs : List (Int × Rat)}
    {processed : Processed Rat} (husable : Usable policy)
    (hpairs : ∀ pair ∈ pairs, 0 < pair.2) (hinside : ∀ pair ∈ pairs, 0 ≤ pair.1 ∧ pair.1 < size)
    (hsome : pairs ≠ []) (henough : policy.minimumCount.toNat ≤ pairs.length)
    (hresult : excludeTail policy pairs = .ok processed) : Conforms size policy processed := by
  obtain ⟨shares, hshares, rfl⟩ := excludeTail_eq_ok_iff.mp hresult
  have hcount := max_one_le_length_kept husable hsome henough
  set kept := pairs.filter fun pair => decide (cutoff policy pairs ≤ pair.2) with hkept
  have hsub : ∀ pair ∈ kept, pair ∈ pairs := fun pair hmem => List.mem_of_mem_filter hmem
  have hne : kept.map Prod.snd ≠ [] := by
    rw [ne_eq, List.map_eq_nil_iff]
    exact List.ne_nil_of_length_pos ((le_max_left _ _).trans hcount)
  have hpositive : ∀ weight ∈ kept.map Prod.snd, 0 < weight := by
    intro weight hmem
    obtain ⟨pair, hpair, rfl⟩ := List.mem_map.mp hmem
    exact hpairs pair (hsub pair hpair)
  obtain ⟨hproper, hlength⟩ := properShares_of_normalizeCapped hne hpositive husable.limit_pos
    husable.limit_le hshares
  rw [List.length_map] at hlength
  refine ⟨?_, ?_, ?_, hproper⟩
  · exact (List.length_map _).trans hlength.symm
  · exact (min_le_right _ _).trans (hcount.trans hlength.ge)
  · intro uid hmem
    obtain ⟨pair, hpair, rfl⟩ := List.mem_map.mp hmem
    exact hinside pair (hsub pair hpair)

theorem conforms_of_route {size : Nat} {uids : List Int} {weights : List Rat}
    {policy : Policy Rat} {processed : Processed Rat} (hsize : 0 < size)
    (haccepted : Accepted size uids weights policy)
    (hroute : Route size policy (positivePairs uids weights) processed) :
    Conforms size policy processed := by
  have hpairs : ∀ pair ∈ positivePairs uids weights, 0 < pair.2 := fun pair hmem =>
    (mem_positivePairs.mp hmem).2
  cases hroute with
  | equal hfew hresult => exact hresult ▸ conforms_equalShares hsize
  | filled hsome hminimum hfew hresult =>
      exact conforms_fillUp hsize haccepted.usable hpairs hresult
  | excluded hsome hminimum henough hresult =>
      exact conforms_excludeTail haccepted.usable hpairs haccepted.inside_universe hsome henough
        hresult

theorem eq_empty_of_route {uids : List Int} {weights : List Rat} {policy : Policy Rat}
    {processed : Processed Rat} (haccepted : Accepted 0 uids weights policy)
    (hroute : Route 0 policy (positivePairs uids weights) processed) : processed = ⟨[], []⟩ := by
  have hnone : positivePairs uids weights = [] := by
    refine List.eq_nil_iff_forall_not_mem.mpr fun pair hmem => ?_
    have huid := (List.of_mem_zip (mem_positivePairs.mp hmem).1).1
    have hlower := haccepted.uid pair.1 huid
    have hupper := haccepted.inside pair hmem
    omega
  cases hroute with
  | equal hfew hresult => exact hresult
  | filled hsome hminimum hfew hresult => exact absurd hnone hsome
  | excluded hsome hminimum henough hresult => exact absurd hnone hsome

/-- A submission that is processed at all is processed as its policy demands. -/
theorem process_conforms {n : Int} {uids : List Int} {weights : List Rat} {policy : Policy Rat}
    {processed : Processed Rat} (hprocess : process n uids weights policy = .ok processed) :
    (n = 0 → processed = ⟨[], []⟩) ∧ (1 ≤ n → Conforms n.toNat policy processed) := by
  obtain ⟨size, rfl, haccepted, hroute⟩ := process_eq_ok_iff.mp hprocess
  constructor
  · intro hzero
    obtain rfl : size = 0 := by omega
    exact eq_empty_of_route haccepted hroute
  · intro hone
    exact conforms_of_route (by omega) haccepted hroute

theorem conforms_three_kept :
    process 5 [4, 1, 2, 3, 0] [1, 2, 3, 0, 6] ⟨3, 2 / 5, 1 / 2, 16⟩ =
        .ok (⟨[1, 2, 0], [6 / 25, 9 / 25, 2 / 5]⟩ : Processed Rat) ∧
      Conforms 5 ⟨3, 2 / 5, 1 / 2, 16⟩ ⟨[1, 2, 0], [6 / 25, 9 / 25, 2 / 5]⟩ := by
  have hprocess : process 5 [4, 1, 2, 3, 0] [1, 2, 3, 0, 6] ⟨3, 2 / 5, 1 / 2, 16⟩ =
      .ok (⟨[1, 2, 0], [6 / 25, 9 / 25, 2 / 5]⟩ : Processed Rat) := by
    cbv
  exact ⟨hprocess, (process_conforms hprocess).2 (by decide)⟩

end Apportion.Proofs.Weights.PolicyConformance
