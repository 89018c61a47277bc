import Apportion.Proofs.Weights.ShareRules

namespace Apportion.Proofs.Weights.ShareSymmetries

open Apportion.Weights.Normalization
open Apportion.Proofs.Weights.CapPasses
open Apportion.Proofs.Weights.CappedNormalization
open Apportion.Proofs.Weights.ShareRules

def rearrange {β : Type} (order : List Nat) (values : List β) : List β :=
  order.filterMap fun position => values[position]?

theorem rearrange_map {β γ : Type} (order : List Nat) (f : β → γ) (values : List β) :
    rearrange order (values.map f) = (rearrange order values).map f := by
  unfold rearrange
  rw [List.map_filterMap]
  congr 1
  funext position
  exact List.getElem?_map

theorem rearrange_range {β : Type} (values : List β) :
    rearrange (List.range values.length) values = values := by
  induction values with
  | nil => rfl
  | cons value values ih =>
      unfold rearrange at ih ⊢
      rw [List.length_cons, List.range_succ_eq_map, List.filterMap_cons, List.filterMap_map]
      exact congrArg (value :: ·) ih

theorem rearrange_perm {β : Type} {order : List Nat} {values : List β}
    (horder : order.Perm (List.range values.length)) : (rearrange order values).Perm values := by
  have hperm : (rearrange order values).Perm (rearrange (List.range values.length) values) :=
    horder.filterMap _
  rwa [rearrange_range] at hperm

/-- Shares of weights that do not change when they are taken as weights themselves, that move with
the weights, and that do not depend on the scale of the weights. -/
structure Symmetric (limit : Rat) (weights shares : List Rat) : Prop where
  length : shares.length = weights.length
  settled : normalizeCapped shares limit = .ok shares
  rearranged : ∀ order : List Nat, order.Perm (List.range weights.length) →
    normalizeCapped (rearrange order weights) limit = .ok (rearrange order shares)
  scaled : ∀ factor : Rat, 0 < factor →
    normalizeCapped (weights.map (factor * ·)) limit = .ok shares

theorem cappedShares_nil (limit : Rat) : cappedShares limit [] = [] :=
  List.eq_nil_of_length_eq_zero (length_cappedShares limit [])

theorem cappedShares_eq_self {shares : List Rat} {limit : Rat} (hsum : shares.sum = 1)
    (hroom : 1 < limit * shares.length) (hle : ∀ share ∈ shares, share ≤ limit) :
    cappedShares limit shares = shares := by
  have hnot : ¬(shares.sum = 0 ∨ limit * shares.length ≤ 1) :=
    not_full (hsum ▸ one_pos) hroom
  have hdivided : shares.map (· / shares.sum) = shares := by
    simp only [hsum, div_one, List.map_id']
  have hall : shares.all (· ≤ limit) = true := by
    rw [List.all_eq_true]
    intro share hmem
    exact decide_eq_true (hle share hmem)
  rw [cappedShares_eq, if_neg hnot, hdivided]
  exact if_pos hall

theorem cappedShares_cappedShares {weights : List Rat} {limit : Rat}
    (hweights : ∀ weight ∈ weights, 0 ≤ weight) (hlimit : 0 < limit) :
    cappedShares limit (cappedShares limit weights) = cappedShares limit weights := by
  rcases eq_or_ne weights [] with rfl | hne
  · rw [cappedShares_nil, cappedShares_nil]
  · have hfilled := waterFilled_cappedShares hne hweights hlimit
    rcases le_or_gt (limit * weights.length) 1 with hfull | hroom
    · -- Equal shares are given for the same reason as before.
      rw [hfilled.uniform (.inr hfull), cappedShares_eq, List.length_replicate,
        if_pos (.inr hfull)]
    · apply cappedShares_eq_self hfilled.sum
      · rwa [hfilled.length]
      · exact hfilled.le_limit hroom

theorem cappedShares_perm {weights others : List Rat} {limit : Rat} {share : Rat → Rat}
    (hweights : ∀ weight ∈ weights, 0 ≤ weight) (hlimit : 0 < limit)
    (hperm : others.Perm weights) (hrule : ShareRule limit weights share)
    (hshares : cappedShares limit weights = weights.map share) :
    cappedShares limit others = others.map share := by
  rcases eq_or_ne others [] with rfl | hne
  · exact cappedShares_nil limit
  · have hothers : ∀ weight ∈ others, 0 ≤ weight :=
      fun weight hmem => hweights weight (hperm.mem_iff.mp hmem)
    have hsome : weights ≠ [] := by
      rintro rfl
      exact hne hperm.eq_nil
    obtain ⟨share', hrule', hshares'⟩ := exists_shareRule hne hothers hlimit
    have hsame : (others.map share').sum = (others.map share).sum := by
      rw [← hshares', sum_cappedShares hne hothers hlimit, (hperm.map share).sum_eq, ← hshares,
        sum_cappedShares hsome hweights hlimit]
    rw [hshares']
    exact hrule'.map_eq (hrule.perm hperm) hothers hsame

theorem cappedShares_rearrange {weights : List Rat} {limit : Rat} {order : List Nat}
    (hweights : ∀ weight ∈ weights, 0 ≤ weight) (hlimit : 0 < limit)
    (horder : order.Perm (List.range weights.length)) :
    cappedShares limit (rearrange order weights) =
      rearrange order (cappedShares limit weights) := by
  have hperm := rearrange_perm horder
  rcases eq_or_ne weights [] with rfl | hne
  · rw [hperm.eq_nil, cappedShares_nil]
    exact hperm.eq_nil.symm
  · obtain ⟨share, hrule, hshares⟩ := exists_shareRule hne hweights hlimit
    rw [cappedShares_perm hweights hlimit hperm hrule hshares, hshares, rearrange_map]

theorem cappedShares_scale (weights : List Rat) (limit : Rat) {factor : Rat}
    (hfactor : 0 < factor) :
    cappedShares limit (weights.map (factor * ·)) = cappedShares limit weights := by
  have hsum : (weights.map (factor * ·)).sum = factor * weights.sum := by
    rw [List.sum_map_mul_left, List.map_id']
  have hzero : factor * weights.sum = 0 ↔ weights.sum = 0 := by
    rw [mul_eq_zero, or_iff_right hfactor.ne']
  have hdivided : (weights.map (factor * ·)).map (· / (factor * weights.sum)) =
      weights.map (· / weights.sum) := by
    rw [List.map_map]
    refine List.map_congr_left fun w _ => ?_
    exact mul_div_mul_left w weights.sum hfactor.ne'
  simp only [cappedShares_eq, hsum, hzero, List.length_map, hdivided]

/-- Shares under a limit are settled, move with the weights and do not depend on their scale. -/
theorem normalizeCapped_symmetric {weights : List Rat} {limit : Rat}
    (hweights : ∀ weight ∈ weights, 0 ≤ weight) (hlimit : 0 < limit) (hone : limit ≤ 1) :
    ∃ shares, normalizeCapped weights limit = .ok shares ∧ Symmetric limit weights shares := by
  refine ⟨_, normalizeCapped_eq hweights hlimit hone, ?_, ?_, ?_, ?_⟩
  · exact length_cappedShares limit weights
  · have hshares : ∀ share ∈ cappedShares limit weights, 0 ≤ share := by
      rcases eq_or_ne weights [] with rfl | hne
      · simp [cappedShares_nil]
      · exact (waterFilled_cappedShares hne hweights hlimit).nonneg
    rw [normalizeCapped_eq hshares hlimit hone, cappedShares_cappedShares hweights hlimit]
  · intro order horder
    have hothers : ∀ weight ∈ rearrange order weights, 0 ≤ weight :=
      fun weight hmem => hweights weight ((rearrange_perm horder).mem_iff.mp hmem)
    rw [normalizeCapped_eq hothers hlimit hone, cappedShares_rearrange hweights hlimit horder]
  · intro factor hfactor
    have hlarger : ∀ weight ∈ weights.map (factor * ·), 0 ≤ weight := by
      intro weight hmem
      obtain ⟨w, hw, rfl⟩ := List.mem_map.mp hmem
      exact mul_nonneg hfactor.le (hweights w hw)
    rw [normalizeCapped_eq hlarger hlimit hone, cappedShares_scale weights limit hfactor]

theorem normalizeCapped_symmetric_tail :
    ∃ shares, normalizeCapped [0, 7, 0] (2 / 5) = .ok shares ∧
      Symmetric (2 / 5) [0, 7, 0] shares :=
  normalizeCapped_symmetric (by simp) (by norm_num) (by norm_num)

end Apportion.Proofs.Weights.ShareSymmetries
