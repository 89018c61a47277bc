import Apportion.Proofs.Number.Doubles
import Apportion.Proofs.Weights.CapPasses
import Apportion.Proofs.Weights.Checks

/-!
The limit is a ceiling without any tolerance, however the operations on shares round. What carries
this is the marks: a pass sets one at least and takes none away, so that as many passes as there are
shares leave nothing above the limit.
-/

namespace Apportion.Proofs.Weights.ExactCeiling

open Apportion.Number.Arithmetic
open Apportion.Weights.Normalization
open Apportion.Proofs.Number.Doubles
open Apportion.Proofs.Weights.CapPasses
open Apportion.Proofs.Weights.Checks

/-- All that a ceiling needs of the order of the numbers. The second fact is for base shares only,
which are kept as they are if each of them is at most the limit. -/
class CeilingOrder (α : Type) [Scalar α] : Prop where
  not_lt_self (limit : α) : ¬limit < limit
  not_lt_of_le {share limit : α} : share ≤ limit → ¬limit < share

instance ceilingOrderOfDouble : CeilingOrder Float where
  not_lt_self := not_double_lt_self
  not_lt_of_le := not_lt_of_double_le

instance ceilingOrderOfFraction : CeilingOrder Rat where
  not_lt_self _ := lt_irrefl _
  not_lt_of_le := not_lt_of_ge

variable {α : Type} [Scalar α]

/-- What one turn of the passes does. -/
inductive Turn (limit : α) (before after : List (Share α)) : Prop where
  /-- Nothing is above the limit that is not capped, and the passes end. -/
  | ended (hnone : before.any (·.overflows limit) = false) (hafter : after = before)
  /-- More shares are capped than before, among them all that were. A share that is left free, which
  may have to be given an even part, is counted among the free ones. -/
  | capped (hover : before.any (·.overflows limit) = true) (hafter : after = capPass limit before)
      (hmore : before.countP (·.capped) < after.countP (·.capped))
      (hkept : ∀ (position : Nat) share, before[position]? = some share → share.capped = true →
        ∃ later, after[position]? = some later ∧ later.capped = true)
      (hdivisor : ∀ share ∈ before.map (·.mark limit), share.capped = false →
        0 < (before.map (·.mark limit)).length -
          (before.map (·.mark limit)).countP (·.capped))

/-- Shares that come from the passes with none of them above the limit. -/
structure Ceiled (limit : α) (weights shares : List α) : Prop where
  first : sharesAfter limit weights 0 =
    firstShares ((boundedTotal weights).1.map (· / (boundedTotal weights).2))
  turn : ∀ pass, Turn limit (sharesAfter limit weights pass) (sharesAfter limit weights (pass + 1))
  settled : (sharesAfter limit weights weights.length).any (·.overflows limit) = false
  values : shares = (sharesAfter limit weights weights.length).map (·.value)
  not_above : ∀ share ∈ shares, ¬limit < share
  capped_eq : ∀ pass ≤ weights.length, ∀ (position : Nat) share,
    (sharesAfter limit weights pass)[position]? = some share → share.capped = true →
      shares[position]? = some limit

section Passes

variable {limit : α} {shares : List (Share α)}

omit [Scalar α] in
theorem countP_capped_add_freeCount (shares : List (Share α)) :
    shares.countP (·.capped) + freeCount shares = shares.length := by
  have hle : shares.countP (·.capped) ≤ shares.length := List.countP_le_length
  have hsub := length_sub_countP_capped shares
  omega

theorem getElem?_capPass (limit : α) (shares : List (Share α)) (position : Nat) :
    (capPass limit shares)[position]? = shares[position]?.map fun share =>
      { share.mark limit with
        value := spreadValue limit (shares.map (·.mark limit)) (share.mark limit) } := by
  rw [capPass, spread_eq, List.map_map, List.getElem?_map]
  rfl

theorem capped_mark {share : Share α} (hcapped : share.capped = true) :
    (share.mark limit).capped = true := by
  simp [Share.mark, hcapped]

theorem countP_capped_lt_capPass (hover : shares.any (·.overflows limit) = true) :
    shares.countP (·.capped) < (capPass limit shares).countP (·.capped) := by
  have hfewer := freeCount_capPass_lt hover
  have hbefore := countP_capped_add_freeCount shares
  have hafter := countP_capped_add_freeCount (capPass limit shares)
  rw [length_capPass] at hafter
  omega

theorem turn_capPass (hover : shares.any (·.overflows limit) = true) :
    Turn limit shares (capPass limit shares) := by
  refine .capped hover rfl (countP_capped_lt_capPass hover) ?_ ?_
  · intro position share hshare hcapped
    rw [getElem?_capPass, hshare]
    exact ⟨_, rfl, capped_mark hcapped⟩
  · intro share hmem hcapped
    rw [length_sub_countP_capped]
    exact List.countP_pos_iff.mpr ⟨share, hmem, by simp [hcapped]⟩

def CappedAtLimit (limit : α) (shares : List (Share α)) : Prop :=
  ∀ share ∈ shares, share.capped = true → share.value = limit

omit [Scalar α] in
theorem cappedAtLimit_first (limit : α) (base : List α) :
    CappedAtLimit limit (firstShares base) := by
  intro share hmem hcapped
  obtain ⟨part, -, rfl⟩ := List.mem_map.mp hmem
  exact absurd hcapped Bool.false_ne_true

theorem cappedAtLimit_capPass (limit : α) (shares : List (Share α)) :
    CappedAtLimit limit (capPass limit shares) := by
  intro share hmem hcapped
  obtain ⟨before, -, rfl⟩ := mem_spread.mp hmem
  exact if_pos hcapped

end Passes

section Runs

variable {limit : α} {weights : List α}

theorem turn_sharesAfter (limit : α) (weights : List α) (pass : Nat) :
    Turn limit (sharesAfter limit weights pass) (sharesAfter limit weights (pass + 1)) := by
  rcases sharesAfter_cases limit weights with hnone | hpasses
  · rw [hnone, hnone]
    exact .ended rfl rfl
  · rw [hpasses, hpasses, capPasses_succ_last]
    split
    · rename_i hover
      exact turn_capPass hover
    · rename_i hover
      exact .ended (Bool.eq_false_iff.mpr hover) rfl

theorem capped_of_le {pass later : Nat} (hle : pass ≤ later) {position : Nat} {share : Share α}
    (hshare : (sharesAfter limit weights pass)[position]? = some share)
    (hcapped : share.capped = true) :
    ∃ share', (sharesAfter limit weights later)[position]? = some share' ∧
      share'.capped = true := by
  induction later, hle using Nat.le_induction with
  | base => exact ⟨share, hshare, hcapped⟩
  | succ later hle ih =>
      obtain ⟨share', hshare', hcapped'⟩ := ih
      cases turn_sharesAfter limit weights later with
      | ended hnone hafter =>
          rw [hafter]
          exact ⟨share', hshare', hcapped'⟩
      | capped hover hafter hmore hkept => exact hkept position share' hshare' hcapped'

theorem cappedAtLimit_sharesAfter (limit : α) (weights : List α) (pass : Nat) :
    CappedAtLimit limit (sharesAfter limit weights pass) := by
  rcases sharesAfter_cases limit weights with hnone | hpasses
  · rw [hnone]
    exact fun share hmem => absurd hmem List.not_mem_nil
  · rw [hpasses]
    exact capPasses_keeps (fun shares _ _ => cappedAtLimit_capPass limit shares) pass
      (cappedAtLimit_first limit _)

theorem not_overflows_sharesAfter (limit : α) (weights : List α) :
    (sharesAfter limit weights weights.length).any (·.overflows limit) = false := by
  rcases sharesAfter_cases limit weights with hnone | hpasses
  · rw [hnone]
    rfl
  · rw [hpasses]
    apply any_overflows_capPasses
    refine List.countP_le_length.trans ?_
    rw [firstShares, List.length_map, List.length_map, length_boundedTotal]

theorem not_lt_of_not_overflows [CeilingOrder α] {shares : List (Share α)}
    (hlimit : CappedAtLimit limit shares) (hnone : shares.any (·.overflows limit) = false) :
    ∀ share ∈ shares, ¬limit < share.value := by
  intro share hmem
  cases hcapped : share.capped with
  | true =>
      rw [hlimit share hmem hcapped]
      exact CeilingOrder.not_lt_self limit
  | false => simpa [Share.overflows, hcapped] using List.any_eq_false.mp hnone share hmem

end Runs

/-- Where equal shares are not given at once, no share is above the limit, not even by rounding, and
the passes are as many as they need to be. -/
theorem normalizeCapped_ceiled [CeilingOrder α] {weights shares : List α} {limit : α}
    (hsum : ((boundedTotal weights).2 == 0) = false)
    (hroom : ¬limit * Scalar.ofNat weights.length ≤ 1)
    (hshares : normalizeCapped weights limit = .ok shares) : Ceiled limit weights shares := by
  obtain ⟨-, -, hcapped⟩ := normalizeCapped_eq_ok_iff.mp hshares
  have hvalues : shares = (sharesAfter limit weights weights.length).map (·.value) := by
    rw [← hcapped, cappedShares_eq_map_value hsum hroom CeilingOrder.not_lt_of_le]
  have hlimit := cappedAtLimit_sharesAfter limit weights weights.length
  have hnone := not_overflows_sharesAfter limit weights
  refine ⟨sharesAfter_eq hsum hroom 0, turn_sharesAfter limit weights, hnone, hvalues, ?_, ?_⟩
  · rw [hvalues]
    intro x hmem
    obtain ⟨share, hshare, rfl⟩ := List.mem_map.mp hmem
    exact not_lt_of_not_overflows hlimit hnone share hshare
  · intro pass hpass position share hshare hcapped
    obtain ⟨last, hlast, hlastCapped⟩ := capped_of_le hpass hshare hcapped
    rw [hvalues, List.getElem?_map, hlast, ← hlimit last (List.mem_of_getElem? hlast) hlastCapped]
    rfl

theorem normalizeCapped_ceiled_two_passes :
    ∃ shares, normalizeCapped ([100, 28, 1, 1, 1, 1] : List Float) 0.3 = .ok shares ∧
      Ceiled 0.3 [100, 28, 1, 1, 1, 1] shares := by
  have hok : (normalizeCapped ([100, 28, 1, 1, 1, 1] : List Float) 0.3).isOk = true := by
    decide +kernel
  cases hshares : normalizeCapped ([100, 28, 1, 1, 1, 1] : List Float) 0.3 with
  | error cause =>
      rw [hshares] at hok
      cases hok
  | ok shares =>
      exact ⟨shares, rfl, normalizeCapped_ceiled (by decide +kernel) (by decide +kernel) hshares⟩

end Apportion.Proofs.Weights.ExactCeiling
