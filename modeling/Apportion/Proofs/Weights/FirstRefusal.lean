import Apportion.Proofs.Weights.DoubleShares
import Apportion.Proofs.Weights.ProcessingSteps
import Apportion.Proofs.Weights.QuantileCounts

namespace Apportion.Proofs.Weights.FirstRefusal

open Apportion.Number.Arithmetic
open Apportion.Sparse.Universe
open Apportion.Sparse.Scatter
open Apportion.Weights.Refusal
open Apportion.Weights.Normalization
open Apportion.Weights.Quantization
open Apportion.Weights.Policies
open Apportion.Weights.Processing
open Apportion.Weights.Quantile (quantile)
open Apportion.Proofs.Number.Doubles
open Apportion.Proofs.Number.DoubleSums
open Apportion.Proofs.Weights.Checks
open Apportion.Proofs.Weights.DoubleShares
open Apportion.Proofs.Weights.ProcessingSteps

/-- No weight: not a number, infinite, or below zero. -/
def Unusable (weight : Float) : Prop :=
  weight.isNaN = true ∨ weight.isInf = true ∨ weight < 0

/-- Why weights cannot be emitted for positions. The lengths are looked at first, then the weights,
and the positions last. -/
inductive Unemittable (uids : List Int) (weights : List Float) : WeightError Float → Prop
  | lengths (hlength : uids.length ≠ weights.length) :
      Unemittable uids weights
        (.sparse (.lengthMismatch "uids" uids.length "weights" weights.length))
  | notFinite {position : Nat} {weight : Float} (hlength : uids.length = weights.length)
      (hfirst : FirstAt Unusable weights position weight)
      (hweight : weight.isNaN = true ∨ weight.isInf = true ∧ 0 < weight) :
      Unemittable uids weights (.notFinite position weight)
  | negativeWeight {position : Nat} {weight : Float} (hlength : uids.length = weights.length)
      (hfirst : FirstAt Unusable weights position weight) (hweight : weight < 0) :
      Unemittable uids weights (.negativeWeight position weight)
  | negativeUid {position : Nat} {uid : Int} (hlength : uids.length = weights.length)
      (hweights : ∀ weight ∈ weights, ¬Unusable weight)
      (hfirst : FirstAt (· < 0) uids position uid) :
      Unemittable uids weights (.negativeUid position uid)

/-- Why a submission for a universe of `n` positions is refused: the universe, the policy, what
cannot be emitted either, and then the first positive weight outside the universe. -/
inductive Refused (n : Int) (uids : List Int) (weights : List Float) (policy : Policy Float) :
    WeightError Float → Prop
  | size (hn : n < 0) : Refused n uids weights policy (.sparse (.negativeSize n))
  | policy {fault : PolicyError Float} (hn : 0 ≤ n) (hpolicy : policy.validate = .error fault) :
      Refused n uids weights policy (.policy fault)
  | unemittable {cause : WeightError Float} (hn : 0 ≤ n) (hpolicy : policy.validate = .ok ())
      (hcause : Unemittable uids weights cause) : Refused n uids weights policy cause
  | outside {position : Nat} {uid : Int} {weight : Float} (hn : 0 ≤ n)
      (hpolicy : policy.validate = .ok ())
      (hemittable : ∀ cause, ¬Unemittable uids weights cause)
      (hfirst : FirstAt (fun pair : Int × Float => 0 < pair.2 ∧ n ≤ pair.1) (uids.zip weights)
        position (uid, weight)) :
      Refused n uids weights policy (.sparse (.outOfRange uid n.toNat))

/-- The outcomes of processing a submission: an error for each reason to refuse it, a result where
there is none, and the errors of emission but for weights outside the universe. Where there is no
reason to refuse it, its positive weights can also be written at their positions. -/
structure Decided (n : Int) (uids : List Int) (weights : List Float) (policy : Policy Float) :
    Prop where
  error_iff : ∀ cause, process n uids weights policy = .error cause ↔
    Refused n uids weights policy cause
  ok_iff : (∃ processed, process n uids weights policy = .ok processed) ↔
    ∀ cause, ¬Refused n uids weights policy cause
  scatter_eq : (∀ cause, ¬Refused n uids weights policy cause) →
    scatter 0 n ((positivePairs uids weights).map Prod.fst)
        ((positivePairs uids weights).map Prod.snd) =
      .ok (place (List.replicate n.toNat 0) (positivePairs uids weights))
  quantize_iff : 0 ≤ n → policy.validate = .ok () → ∀ width cause,
    quantize width uids weights = .error cause ↔
      process n uids weights policy = .error cause ∧
        ∀ index size, cause ≠ .sparse (.outOfRange index size)

theorem not_unusable_iff {weight : Float} : ¬Unusable weight ↔ IsSize weight := by
  rw [isSize_iff, Unusable, ← or_assoc, ← isFinite_eq_false_iff, not_or, Bool.not_eq_false]

theorem emissionFault_eq_none (weight : Float) (position : Nat) :
    emissionFault (weight, position) = none ↔ ¬Unusable weight := by
  rw [emissionFault_eq_none_iff, not_unusable_iff, isSize_iff]
  rfl

/-- The infinity below zero is reported as negative and not as infinite. -/
theorem emissionFault_eq_some_iff {weight : Float} {position : Nat} {cause : WeightError Float} :
    emissionFault (weight, position) = some cause ↔
      (weight.isNaN = true ∨ weight.isInf = true ∧ 0 < weight) ∧
          .notFinite position weight = cause ∨
        weight < 0 ∧ .negativeWeight position weight = cause := by
  unfold emissionFault
  by_cases hneg : weight < 0
  · have hnot : ¬(weight.isNaN = true ∨ weight.isInf = true ∧ 0 < weight) := by
      rintro (hnan | ⟨-, hpos⟩)
      · exact not_neg_of_isNaN hnan hneg
      · exact not_lt_of_double_le (le_of_double_lt hpos) hneg
    rw [if_pos hneg, Option.some.injEq]
    simp only [hnot, hneg, false_and, true_and, false_or]
  · have hnot : weight.isFinite = false ↔
        weight.isNaN = true ∨ weight.isInf = true ∧ 0 < weight := by
      rw [isFinite_eq_false_iff]
      exact or_congr_right ⟨fun hinfinite => ⟨hinfinite, pos_of_isInf hinfinite hneg⟩, And.left⟩
    rw [if_neg hneg, ← hnot]
    simp only [hneg, false_and, or_false]
    change (if !weight.isFinite then some _ else none) = _ ↔ _
    cases weight.isFinite <;> simp

theorem requireEmittable_eq_error_iff_unemittable {uids : List Int} {weights : List Float}
    {cause : WeightError Float} :
    requireEmittable uids weights = .error cause ↔ Unemittable uids weights cause := by
  have huidKind : ∀ (uid : Int) (position : Nat),
      (uidFault (uid, position) : Option (WeightError Float)) = none ↔ ¬uid < 0 :=
    fun uid position => uidFault_eq_none_iff.trans Int.not_lt.symm
  rw [requireEmittable_eq_error_iff, findSome?_zipIdx_eq_some_iff emissionFault_eq_none,
    findSome?_zipIdx_eq_some_iff huidKind, findSome?_zipIdx_eq_none_iff]
  simp only [emissionFault_eq_none, emissionFault_eq_some_iff, forall_getElem?_iff (¬Unusable ·)]
  constructor
  · rintro (⟨hlength, rfl⟩ | ⟨hlength, ⟨position, weight, hfirst, ⟨hweight, rfl⟩ | ⟨hweight, rfl⟩⟩ |
      ⟨hweights, position, uid, hfirst, hfault⟩⟩)
    · exact .lengths hlength
    · exact .notFinite hlength hfirst hweight
    · exact .negativeWeight hlength hfirst hweight
    · rw [uidFault, if_pos hfirst.holds] at hfault
      cases hfault
      exact .negativeUid hlength hweights hfirst
  · intro hcause
    cases hcause with
    | lengths hlength => exact .inl ⟨hlength, rfl⟩
    | notFinite hlength hfirst hweight =>
        exact .inr ⟨hlength, .inl ⟨_, _, hfirst, .inl ⟨hweight, rfl⟩⟩⟩
    | negativeWeight hlength hfirst hweight =>
        exact .inr ⟨hlength, .inl ⟨_, _, hfirst, .inr ⟨hweight, rfl⟩⟩⟩
    | negativeUid hlength hweights hfirst =>
        exact .inr ⟨hlength, .inr ⟨hweights, _, _, hfirst, if_pos hfirst.holds⟩⟩

theorem find?_outside_eq_some_iff {size : Nat} {uids : List Int} {weights : List Float}
    {pair : Int × Float} :
    ((positivePairs uids weights).find? fun pair => decide ((size : Int) ≤ pair.1)) = some pair ↔
      ∃ position, FirstAt (fun pair : Int × Float => 0 < pair.2 ∧ (size : Int) ≤ pair.1)
        (uids.zip weights) position pair := by
  rw [positivePairs, List.find?_filter, find?_eq_some_iff_firstAt]
  simp only [decide_eq_true_eq]

theorem weightFloor_within : Within 0 1 (weightFloor : Float) := by
  have hcount : (100000 : Nat) < 2 ^ 64 := by norm_num
  have hone : 1 ≤ value (Scalar.ofNat 100000) := one_le_value_ofNat hcount (by norm_num)
  refine div_within ⟨value_one.1, ?_⟩ (ofNat_within hcount).isFinite (by linarith) ?_
  · rw [value_one.2]
    norm_num
  · rw [value_one.2]
    exact hone

theorem exists_allot {size : Nat} {policy : Policy Float} {pairs : List (Int × Float)}
    (husable : Usable policy) (hpairs : ∀ pair ∈ pairs, IsSize pair.2)
    (hinside : ∀ pair ∈ pairs, 0 ≤ pair.1 ∧ pair.1 < size) :
    ∃ processed, allot size policy pairs = .ok processed := by
  have hlimit : 0 < policy.limit ∧ policy.limit ≤ 1 := ⟨husable.limit_pos, husable.limit_le⟩
  have hnormal : ∀ weights : List Float, (∀ weight ∈ weights, IsSize weight) →
      normalizeCapped weights policy.limit = .ok (cappedShares policy.limit weights) :=
    fun weights hweights => normalizeCapped_eq_ok_iff.mpr
      ⟨hlimit, fun weight hmem => isSize_iff.mp (hweights weight hmem), rfl⟩
  unfold allot
  split
  · exact ⟨_, rfl⟩
  split
  · refine ⟨_, fillUp_eq_ok_iff.mpr ⟨hinside, _, hnormal _ ?_, rfl⟩⟩
    intro weight hmem
    obtain ⟨original, horiginal, rfl⟩ := List.mem_map.mp hmem
    -- The floor is at most one, so the sum is finite even for the largest double.
    refine isSize_add_of_le_one ?_ weightFloor_within
    rcases mem_place horiginal with hzero | hpair
    · rw [(List.mem_replicate.mp hzero).2]
      exact ⟨value_zero.1, value_zero.2.ge⟩
    · obtain ⟨pair, hplaced, rfl⟩ := List.mem_map.mp hpair
      exact hpairs pair hplaced
  · refine ⟨_, excludeTail_eq_ok_iff.mpr ⟨_, hnormal _ ?_, rfl⟩⟩
    intro weight hmem
    obtain ⟨pair, hkept, rfl⟩ := List.mem_map.mp hmem
    exact hpairs pair (List.mem_of_mem_filter hkept)

/-- The cutoff is a quantile at a place of the list, and so never looks for one behind its end. -/
theorem exists_fraction_of_cutoff {policy : Policy Float} {pairs : List (Int × Float)}
    (husable : Usable policy) (hsome : pairs ≠ []) (hlength : pairs.length < 2 ^ 53) :
    ∃ fraction, 0 ≤ fraction ∧ fraction ≤ 1 ∧
      cutoff policy pairs = quantile (pairs.map Prod.snd) fraction := by
  simp only [cutoff]
  split
  · exact ⟨_, husable.quantile_nonneg, husable.quantile_le, rfl⟩
  · have hexact : ∀ count ≤ pairs.length, (Scalar.ofNat count : Float).isFinite = true ∧
        value (Scalar.ofNat count) = count := fun count hcount =>
      (gives_ofNat count).value_eq (representable_natCast (hcount.trans_lt hlength))
    have hall := hexact pairs.length le_rfl
    have hrest := hexact (pairs.length - policy.minimumCount.toNat) (Nat.sub_le _ _)
    have hpos : 0 < value (Scalar.ofNat pairs.length) := by
      rw [hall.2]
      exact_mod_cast List.length_pos_of_ne_nil hsome
    have hwithin := div_within ⟨hrest.1, hrest.2 ▸ Nat.cast_nonneg _⟩ hall.1 hpos (by
      rw [hrest.2, hall.2]
      exact_mod_cast Nat.sub_le _ _)
    obtain ⟨hnonneg, hone⟩ := within_zero_one_iff.mp hwithin
    exact ⟨_, hnonneg, hone, rfl⟩

section Submission

variable {size : Nat} {n : Int} {uids : List Int} {weights : List Float} {policy : Policy Float}
  {cause : WeightError Float}

theorem allot_ne_error (hpolicy : policy.validate = .ok ())
    (hemittable : requireEmittable uids weights = .ok ())
    (hinside : ∀ pair ∈ positivePairs uids weights, pair.1 < size) :
    allot size policy (positivePairs uids weights) ≠ .error cause := by
  have husable := fault_eq_none_iff.mp (validate_eq_ok_iff.mp hpolicy)
  obtain ⟨hlength, hweights, huids⟩ := requireEmittable_eq_ok_iff.mp hemittable
  have haccepted : Accepted size uids weights policy :=
    ⟨husable, hlength, hweights, huids, hinside⟩
  have hpairs : ∀ pair ∈ positivePairs uids weights, IsSize pair.2 := fun pair hmem =>
    isSize_iff.mpr (hweights pair.2 (List.of_mem_zip (mem_positivePairs.mp hmem).1).2)
  obtain ⟨processed, hallot⟩ : ∃ processed, allot size policy (positivePairs uids weights) =
      .ok processed := exists_allot husable hpairs haccepted.inside_universe
  rw [hallot]
  nofun

theorem requireEmittable_eq_ok_iff_forall :
    requireEmittable uids weights = .ok () ↔ ∀ cause, ¬Unemittable uids weights cause := by
  simp only [← requireEmittable_eq_error_iff_unemittable]
  cases requireEmittable uids weights <;> simp

theorem process_eq_error_iff :
    process n uids weights policy = .error cause ↔ Refused n uids weights policy cause := by
  rcases lt_or_ge n 0 with hneg | hnonneg
  · have herror : process n uids weights policy = .error (.sparse (.negativeSize n)) := by
      rw [process, positionCount, if_pos hneg]
      rfl
    rw [herror, Except.error.injEq]
    constructor
    · rintro rfl
      exact .size hneg
    · intro hrefused
      cases hrefused with
      | size hn => rfl
      | policy hn hpolicy => omega
      | unemittable hn hpolicy hcause => omega
      | outside hn hpolicy hemittable hfirst => omega
  · obtain ⟨size, rfl⟩ := Int.eq_ofNat_of_zero_le hnonneg
    rw [process_natCast_eq_error_iff]
    constructor
    · rintro (⟨fault, hpolicy, rfl⟩ | ⟨hpolicy, hcause | ⟨hemittable, ⟨pair, houtside, rfl⟩ |
        ⟨hinside, hallot⟩⟩⟩)
      · exact .policy hnonneg hpolicy
      · exact .unemittable hnonneg hpolicy (requireEmittable_eq_error_iff_unemittable.mp hcause)
      · obtain ⟨position, hfirst⟩ := find?_outside_eq_some_iff.mp houtside
        exact .outside hnonneg hpolicy (requireEmittable_eq_ok_iff_forall.mp hemittable) hfirst
      · exact absurd hallot (allot_ne_error hpolicy hemittable hinside)
    · intro hrefused
      cases hrefused with
      | size hn => omega
      | policy hn hpolicy => exact .inl ⟨_, hpolicy, rfl⟩
      | unemittable hn hpolicy hcause =>
          exact .inr ⟨hpolicy, .inl (requireEmittable_eq_error_iff_unemittable.mpr hcause)⟩
      | outside hn hpolicy hemittable hfirst =>
          exact .inr ⟨hpolicy, .inr ⟨requireEmittable_eq_ok_iff_forall.mpr hemittable,
            .inl ⟨_, find?_outside_eq_some_iff.mpr ⟨_, hfirst⟩, rfl⟩⟩⟩

theorem exists_process_iff :
    (∃ processed, process n uids weights policy = .ok processed) ↔
      ∀ cause, ¬Refused n uids weights policy cause := by
  simp only [← process_eq_error_iff]
  cases process n uids weights policy <;> simp

theorem scatter_of_process {processed : Processed Float}
    (hprocess : process n uids weights policy = .ok processed) :
    scatter 0 n ((positivePairs uids weights).map Prod.fst)
        ((positivePairs uids weights).map Prod.snd) =
      .ok (place (List.replicate n.toNat 0) (positivePairs uids weights)) := by
  obtain ⟨size, rfl, haccepted, -⟩ := process_eq_ok_iff.mp hprocess
  exact scatter_pairs_eq_ok_iff.mpr ⟨haccepted.inside_universe, rfl⟩

theorem quantize_eq_error_iff_process (hn : 0 ≤ n) (hpolicy : policy.validate = .ok ())
    (width : IntegerWidth) :
    quantize width uids weights = .error cause ↔
      process n uids weights policy = .error cause ∧
        ∀ index size, cause ≠ .sparse (.outOfRange index size) := by
  rw [quantize_eq_error_iff, requireEmittable_eq_error_iff_unemittable, process_eq_error_iff]
  constructor
  · intro hcause
    refine ⟨.unemittable hn hpolicy hcause, ?_⟩
    cases hcause <;> nofun
  · rintro ⟨hrefused, hinside⟩
    cases hrefused with
    | size hneg => omega
    | policy _ hfault =>
        rw [hpolicy] at hfault
        cases hfault
    | unemittable _ _ hcause => exact hcause
    | outside => exact absurd rfl (hinside _ _)

end Submission

/-- Every submission is refused for the first reason that there is, and for nothing else. -/
theorem process_decided (n : Int) (uids : List Int) (weights : List Float)
    (policy : Policy Float) : Decided n uids weights policy where
  error_iff _ := process_eq_error_iff
  ok_iff := exists_process_iff
  scatter_eq haccepted :=
    have ⟨_, hprocess⟩ := exists_process_iff.mpr haccepted
    scatter_of_process hprocess
  quantize_iff hn hpolicy width _ := quantize_eq_error_iff_process hn hpolicy width

/-- A position outside the universe counts for nothing when its weight is zero. -/
example : (process 2 [0, 9] [1.5, 0] (⟨1, 1, 0, 16⟩ : Policy Float)).isOk = true := by
  decide +kernel

end Apportion.Proofs.Weights.FirstRefusal
