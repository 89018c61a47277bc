import Apportion.Proofs.Weights.DoubleShares
import Apportion.Proofs.Weights.ProcessingSteps

namespace Apportion.Proofs.Weights.EmissionOfProcessed

open Apportion.Number.Arithmetic
open Apportion.Sparse.Scatter
open Apportion.Weights.Normalization
open Apportion.Weights.Quantization
open Apportion.Weights.Policies
open Apportion.Weights.Processing
open Apportion.Proofs.Number.Doubles
open Apportion.Proofs.Weights.CapPasses
open Apportion.Proofs.Weights.Checks
open Apportion.Proofs.Weights.DoubleShares
open Apportion.Proofs.Weights.ProcessingSteps

section Generic

variable {α : Type} [Scalar α]

/-- The weights that are divided by their total in the end. There are none where every position gets
an equal share. -/
def dividedWeights (size : Nat) (policy : Policy α) (pairs : List (Int × α)) : List α :=
  if pairs.isEmpty ∨ size < policy.minimumCount.toNat then []
  else if pairs.length < policy.minimumCount.toNat then
    (place (List.replicate size 0) pairs).map (· + weightFloor)
  else (pairs.filter fun pair => decide (cutoff policy pairs ≤ pair.2)).map Prod.snd

def processedShares (size : Nat) (policy : Policy α) (pairs : List (Int × α)) : List (Share α) :=
  lastShares policy.limit (dividedWeights size policy pairs)

theorem lastShares_nil (limit : α) : lastShares limit [] = [] := by
  rcases cappedShares_cases limit [] with ⟨-, hnone⟩ | ⟨base, rfl, -, -, hlast⟩
  · exact hnone
  · have hempty : (boundedTotal ([] : List α)).1 = [] :=
      List.eq_nil_of_length_eq_zero (length_boundedTotal [])
    rw [hlast, hempty]
    rfl

theorem weights_of_route {size : Nat} {policy : Policy α} {pairs : List (Int × α)}
    {processed : Processed α} (hroute : Route size policy pairs processed) :
    processed.uids.length = processed.weights.length ∧
      (processed.weights = equalShares size ∧ processedShares size policy pairs = [] ∨
        normalizeCapped (dividedWeights size policy pairs) policy.limit = .ok processed.weights ∧
          ((dividedWeights size policy pairs).length = size ∨
            (dividedWeights size policy pairs).length ≤ pairs.length)) := by
  cases hroute with
  | equal hfew hresult =>
      have hdivided : dividedWeights size policy pairs = [] := if_pos (by simpa using hfew)
      subst hresult
      refine ⟨?_, .inl ⟨rfl, ?_⟩⟩
      · exact (length_everyUid size).trans List.length_replicate.symm
      · rw [processedShares, hdivided, lastShares_nil]
  | filled hsome hminimum hfew hresult =>
      obtain ⟨-, shares, hshares, rfl⟩ := fillUp_eq_ok_iff.mp hresult
      have hdivided : dividedWeights size policy pairs =
          (place (List.replicate size 0) pairs).map (· + weightFloor) := by
        rw [dividedWeights, if_neg (by simpa [not_or] using ⟨hsome, hminimum⟩), if_pos hfew]
      have hcount : (dividedWeights size policy pairs).length = size := by
        rw [hdivided, List.length_map, length_place, List.length_replicate]
      rw [← hdivided] at hshares
      refine ⟨?_, .inr ⟨hshares, .inl hcount⟩⟩
      obtain ⟨-, -, rfl⟩ := normalizeCapped_eq_ok_iff.mp hshares
      exact (length_everyUid size).trans ((length_cappedShares _ _).trans hcount).symm
  | excluded hsome hminimum henough hresult =>
      obtain ⟨shares, hshares, rfl⟩ := excludeTail_eq_ok_iff.mp hresult
      have hdivided : dividedWeights size policy pairs =
          (pairs.filter fun pair => decide (cutoff policy pairs ≤ pair.2)).map Prod.snd := by
        rw [dividedWeights, if_neg (by simpa [not_or] using ⟨hsome, hminimum⟩),
          if_neg (Nat.not_lt.mpr henough)]
      refine ⟨?_, .inr ⟨hdivided ▸ hshares, .inr ?_⟩⟩
      · obtain ⟨-, -, rfl⟩ := normalizeCapped_eq_ok_iff.mp hshares
        rw [length_cappedShares, List.length_map, List.length_map]
      · rw [hdivided, List.length_map]
        exact List.length_filter_le _ _

/-- An emission that has all the positions given, and so many integers. -/
structure Lists (width : IntegerWidth) (uids : List Int) (count : ℕ) (emission : Emission) :
    Prop where
  width : emission.width = width
  uids : emission.uids = uids.map Int.toNat
  length : emission.values.length = count

theorem quantize_eq_ok (width : IntegerWidth) {uids : List Int} {weights : List α}
    (hemittable : requireEmittable uids weights = .ok ()) :
    ∃ emission, quantize width uids weights = .ok emission ∧
      Lists width uids weights.length emission := by
  refine ⟨{
    width := width
    uids := uids.map Int.toNat
    values :=
      if (boundedTotal weights).2 == 0 then List.replicate weights.length 0
      else scaleToWidth width (boundedTotal weights).1 (boundedTotal weights).2 }, ?_, rfl, rfl, ?_⟩
  · rw [quantize, hemittable]
    rfl
  · show (if (boundedTotal weights).2 == 0 then _ else _ : List Nat).length = _
    split
    · exact List.length_replicate
    · rw [scaleToWidth, List.length_map, length_boundedTotal]

theorem emit_eq {policy : Policy α} (husable : Usable policy) (processed : Processed α) :
    emit policy processed =
      quantize (if policy.emissionBits = 32 then .bits32 else .bits16) processed.uids
        processed.weights := by
  rw [emit, validate_eq_ok_iff.mpr (fault_eq_none_iff.mpr husable)]
  rfl

theorem uid_of_route {size : Nat} {uids : List Int} {weights : List α} {policy : Policy α}
    {processed : Processed α} (haccepted : Accepted size uids weights policy)
    (hroute : Route size policy (positivePairs uids weights) processed) :
    ∀ uid ∈ processed.uids, 0 ≤ uid := by
  cases hroute with
  | equal hfew hresult =>
      subst hresult
      exact fun uid hmem => (mem_everyUid.mp hmem).1
  | filled hsome hminimum hfew hresult =>
      obtain ⟨-, shares, -, rfl⟩ := fillUp_eq_ok_iff.mp hresult
      exact fun uid hmem => (mem_everyUid.mp hmem).1
  | excluded hsome hminimum henough hresult =>
      obtain ⟨shares, -, rfl⟩ := excludeTail_eq_ok_iff.mp hresult
      intro uid hmem
      obtain ⟨pair, hpair, rfl⟩ := List.mem_map.mp hmem
      have hpositive := (mem_positivePairs.mp (List.mem_of_mem_filter hpair)).1
      exact haccepted.uid pair.1 (List.of_mem_zip hpositive).1

end Generic

/-- What becomes of processed weights when they are emitted: they are finite, and unless one case
holds, none is negative and each position gets an integer. In that case a negative weight is
refused. -/
structure EmittedUnless (fails : Prop) (policy : Policy Float) (processed : Processed Float) :
    Prop where
  isFinite : ∀ weight ∈ processed.weights, weight.isFinite = true
  emitted : ¬fails → (∀ weight ∈ processed.weights, ¬weight < 0) ∧
    ∃ emission, emit policy processed = .ok emission ∧
      emission.values.length = processed.uids.length
  refused : fails → ∃ position weight, processed.weights[position]? = some weight ∧ weight < 0 ∧
    emit policy processed = .error (.negativeWeight position weight)

theorem emittedUnless_of_sizesUnless {fails : Prop} {policy : Policy Float}
    {processed : Processed Float} (husable : Usable policy)
    (hlength : processed.uids.length = processed.weights.length)
    (huids : ∀ uid ∈ processed.uids, 0 ≤ uid) (hweights : SizesUnless fails processed.weights) :
    EmittedUnless fails policy processed where
  isFinite := hweights.isFinite
  emitted := by
    intro hsound
    have hsizes : ∀ weight ∈ processed.weights, weight.isFinite = true ∧ ¬weight < 0 :=
      fun weight hmem => isSize_iff.mp (hweights.isSize hsound weight hmem)
    refine ⟨fun weight hmem => (hsizes weight hmem).2, ?_⟩
    rw [emit_eq husable]
    obtain ⟨emission, hemission, hlists⟩ :=
      quantize_eq_ok _ (requireEmittable_eq_ok_iff.mpr ⟨hlength, hsizes, huids⟩)
    exact ⟨emission, hemission, hlists.length.trans hlength.symm⟩
  refused := by
    intro hfails
    obtain ⟨position, weight, hposition, hneg, herror⟩ :=
      requireEmittable_eq_error hlength hweights.isFinite (hweights.negative hfails)
    refine ⟨position, weight, hposition, hneg, ?_⟩
    rw [emit_eq husable, quantize, herror]
    rfl

theorem sizesUnless_of_route {size : Nat} {uids : List Int} {weights : List Float}
    {policy : Policy Float} {processed : Processed Float} (hsize : size < 2 ^ 64)
    (hcount : weights.length < 2 ^ 64) (husable : Usable policy)
    (hroute : Route size policy (positivePairs uids weights) processed) :
    SizesUnless (Overdrawn policy.limit (processedShares size policy (positivePairs uids weights)))
      processed.weights := by
  obtain ⟨-, ⟨hequal, hnone⟩ | ⟨hshares, hlength⟩⟩ := weights_of_route hroute
  · rw [hequal, hnone]
    exact sizesUnless_of_isSize not_overdrawn_nil (equalShares_isSize hsize)
  · obtain ⟨-, hweights, hprocessed⟩ := normalizeCapped_eq_ok_iff.mp hshares
    rw [← hprocessed]
    apply sizesUnless_cappedShares (limit_of_between husable.limit_pos husable.limit_le)
    · have hpairs : (positivePairs uids weights).length ≤ weights.length := by
        refine (List.length_filter_le _ _).trans ?_
        rw [List.length_zip]
        exact min_le_right _ _
      omega
    · exact fun weight hmem => isSize_iff.mpr (hweights weight hmem)

/-- What is processed can be emitted, unless the passes that cap shares end overdrawn. -/
theorem emit_of_process {n : Int} {uids : List Int} {weights : List Float} {policy : Policy Float}
    {processed : Processed Float} (hn : n < 2 ^ 63) (hcount : weights.length < 2 ^ 64)
    (hprocess : process n uids weights policy = .ok processed) :
    EmittedUnless
      (Overdrawn policy.limit (processedShares n.toNat policy (positivePairs uids weights)))
      policy processed := by
  obtain ⟨size, rfl, haccepted, hroute⟩ := process_eq_ok_iff.mp hprocess
  have hsize : size < 2 ^ 64 := by omega
  exact emittedUnless_of_sizesUnless haccepted.usable (weights_of_route hroute).1
    (uid_of_route haccepted hroute) (sizesUnless_of_route hsize hcount haccepted.usable hroute)

/-- Nine shares capped just above a ninth are worth more than one together, and the tenth position
is left with less than nothing. -/
theorem emit_nine_capped :
    ∃ processed,
      process 10 [0, 1, 2, 3, 4, 5, 6, 7, 8] (List.replicate 9 1e24)
          ⟨10, 0.11111111111111113, 0, 16⟩ = .ok processed ∧
        ∃ position weight, processed.weights[position]? = some weight ∧ weight < 0 ∧
          emit ⟨10, 0.11111111111111113, 0, 16⟩ processed =
            .error (.negativeWeight position weight) := by
  have hok : (process 10 [0, 1, 2, 3, 4, 5, 6, 7, 8] (List.replicate 9 (1e24 : Float))
      ⟨10, 0.11111111111111113, 0, 16⟩).isOk = true := by
    decide +kernel
  have hover : Overdrawn 0.11111111111111113 (processedShares 10 ⟨10, 0.11111111111111113, 0, 16⟩
      (positivePairs [0, 1, 2, 3, 4, 5, 6, 7, 8] (List.replicate 9 1e24))) := by
    unfold Overdrawn
    decide +kernel
  cases hprocess : process 10 [0, 1, 2, 3, 4, 5, 6, 7, 8] (List.replicate 9 (1e24 : Float))
      ⟨10, 0.11111111111111113, 0, 16⟩ with
  | error cause =>
      rw [hprocess] at hok
      cases hok
  | ok processed =>
      exact ⟨processed, rfl, (emit_of_process (by decide) (by decide) hprocess).refused hover⟩

end Apportion.Proofs.Weights.EmissionOfProcessed
