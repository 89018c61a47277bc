import Apportion.Proofs.Weights.Checks
import Apportion.Weights.Processing

namespace Apportion.Proofs.Weights.ProcessingSteps

open Apportion.Number.Arithmetic
open Apportion.Sparse.Universe
open Apportion.Sparse.Scatter
open Apportion.Weights.Refusal
open Apportion.Weights.Normalization
open Apportion.Weights.Quantization
open Apportion.Weights.Policies
open Apportion.Weights.Processing
open Apportion.Proofs.Outcomes
open Apportion.Proofs.Weights.Checks

theorem positionCount_eq_ok_iff {n : Int} {size : Nat} :
    positionCount n = .ok size ↔ n = size := by
  unfold positionCount
  split
  · simp
    omega
  · simp only [Except.ok.injEq]
    omega

theorem scatter_eq_ok {β : Type} {zero : β} {n : Int} {indices : List Int} {values : List β}
    (hn : 0 ≤ n) (hlength : indices.length = values.length)
    (hinside : ∀ index ∈ indices, 0 ≤ index ∧ index < n) :
    scatter zero n indices values =
      .ok (place (List.replicate n.toNat zero) (indices.zip values)) := by
  have hsize : positionCount n = .ok n.toNat :=
    positionCount_eq_ok_iff.mpr (Int.toNat_of_nonneg hn).symm
  have hsame : requireSameLength "indices" indices "values" values = .ok () :=
    requireSameLength_eq_ok_iff.mpr hlength
  have hnone : indices.find? (!inUniverse n.toNat ·) = none := by
    rw [List.find?_eq_none]
    intro index hmem
    have huniverse : inUniverse n.toNat index = true := by
      rw [inUniverse_iff, Int.toNat_of_nonneg hn]
      exact hinside index hmem
    rw [huniverse]
    decide
  rw [scatter, hsize, ok_bind, hsame, ok_bind, hnone]

theorem scatter_pairs_eq_ok_iff {β : Type} {zero : β} {size : Nat} {pairs : List (Int × β)}
    {dense : List β} :
    scatter zero size (pairs.map Prod.fst) (pairs.map Prod.snd) = .ok dense ↔
      (∀ pair ∈ pairs, 0 ≤ pair.1 ∧ pair.1 < size) ∧
        dense = place (List.replicate size zero) pairs := by
  have hsame : requireSameLength "indices" (pairs.map Prod.fst) "values" (pairs.map Prod.snd) =
      .ok () := requireSameLength_eq_ok_iff.mpr (by simp)
  have hinside : (pairs.map Prod.fst).find? (!inUniverse size ·) = none ↔
      ∀ pair ∈ pairs, 0 ≤ pair.1 ∧ pair.1 < size := by
    simp [List.find?_eq_none, inUniverse_iff]
  rw [scatter, positionCount_natCast, ok_bind, hsame, ok_bind, ← List.zip_of_prod rfl rfl,
    ← hinside]
  cases (pairs.map Prod.fst).find? (!inUniverse size ·) with
  | some index => simp
  | none => simp [eq_comm]

section Generic

variable {α : Type} [Scalar α]

theorem validate_eq_ok_iff {policy : Policy α} :
    policy.validate = .ok () ↔ policy.fault = none := by
  unfold Policy.validate
  cases policy.fault <;> simp

structure Usable (policy : Policy α) : Prop where
  limit_pos : 0 < policy.limit
  limit_le : policy.limit ≤ 1
  quantile_nonneg : 0 ≤ policy.quantile
  quantile_le : policy.quantile ≤ 1
  bits : policy.emissionBits = 16 ∨ policy.emissionBits = 32

theorem fault_eq_none_iff {policy : Policy α} : policy.fault = none ↔ Usable policy := by
  unfold Policy.fault
  constructor
  · intro hnone
    split at hnone
    · cases hnone
    split at hnone
    · cases hnone
    split at hnone
    · cases hnone
    rename_i hlimit hquantile hbits
    obtain ⟨hpos, hle⟩ := Classical.not_not.mp hlimit
    obtain ⟨hnonneg, hone⟩ := Classical.not_not.mp hquantile
    exact ⟨hpos, hle, hnonneg, hone, Classical.not_not.mp hbits⟩
  · rintro ⟨hpos, hle, hnonneg, hone, hbits⟩
    simp [hpos, hle, hnonneg, hone, hbits]

inductive Route (size : Nat) (policy : Policy α) (pairs : List (Int × α))
    (processed : Processed α) : Prop where
  | equal (hfew : pairs = [] ∨ size < policy.minimumCount.toNat)
      (hresult : processed = Processed.equalShares size)
  | filled (hsome : pairs ≠ []) (hsize : policy.minimumCount.toNat ≤ size)
      (hfew : pairs.length < policy.minimumCount.toNat)
      (hresult : fillUp size policy.limit pairs = .ok processed)
  | excluded (hsome : pairs ≠ []) (hsize : policy.minimumCount.toNat ≤ size)
      (henough : policy.minimumCount.toNat ≤ pairs.length)
      (hresult : excludeTail policy pairs = .ok processed)

structure Accepted (size : Nat) (uids : List Int) (weights : List α) (policy : Policy α) :
    Prop where
  usable : Usable policy
  length : uids.length = weights.length
  weight : ∀ weight ∈ weights, Scalar.isFinite weight = true ∧ ¬weight < 0
  uid : ∀ uid ∈ uids, 0 ≤ uid
  inside : ∀ pair ∈ positivePairs uids weights, pair.1 < size

omit [Scalar α] in
theorem find?_outside_eq_none_iff {size : Nat} {pairs : List (Int × α)} :
    (pairs.find? fun pair => decide ((size : Int) ≤ pair.1)) = none ↔
      ∀ pair ∈ pairs, pair.1 < size := by
  simp [List.find?_eq_none]

/-- The part of processing that comes after all checks. -/
def allot (size : Nat) (policy : Policy α) (pairs : List (Int × α)) :
    Except (WeightError α) (Processed α) :=
  if pairs.isEmpty ∨ size < policy.minimumCount.toNat then .ok (Processed.equalShares size)
  else if pairs.length < policy.minimumCount.toNat then fillUp size policy.limit pairs
  else excludeTail policy pairs

theorem allot_eq_ok_iff {size : Nat} {policy : Policy α} {pairs : List (Int × α)}
    {processed : Processed α} :
    allot size policy pairs = .ok processed ↔ Route size policy pairs processed := by
  unfold allot
  constructor
  · intro hallot
    split at hallot
    · rename_i hfew
      exact .equal (by simpa using hfew) (Except.ok.inj hallot).symm
    · rename_i hroom
      obtain ⟨hsome, hsize⟩ : pairs ≠ [] ∧ policy.minimumCount.toNat ≤ size := by
        simpa [not_or] using hroom
      split at hallot
      · rename_i hfew
        exact .filled hsome hsize hfew hallot
      · rename_i henough
        exact .excluded hsome hsize (Nat.not_lt.mp henough) hallot
  · rintro (⟨hfew, rfl⟩ | ⟨hsome, hsize, hfew, hresult⟩ | ⟨hsome, hsize, henough, hresult⟩)
    · exact if_pos (by simpa using hfew)
    · rw [if_neg (by simpa [not_or] using ⟨hsome, hsize⟩), if_pos hfew, hresult]
    · rw [if_neg (by simpa [not_or] using ⟨hsome, hsize⟩), if_neg (Nat.not_lt.mpr henough),
        hresult]

theorem process_eq_ok_iff {n : Int} {uids : List Int} {weights : List α} {policy : Policy α}
    {processed : Processed α} :
    process n uids weights policy = .ok processed ↔
      ∃ size : Nat, n = size ∧ Accepted size uids weights policy ∧
        Route size policy (positivePairs uids weights) processed := by
  rw [process, bind_eq_ok_iff]
  simp only [mapError_eq_ok_iff, positionCount_eq_ok_iff, check_bind_eq_ok_iff,
    validate_eq_ok_iff, fault_eq_none_iff, requireEmittable_eq_ok_iff]
  refine exists_congr fun size => and_congr_right fun _ => ?_
  rw [← allot_eq_ok_iff]
  cases houtside : (positivePairs uids weights).find? fun pair =>
      decide ((size : Int) ≤ pair.1) with
  | some pair =>
      have hnot : ¬∀ pair ∈ positivePairs uids weights, pair.1 < size := by
        intro hall
        rw [find?_outside_eq_none_iff.mpr hall] at houtside
        cases houtside
      constructor
      · rintro ⟨_, _, hthrow⟩
        cases hthrow
      · rintro ⟨haccepted, _⟩
        exact absurd haccepted.inside hnot
  | none =>
      have hinside := find?_outside_eq_none_iff.mp houtside
      constructor
      · rintro ⟨husable, ⟨hlength, hweight, huid⟩, hresult⟩
        exact ⟨⟨husable, hlength, hweight, huid, hinside⟩, hresult⟩
      · rintro ⟨⟨husable, hlength, hweight, huid, _⟩, hresult⟩
        exact ⟨husable, ⟨hlength, hweight, huid⟩, hresult⟩

theorem process_natCast (size : Nat) (uids : List Int) (weights : List α) (policy : Policy α) :
    process size uids weights policy =
      policy.validate.mapError WeightError.policy >>= fun _ =>
        requireEmittable uids weights >>= fun _ =>
          match (positivePairs uids weights).find? fun pair => decide ((size : Int) ≤ pair.1) with
          | some pair => .error (.sparse (.outOfRange pair.1 size))
          | none => allot size policy (positivePairs uids weights) := by
  rw [process, positionCount_natCast]
  rfl

theorem process_natCast_eq_error_iff {size : Nat} {uids : List Int} {weights : List α}
    {policy : Policy α} {cause : WeightError α} :
    process size uids weights policy = .error cause ↔
      (∃ fault, policy.validate = .error fault ∧ .policy fault = cause) ∨
        policy.validate = .ok () ∧
          (requireEmittable uids weights = .error cause ∨
            requireEmittable uids weights = .ok () ∧
              ((∃ pair, (positivePairs uids weights).find?
                    (fun pair => decide ((size : Int) ≤ pair.1)) = some pair ∧
                  .sparse (.outOfRange pair.1 size) = cause) ∨
                (∀ pair ∈ positivePairs uids weights, pair.1 < size) ∧
                  allot size policy (positivePairs uids weights) = .error cause)) := by
  rw [process_natCast, check_bind_eq_error_iff, check_bind_eq_error_iff, mapError_eq_error_iff,
    mapError_eq_ok_iff, ← find?_outside_eq_none_iff]
  cases (positivePairs uids weights).find? fun pair => decide ((size : Int) ≤ pair.1) with
  | some pair => simp
  | none => simp

theorem fillUp_eq_ok_iff {size : Nat} {limit : α} {pairs : List (Int × α)}
    {processed : Processed α} :
    fillUp size limit pairs = .ok processed ↔
      (∀ pair ∈ pairs, 0 ≤ pair.1 ∧ pair.1 < size) ∧
        ∃ shares, normalizeCapped
            ((place (List.replicate size 0) pairs).map (· + weightFloor)) limit = .ok shares ∧
          processed = ⟨everyUid size, shares⟩ := by
  simp only [fillUp, bind_eq_ok_iff, mapError_eq_ok_iff, scatter_pairs_eq_ok_iff, pure_eq_ok,
    Except.ok.injEq]
  constructor
  · rintro ⟨_, ⟨hinside, rfl⟩, shares, hshares, rfl⟩
    exact ⟨hinside, shares, hshares, rfl⟩
  · rintro ⟨hinside, shares, hshares, rfl⟩
    exact ⟨_, ⟨hinside, rfl⟩, shares, hshares, rfl⟩

theorem excludeTail_eq_ok_iff {policy : Policy α} {pairs : List (Int × α)}
    {processed : Processed α} :
    excludeTail policy pairs = .ok processed ↔
      ∃ shares, normalizeCapped
          ((pairs.filter fun pair => decide (cutoff policy pairs ≤ pair.2)).map Prod.snd)
          policy.limit = .ok shares ∧
        processed = ⟨(pairs.filter fun pair => decide (cutoff policy pairs ≤ pair.2)).map Prod.fst,
          shares⟩ := by
  rw [excludeTail, bind_eq_ok_iff]
  simp [eq_comm]

theorem mem_positivePairs {uids : List Int} {weights : List α} {pair : Int × α} :
    pair ∈ positivePairs uids weights ↔ pair ∈ uids.zip weights ∧ 0 < pair.2 := by
  simp [positivePairs]

theorem Accepted.inside_universe {size : Nat} {uids : List Int} {weights : List α}
    {policy : Policy α} (haccepted : Accepted size uids weights policy) :
    ∀ pair ∈ positivePairs uids weights, 0 ≤ pair.1 ∧ pair.1 < size := by
  intro pair hmem
  have huid := (List.of_mem_zip (mem_positivePairs.mp hmem).1).1
  exact ⟨haccepted.uid pair.1 huid, haccepted.inside pair hmem⟩

theorem mem_place {β : Type} {dense : List β} {pairs : List (Int × β)} {value : β}
    (hmem : value ∈ place dense pairs) : value ∈ dense ∨ value ∈ pairs.map Prod.snd := by
  induction pairs generalizing dense with
  | nil => exact .inl hmem
  | cons pair pairs ih =>
      rw [place_cons] at hmem
      rcases ih hmem with hset | hrest
      · rcases List.mem_or_eq_of_mem_set hset with hdense | rfl
        · exact .inl hdense
        · exact .inr (by simp)
      · exact .inr (List.mem_cons_of_mem _ hrest)

theorem mem_everyUid {size : Nat} {uid : Int} : uid ∈ everyUid size ↔ 0 ≤ uid ∧ uid < size := by
  simp only [everyUid, List.mem_map, List.mem_range, Int.ofNat_eq_natCast]
  constructor
  · rintro ⟨index, hindex, rfl⟩
    omega
  · rintro ⟨hnonneg, hlt⟩
    exact ⟨uid.toNat, by omega, by omega⟩

@[simp]
theorem length_everyUid (size : Nat) : (everyUid size).length = size := by
  simp [everyUid]

end Generic

end Apportion.Proofs.Weights.ProcessingSteps
