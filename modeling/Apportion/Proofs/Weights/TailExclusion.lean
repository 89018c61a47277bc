import Apportion.Proofs.Weights.PolicyConformance

namespace Apportion.Proofs.Weights.TailExclusion

open Apportion.Weights.Policies
open Apportion.Weights.Quantile
open Apportion.Weights.Processing
open Apportion.Proofs.Weights.CappedNormalization
open Apportion.Proofs.Weights.OrderStatistics
open Apportion.Proofs.Weights.PolicyConformance
open Apportion.Proofs.Weights.ProcessingSteps

/-- The pairs that weigh at least the given weight, in their order. -/
def reaching (least : Rat) (pairs : List (Int × Rat)) : List (Int × Rat) :=
  pairs.filter fun pair => decide (least ≤ pair.2)

/-- The uids are those of the pairs that reach one weight, so that only light pairs are left out:
none of them weighs as much as a pair that is kept, and the heaviest are kept. -/
structure CutAt (least : Rat) (pairs : List (Int × Rat)) (uids : List Int) : Prop where
  uids : uids = (reaching least pairs).map Prod.fst
  below : ∀ kept ∈ reaching least pairs, ∀ left ∈ pairs, left ∉ reaching least pairs →
    left.2 < kept.2
  together : ∀ one ∈ pairs, ∀ other ∈ pairs, one.2 = other.2 →
    (one ∈ reaching least pairs ↔ other ∈ reaching least pairs)
  heaviest : ∀ pair ∈ pairs, (∀ other ∈ pairs, other.2 ≤ pair.2) → pair ∈ reaching least pairs

/-- The tail of the positive pairs is left out, and how much of it depends on the excluded quantile
and on the minimum count in one direction each. -/
structure TailExcluded (n : Int) (uids : List Int) (weights : List Rat) (policy : Policy Rat)
    (processed : Processed Rat) : Prop where
  cut : ∃ least, CutAt least (positivePairs uids weights) processed.uids
  quantile : ∀ quantile, policy.quantile ≤ quantile → quantile ≤ 1 →
    ∃ other, process n uids weights { policy with quantile := quantile } = .ok other ∧
      other.uids.Sublist processed.uids
  minimum : ∀ minimum : UInt64, policy.minimumCount ≤ minimum →
    minimum.toNat ≤ (positivePairs uids weights).length → minimum.toNat ≤ n →
      ∃ other, process n uids weights { policy with minimumCount := minimum } = .ok other ∧
        processed.uids.Sublist other.uids
  all : policy.quantile = 0 ∨ policy.minimumCount.toNat = (positivePairs uids weights).length →
    processed.uids = (positivePairs uids weights).map Prod.fst

theorem mem_reaching {least : Rat} {pairs : List (Int × Rat)} {pair : Int × Rat} :
    pair ∈ reaching least pairs ↔ pair ∈ pairs ∧ least ≤ pair.2 := by
  rw [reaching, List.mem_filter, decide_eq_true_iff]

theorem reaching_sublist {low high : Rat} (hle : low ≤ high) (pairs : List (Int × Rat)) :
    (reaching high pairs).Sublist (reaching low pairs) := by
  refine List.monotone_filter_right pairs fun pair hreaches => ?_
  exact decide_eq_true (hle.trans (of_decide_eq_true hreaches))

theorem reaching_eq_self {least : Rat} {pairs : List (Int × Rat)}
    (hall : ∀ pair ∈ pairs, least ≤ pair.2) : reaching least pairs = pairs :=
  List.filter_eq_self.mpr fun pair hmem => decide_eq_true (hall pair hmem)

theorem cutAt_reaching {least : Rat} {pairs : List (Int × Rat)}
    (hleast : ∀ bound, (∀ pair ∈ pairs, pair.2 ≤ bound) → least ≤ bound) :
    CutAt least pairs ((reaching least pairs).map Prod.fst) where
  uids := rfl
  below kept hkept left hleft hnot := by
    have hlight : left.2 < least := not_le.mp fun hle => hnot (mem_reaching.mpr ⟨hleft, hle⟩)
    exact hlight.trans_le (mem_reaching.mp hkept).2
  together one hone other hother hsame := by
    rw [mem_reaching, mem_reaching, hsame]
    exact and_congr_left fun _ => iff_of_true hone hother
  heaviest pair hmem hheaviest := mem_reaching.mpr ⟨hmem, hleast pair.2 hheaviest⟩

section Cutoff

variable {policy other : Policy Rat} {pairs : List (Int × Rat)}

theorem cutoff_le_of_forall_le (husable : Usable policy) (hsome : pairs ≠ []) {bound : Rat}
    (hbound : ∀ pair ∈ pairs, pair.2 ≤ bound) : cutoff policy pairs ≤ bound := by
  rw [cutoff_eq]
  refine quantile_le_of_forall_le (by simpa using hsome) (excludedFraction_nonneg husable _)
    (excludedFraction_le_one husable _) ?_
  intro weight hmem
  obtain ⟨pair, hpair, rfl⟩ := List.mem_map.mp hmem
  exact hbound pair hpair

theorem cutoff_mono (husable : Usable policy) (hother : Usable other) (hsome : pairs ≠ [])
    (hle : excludedFraction policy pairs.length ≤ excludedFraction other pairs.length) :
    cutoff policy pairs ≤ cutoff other pairs := by
  rw [cutoff_eq, cutoff_eq]
  exact quantile_mono (by simpa using hsome) (excludedFraction_nonneg husable _) hle
    (excludedFraction_le_one hother _)

theorem excludedFraction_mono_quantile {quantile : Rat} (hle : policy.quantile ≤ quantile)
    (count : Nat) :
    excludedFraction policy count ≤ excludedFraction { policy with quantile := quantile } count :=
  min_le_min_right _ hle

theorem excludedFraction_anti_minimum {minimum : UInt64} (hle : policy.minimumCount ≤ minimum)
    (count : Nat) :
    excludedFraction { policy with minimumCount := minimum } count ≤
      excludedFraction policy count := by
  have hspare : count - minimum.toNat ≤ count - policy.minimumCount.toNat :=
    Nat.sub_le_sub_left (UInt64.le_iff_toNat_le.mp hle) count
  refine min_le_min_left _ (div_le_div_of_nonneg_right ?_ (Nat.cast_nonneg count))
  exact_mod_cast hspare

theorem excludedFraction_eq_zero (husable : Usable policy) {count : Nat}
    (hnone : policy.quantile = 0 ∨ policy.minimumCount.toNat = count) :
    excludedFraction policy count = 0 := by
  refine le_antisymm ?_ (excludedFraction_nonneg husable count)
  rcases hnone with hzero | rfl
  · exact (min_le_left _ _).trans hzero.le
  · refine (min_le_right _ _).trans ?_
    rw [Nat.sub_self, Nat.cast_zero, zero_div]

theorem cutoff_le_of_mem (hzero : excludedFraction policy pairs.length = 0) {pair : Int × Rat}
    (hmem : pair ∈ pairs) : cutoff policy pairs ≤ pair.2 := by
  rw [cutoff_eq, hzero]
  exact quantile_zero_le (List.mem_map_of_mem hmem)

end Cutoff

section Submission

variable {size : Nat} {uids : List Int} {weights : List Rat} {policy : Policy Rat}

theorem exists_process_reaching (haccepted : Accepted size uids weights policy)
    (hsome : positivePairs uids weights ≠ []) (hroom : policy.minimumCount.toNat ≤ size)
    (henough : policy.minimumCount.toNat ≤ (positivePairs uids weights).length) :
    ∃ processed, process size uids weights policy = .ok processed ∧ processed.uids =
      (reaching (cutoff policy (positivePairs uids weights))
        (positivePairs uids weights)).map Prod.fst := by
  set pairs := positivePairs uids weights with hpairs
  have hnonneg : ∀ weight ∈ (reaching (cutoff policy pairs) pairs).map Prod.snd, 0 ≤ weight := by
    intro weight hmem
    obtain ⟨pair, hpair, rfl⟩ := List.mem_map.mp hmem
    exact (mem_positivePairs.mp (mem_reaching.mp hpair).1).2.le
  have hshares := normalizeCapped_eq hnonneg haccepted.usable.limit_pos haccepted.usable.limit_le
  exact ⟨_, process_eq_ok_iff.mpr ⟨size, rfl, haccepted,
    .excluded hsome hroom henough (excludeTail_eq_ok_iff.mpr ⟨_, hshares, rfl⟩)⟩, rfl⟩

theorem accepted_of_usable {other : Policy Rat} (haccepted : Accepted size uids weights policy)
    (husable : Usable other) : Accepted size uids weights other :=
  { haccepted with usable := husable }

end Submission

/-- Of a submission with enough positive weights only the tail is left out, and more of it under a
larger quantile or a smaller minimum count. -/
theorem process_tailExcluded {n : Int} {uids : List Int} {weights : List Rat}
    {policy : Policy Rat} {processed : Processed Rat}
    (hprocess : process n uids weights policy = .ok processed)
    (hsome : positivePairs uids weights ≠ []) (hroom : policy.minimumCount.toNat ≤ n)
    (henough : policy.minimumCount.toNat ≤ (positivePairs uids weights).length) :
    TailExcluded n uids weights policy processed := by
  obtain ⟨size, rfl, haccepted, -⟩ := process_eq_ok_iff.mp hprocess
  have husable := haccepted.usable
  obtain ⟨same, hsame, huids⟩ :=
    exists_process_reaching haccepted hsome (by exact_mod_cast hroom) henough
  obtain rfl := Except.ok.inj (hsame.symm.trans hprocess)
  constructor
  case cut =>
    rw [huids]
    exact ⟨_, cutAt_reaching fun bound hbound => cutoff_le_of_forall_le husable hsome hbound⟩
  case quantile =>
    intro quantile hle hone
    have hother : Usable { policy with quantile := quantile } :=
      { husable with
        quantile_nonneg := husable.quantile_nonneg.trans hle
        quantile_le := hone }
    obtain ⟨other, hresult, hkept⟩ := exists_process_reaching
      (accepted_of_usable haccepted hother) hsome (by exact_mod_cast hroom) henough
    refine ⟨other, hresult, ?_⟩
    rw [hkept, huids]
    exact (reaching_sublist (cutoff_mono husable hother hsome
      (excludedFraction_mono_quantile hle _)) _).map Prod.fst
  case minimum =>
    intro minimum hle hcount hsize
    have hother : Usable { policy with minimumCount := minimum } := { husable with }
    obtain ⟨other, hresult, hkept⟩ := exists_process_reaching
      (accepted_of_usable haccepted hother) hsome (by exact_mod_cast hsize) hcount
    refine ⟨other, hresult, ?_⟩
    rw [hkept, huids]
    exact (reaching_sublist (cutoff_mono hother husable hsome
      (excludedFraction_anti_minimum hle _)) _).map Prod.fst
  case all =>
    intro hnone
    have hzero := excludedFraction_eq_zero husable hnone
    rw [huids, reaching_eq_self fun pair hmem => cutoff_le_of_mem hzero hmem]

theorem process_tailExcluded_tied :
    process 5 [4, 1, 2, 3, 0] [1, 2, 2, 0, 6] ⟨3, 1 / 2, 1 / 2, 16⟩ =
        .ok (⟨[1, 2, 0], [1 / 4, 1 / 4, 1 / 2]⟩ : Processed Rat) ∧
      TailExcluded 5 [4, 1, 2, 3, 0] [1, 2, 2, 0, 6] ⟨3, 1 / 2, 1 / 2, 16⟩
        ⟨[1, 2, 0], [1 / 4, 1 / 4, 1 / 2]⟩ := by
  have hprocess : process 5 [4, 1, 2, 3, 0] [1, 2, 2, 0, 6] ⟨3, 1 / 2, 1 / 2, 16⟩ =
      .ok (⟨[1, 2, 0], [1 / 4, 1 / 4, 1 / 2]⟩ : Processed Rat) := by
    cbv
  have hpairs : positivePairs [4, 1, 2, 3, 0] [1, 2, 2, 0, (6 : Rat)] =
      [(4, 1), (1, 2), (2, 2), (0, 6)] := by
    decide
  refine ⟨hprocess, process_tailExcluded hprocess ?_ (by decide) ?_⟩
  · rw [hpairs]
    decide
  · rw [hpairs]
    decide

end Apportion.Proofs.Weights.TailExclusion
