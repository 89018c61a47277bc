import Mathlib
import Apportion.Proofs.Number.WholeRounding
import Apportion.Proofs.Weights.EmissionOfProcessed
import Apportion.Proofs.Weights.PolicyConformance

namespace Apportion.Proofs.Weights.EmissionCap

open Apportion.Number.Arithmetic
open Apportion.Weights.Quantization
open Apportion.Weights.Policies
open Apportion.Weights.Processing
open Apportion.Proofs.Number.ExactArithmetic
open Apportion.Proofs.Number.WholeRounding
open Apportion.Proofs.Weights.Checks
open Apportion.Proofs.Weights.CappedNormalization
open Apportion.Proofs.Weights.EmissionOfProcessed
open Apportion.Proofs.Weights.PolicyConformance
open Apportion.Proofs.Weights.ProcessingSteps

/-- The largest integer that can be emitted under a policy. -/
def fullScale (policy : Policy Rat) : ℕ :=
  2 ^ policy.emissionBits.toNat - 1

/-- An emission of processed weights that keeps the limit of the policy on its own scale. -/
structure KeepsLimit (policy : Policy Rat) (processed : Processed Rat) (emission : Emission) :
    Prop where
  bits : emission.width.bits = policy.emissionBits.toNat
  uids : emission.uids.map Int.ofNat = processed.uids
  length : emission.values.length = processed.uids.length
  le_cap : 1 < policy.limit * processed.uids.length →
    ∃ cap, NearestEven (policy.limit * fullScale policy) cap ∧
      ∀ value ∈ emission.values, value ≤ cap
  mono : ∀ small ∈ processed.weights.zip emission.values,
    ∀ large ∈ processed.weights.zip emission.values, small.1 ≤ large.1 → small.2 ≤ large.2
  sum : |(emission.values.sum : ℚ) - fullScale policy| ≤ (processed.uids.length : ℚ) / 2

/-- Integers beside the shares that they are rounded from. -/
def Rounded (scale : ℕ) : List Rat → List ℕ → Prop :=
  List.Forall₂ fun share value => NearestEven (share * scale) value

namespace Rounded

variable {scale : ℕ} {shares : List Rat} {values : List ℕ}

theorem le_cap (hrounded : Rounded scale shares values) {limit : Rat} {cap : ℕ}
    (hcap : NearestEven (limit * scale) cap) (hlimit : ∀ share ∈ shares, share ≤ limit) :
    ∀ value ∈ values, value ≤ cap := by
  induction hrounded with
  | nil => simp
  | cons hfirst _ ih =>
      rw [List.forall_mem_cons] at hlimit ⊢
      constructor
      · exact hfirst.mono hcap (mul_le_mul_of_nonneg_right hlimit.1 (Nat.cast_nonneg scale))
      · exact ih hlimit.2

theorem nearestEven_of_mem (hrounded : Rounded scale shares values) {entry : Rat × ℕ}
    (hmem : entry ∈ shares.zip values) : NearestEven (entry.1 * scale) entry.2 :=
  List.forall₂_zip hrounded hmem

theorem mono (hrounded : Rounded scale shares values) {small large : Rat × ℕ}
    (hsmall : small ∈ shares.zip values) (hlarge : large ∈ shares.zip values)
    (hle : small.1 ≤ large.1) : small.2 ≤ large.2 :=
  (hrounded.nearestEven_of_mem hsmall).mono (hrounded.nearestEven_of_mem hlarge)
    (mul_le_mul_of_nonneg_right hle (Nat.cast_nonneg scale))

theorem eq_map (hrounded : Rounded scale shares values) (hshares : ∀ share ∈ shares, 0 ≤ share) :
    values = shares.map fun share => roundHalfEven (share * (scale : ℚ)) := by
  induction hrounded with
  | nil => rfl
  | cons hfirst _ ih =>
      rw [List.forall_mem_cons] at hshares
      have hhead := hfirst.unique
        (nearestEven_roundHalfEven (mul_nonneg hshares.1 (Nat.cast_nonneg (α := ℚ) scale)))
      rw [List.map_cons, ← hhead, ← ih hshares.2]

theorem sum_near (hrounded : Rounded scale shares values) :
    |(values.sum : ℚ) - shares.sum * scale| ≤ (shares.length : ℚ) / 2 := by
  induction hrounded with
  | nil => simp
  | @cons share value shares values hfirst _ ih =>
      have hsplit : ((value :: values).sum : ℚ) - (share :: shares).sum * scale =
          ((value : ℚ) - share * scale) + ((values.sum : ℚ) - shares.sum * scale) := by
        rw [List.sum_cons, List.sum_cons]
        push_cast
        ring
      have hnear : |(value : ℚ) - share * scale| ≤ 1 / 2 := by
        rw [abs_sub_comm]
        exact hfirst.near
      rw [hsplit, List.length_cons, Nat.cast_succ, add_div, add_comm ((shares.length : ℚ) / 2)]
      exact (abs_add_le _ _).trans (add_le_add hnear ih)

end Rounded

theorem rounded_scaleToWidth (width : IntegerWidth) {shares : List Rat}
    (hshares : ∀ share ∈ shares, 0 ≤ share ∧ share ≤ 1) :
    Rounded width.largest shares (scaleToWidth width shares 1) := by
  induction shares with
  | nil => exact .nil
  | cons share shares ih =>
      rw [List.forall_mem_cons] at hshares
      obtain ⟨⟨hnonneg, hle⟩, hrest⟩ := hshares
      refine .cons ?_ (ih hrest)
      have hscaled : share / 1 * Scalar.ofNat width.largest = share * (width.largest : ℚ) := by
        rw [div_one, ofNat_eq_cast]
      have hnearest := nearestEven_roundHalfEven
        (mul_nonneg hnonneg (Nat.cast_nonneg (α := ℚ) width.largest))
      have hinside : roundHalfEven (share * (width.largest : ℚ)) ≤ width.largest :=
        hnearest.mono (.natCast width.largest)
          (mul_le_of_le_one_left (Nat.cast_nonneg _) hle)
      change NearestEven _ (min (roundHalfEven (share / 1 * Scalar.ofNat width.largest)) _)
      rw [hscaled, min_eq_left hinside]
      exact hnearest

theorem widthOf_usable {policy : Policy Rat} (husable : Usable policy) :
    (if policy.emissionBits = 32 then IntegerWidth.bits32 else .bits16).bits =
        policy.emissionBits.toNat ∧
      (if policy.emissionBits = 32 then IntegerWidth.bits32 else .bits16).largest =
        fullScale policy := by
  rw [fullScale]
  rcases husable.bits with hbits | hbits <;> rw [hbits] <;> decide

theorem quantize_of_sum_one {width : IntegerWidth} {uids : List Int} {weights : List Rat}
    (hlength : uids.length = weights.length) (huids : ∀ uid ∈ uids, 0 ≤ uid)
    (hweights : ∀ weight ∈ weights, 0 ≤ weight) (hsum : weights.sum = 1) :
    quantize width uids weights =
      .ok ⟨width, uids.map Int.toNat, scaleToWidth width weights 1⟩ := by
  have hemittable : requireEmittable uids weights = .ok () :=
    requireEmittable_eq_ok_iff.mpr
      ⟨hlength, fun weight hmem => ⟨rfl, not_lt.mpr (hweights weight hmem)⟩, huids⟩
  rw [quantize, hemittable, boundedTotal_eq, hsum]
  rfl

theorem map_ofNat_toNat {uids : List Int} (huids : ∀ uid ∈ uids, 0 ≤ uid) :
    (uids.map Int.toNat).map Int.ofNat = uids := by
  rw [List.map_map]
  exact (List.map_congr_left fun uid hmem => Int.toNat_of_nonneg (huids uid hmem)).trans
    (List.map_id' uids)

theorem keepsLimit_of_conforms {size : ℕ} {policy : Policy Rat} {processed : Processed Rat}
    (husable : Usable policy) (hconforms : Conforms size policy processed) :
    ∃ emission, emit policy processed = .ok emission ∧ KeepsLimit policy processed emission := by
  obtain ⟨hlength, -, hinside, hproper⟩ := hconforms
  have huids : ∀ uid ∈ processed.uids, 0 ≤ uid := fun uid hmem => (hinside uid hmem).1
  have hnonneg : ∀ weight ∈ processed.weights, 0 ≤ weight := fun weight hmem =>
    (hproper.positive weight hmem).le
  have hone : ∀ weight ∈ processed.weights, weight ≤ 1 := fun weight hmem =>
    hproper.sum ▸ List.single_le_sum hnonneg weight hmem
  obtain ⟨hbits, hlargest⟩ := widthOf_usable husable
  refine ⟨_, (emit_eq husable processed).trans
    (quantize_of_sum_one hlength huids hnonneg hproper.sum), ?_⟩
  have hrounded := rounded_scaleToWidth
    (if policy.emissionBits = 32 then IntegerWidth.bits32 else .bits16)
    fun weight hmem => ⟨hnonneg weight hmem, hone weight hmem⟩
  rw [hlargest] at hrounded
  refine ⟨hbits, map_ofNat_toNat huids, ?_, ?_, ?_, ?_⟩
  · exact (List.Forall₂.length_eq hrounded).symm.trans hlength.symm
  · intro hroom
    rw [hlength] at hroom
    have hcap := nearestEven_roundHalfEven
      (mul_nonneg husable.limit_pos.le (Nat.cast_nonneg (α := ℚ) (fullScale policy)))
    exact ⟨_, hcap, hrounded.le_cap hcap (hproper.le_limit hroom)⟩
  · intro small hsmall large hlarge hle
    exact hrounded.mono hsmall hlarge hle
  · have hnear := hrounded.sum_near
    rwa [hproper.sum, one_mul, ← hlength] at hnear

/-- What is processed is emitted so that the limit holds for the integers too. -/
theorem emit_keepsLimit {n : Int} {uids : List Int} {weights : List Rat} {policy : Policy Rat}
    {processed : Processed Rat} (hprocess : process n uids weights policy = .ok processed)
    (hsome : processed.uids ≠ []) :
    ∃ emission, emit policy processed = .ok emission ∧ KeepsLimit policy processed emission := by
  obtain ⟨size, rfl, haccepted, hroute⟩ := process_eq_ok_iff.mp hprocess
  rcases Nat.eq_zero_or_pos size with rfl | hsize
  · rw [eq_empty_of_route haccepted hroute] at hsome
    exact absurd rfl hsome
  · exact keepsLimit_of_conforms haccepted.usable (conforms_of_route hsize haccepted hroute)

theorem emit_keepsLimit_three :
    process 5 [4, 1, 2, 3, 0] [1, 2, 3, 0, 6] ⟨3, 2 / 5, 1 / 2, 16⟩ =
        .ok (⟨[1, 2, 0], [6 / 25, 9 / 25, 2 / 5]⟩ : Processed Rat) ∧
      emit ⟨3, 2 / 5, 1 / 2, 16⟩ (⟨[1, 2, 0], [6 / 25, 9 / 25, 2 / 5]⟩ : Processed Rat) =
        .ok ⟨.bits16, [1, 2, 0], [15728, 23593, 26214]⟩ ∧
      KeepsLimit ⟨3, 2 / 5, 1 / 2, 16⟩ ⟨[1, 2, 0], [6 / 25, 9 / 25, 2 / 5]⟩
        ⟨.bits16, [1, 2, 0], [15728, 23593, 26214]⟩ := by
  have hprocess : process 5 [4, 1, 2, 3, 0] [1, 2, 3, 0, 6] ⟨3, 2 / 5, 1 / 2, 16⟩ =
      .ok (⟨[1, 2, 0], [6 / 25, 9 / 25, 2 / 5]⟩ : Processed Rat) := by
    cbv
  have hemit : emit ⟨3, 2 / 5, 1 / 2, 16⟩
      (⟨[1, 2, 0], [6 / 25, 9 / 25, 2 / 5]⟩ : Processed Rat) =
        .ok ⟨.bits16, [1, 2, 0], [15728, 23593, 26214]⟩ := by
    cbv
  obtain ⟨emission, hresult, hkeeps⟩ := emit_keepsLimit hprocess (List.cons_ne_nil _ _)
  obtain rfl := Except.ok.inj (hemit.symm.trans hresult)
  exact ⟨hprocess, hemit, hkeeps⟩

end Apportion.Proofs.Weights.EmissionCap
