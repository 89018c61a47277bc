import Mathlib
import Apportion.Proofs.Weights.EmissionCap

namespace Apportion.Proofs.Weights.ProportionalEmission

open Apportion.Number.Arithmetic
open Apportion.Weights.Quantization
open Apportion.Proofs.Number.WholeRounding
open Apportion.Proofs.Weights.Checks
open Apportion.Proofs.Weights.CappedNormalization
open Apportion.Proofs.Weights.EmissionCap

/-- Integers that are to a largest one as the weights are to their total, up to half a step. They
are what rounding gives, without anything being done to keep them below the largest one. -/
structure Proportional (largest : ℕ) (weights : List Rat) (values : List ℕ) : Prop where
  length : values.length = weights.length
  near : ∀ entry ∈ weights.zip values,
    |(entry.2 : ℚ) * weights.sum - entry.1 * largest| ≤ weights.sum / 2
  even : ∀ entry ∈ weights.zip values,
    |(entry.2 : ℚ) * weights.sum - entry.1 * largest| = weights.sum / 2 → Even entry.2
  unclamped : values = weights.map fun weight =>
    roundHalfEven (weight / weights.sum * (largest : ℚ))
  le_largest : ∀ value ∈ values, value ≤ largest
  mono : ∀ small ∈ weights.zip values, ∀ large ∈ weights.zip values,
    small.1 ≤ large.1 → small.2 ≤ large.2
  same : ∀ one ∈ weights.zip values, ∀ other ∈ weights.zip values,
    one.1 = other.1 → one.2 = other.2
  sum : |(values.sum : ℚ) - largest| ≤ (weights.length : ℚ) / 2

theorem share_bounds {weights : List Rat} (hweights : ∀ weight ∈ weights, 0 ≤ weight)
    (hpos : 0 < weights.sum) :
    ∀ share ∈ weights.map (· / weights.sum), 0 ≤ share ∧ share ≤ 1 := by
  intro share hmem
  obtain ⟨weight, hweight, rfl⟩ := List.mem_map.mp hmem
  exact ⟨div_nonneg (hweights weight hweight) hpos.le,
    (div_le_one hpos).mpr (List.single_le_sum hweights weight hweight)⟩

theorem scaleToWidth_div (width : IntegerWidth) (weights : List Rat) (sum : Rat) :
    scaleToWidth width (weights.map (· / sum)) 1 = scaleToWidth width weights sum := by
  rw [scaleToWidth, List.map_map]
  refine List.map_congr_left fun weight _ => ?_
  simp only [Function.comp_apply, div_one]

theorem rounded_of_total (width : IntegerWidth) {weights : List Rat}
    (hweights : ∀ weight ∈ weights, 0 ≤ weight) (hpos : 0 < weights.sum) :
    Rounded width.largest (weights.map (· / weights.sum))
      (scaleToWidth width weights weights.sum) := by
  rw [← scaleToWidth_div]
  exact rounded_scaleToWidth width (share_bounds hweights hpos)

theorem abs_scaled_sub {total : Rat} (hpos : 0 < total) (weight : Rat) (largest value : ℕ) :
    |(value : ℚ) * total - weight * largest| =
      |weight / total * largest - value| * total := by
  have hscale : weight * largest - value * total =
      (weight / total * largest - value) * total := by
    rw [sub_mul, div_mul_eq_mul_div, div_mul_cancel₀ _ hpos.ne']
  rw [abs_sub_comm, hscale, abs_mul, abs_of_pos hpos]

theorem proportional_of_rounded {largest : ℕ} {weights : List Rat} {values : List ℕ}
    (hweights : ∀ weight ∈ weights, 0 ≤ weight) (hpos : 0 < weights.sum)
    (hrounded : Rounded largest (weights.map (· / weights.sum)) values) :
    Proportional largest weights values := by
  have hbounds := share_bounds hweights hpos
  have hentry : ∀ entry ∈ weights.zip values,
      NearestEven (entry.1 / weights.sum * largest) entry.2 := fun entry hmem =>
    List.forall₂_zip (List.forall₂_map_left_iff.mp hrounded) hmem
  have hmono : ∀ small ∈ weights.zip values, ∀ large ∈ weights.zip values,
      small.1 ≤ large.1 → small.2 ≤ large.2 := fun small hsmall large hlarge hle =>
    (hentry small hsmall).mono (hentry large hlarge)
      (mul_le_mul_of_nonneg_right ((div_le_div_iff_of_pos_right hpos).mpr hle)
        (Nat.cast_nonneg largest))
  have hhalfTotal : weights.sum / 2 = 1 / 2 * weights.sum := by ring
  constructor
  case length => exact (List.Forall₂.length_eq hrounded).symm.trans (List.length_map _)
  case near =>
    intro entry hmem
    rw [abs_scaled_sub hpos, hhalfTotal]
    exact mul_le_mul_of_nonneg_right (hentry entry hmem).near hpos.le
  case even =>
    intro entry hmem hhalf
    rw [abs_scaled_sub hpos, hhalfTotal] at hhalf
    exact (hentry entry hmem).even (mul_right_cancel₀ hpos.ne' hhalf)
  case unclamped =>
    rw [hrounded.eq_map fun share hmem => (hbounds share hmem).1, List.map_map]
    rfl
  case le_largest =>
    have hone : NearestEven (1 * largest) largest := by
      rw [one_mul]
      exact .natCast largest
    exact hrounded.le_cap hone fun share hmem => (hbounds share hmem).2
  case mono => exact hmono
  case same =>
    intro one hone other hother hsame
    exact le_antisymm (hmono one hone other hother hsame.le) (hmono other hother one hone hsame.ge)
  case sum =>
    have hnear := hrounded.sum_near
    rwa [sum_map_div hpos.ne', one_mul, List.length_map] at hnear

theorem quantize_exact {width : IntegerWidth} {uids : List Int} {weights : List Rat}
    (hemittable : requireEmittable uids weights = .ok ()) :
    quantize width uids weights =
      .ok ⟨width, uids.map Int.toNat,
        if weights.sum = 0 then List.replicate weights.length 0
        else scaleToWidth width weights weights.sum⟩ := by
  rw [quantize, hemittable, boundedTotal_eq]
  simp only [beq_zero_iff]
  rfl

/-- Weights that are not negative are always emitted, beside their positions, as integers in
proportion to them, or as zeros if they are all zero. -/
theorem quantize_proportional (width : IntegerWidth) {uids : List Int} {weights : List Rat}
    (hlength : uids.length = weights.length) (huids : ∀ uid ∈ uids, 0 ≤ uid)
    (hweights : ∀ weight ∈ weights, 0 ≤ weight) :
    ∃ emission, quantize width uids weights = .ok emission ∧
      emission.uids.map Int.ofNat = uids ∧
      (0 < weights.sum → Proportional width.largest weights emission.values) ∧
      (weights.sum = 0 → emission.values = List.replicate weights.length 0) := by
  have hemittable : requireEmittable uids weights = .ok () :=
    requireEmittable_eq_ok_iff.mpr
      ⟨hlength, fun weight hmem => ⟨rfl, not_lt.mpr (hweights weight hmem)⟩, huids⟩
  refine ⟨_, quantize_exact hemittable, map_ofNat_toNat huids, fun hpos => ?_, fun hzero => ?_⟩
  · rw [if_neg hpos.ne']
    exact proportional_of_rounded hweights hpos (rounded_of_total width hweights hpos)
  · exact if_pos hzero

theorem quantize_proportional_halves :
    quantize .bits16 [7, 3, 3] ([1, 5, 0] : List Rat) =
        .ok ⟨.bits16, [7, 3, 3], [10922, 54612, 0]⟩ ∧
      Proportional 65535 [1, 5, 0] [10922, 54612, 0] := by
  have hquantize : quantize .bits16 [7, 3, 3] ([1, 5, 0] : List Rat) =
      .ok ⟨.bits16, [7, 3, 3], [10922, 54612, 0]⟩ := by
    cbv
  have hlength : ([7, 3, 3] : List Int).length = ([1, 5, 0] : List Rat).length := rfl
  obtain ⟨emission, hresult, -, hproportional, -⟩ :=
    quantize_proportional .bits16 hlength (by decide) (by decide)
  obtain rfl := Except.ok.inj (hquantize.symm.trans hresult)
  exact ⟨hquantize, hproportional (by norm_num)⟩

end Apportion.Proofs.Weights.ProportionalEmission
