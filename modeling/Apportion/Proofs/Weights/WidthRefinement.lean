import Mathlib
import Apportion.Proofs.Weights.ProportionalEmission

namespace Apportion.Proofs.Weights.WidthRefinement

open Apportion.Number.Arithmetic
open Apportion.Weights.Quantization
open Apportion.Proofs.Number.WholeRounding
open Apportion.Proofs.Weights.Checks
open Apportion.Proofs.Weights.EmissionCap
open Apportion.Proofs.Weights.EmissionOfProcessed
open Apportion.Proofs.Weights.ProportionalEmission

/-- Two emissions of so many weights: both are refused with one error, or both give an integer for
each weight, beside the positions given, and the integers are related one by one. -/
inductive Refines {ε : Type} (close : ℕ → ℕ → Prop) (uids : List Int) (count : ℕ) :
    Except ε Emission → Except ε Emission → Prop
  | refused (cause : ε) : Refines close uids count (.error cause) (.error cause)
  | emitted {wide narrow : Emission} (hwide : Lists .bits32 uids count wide)
      (hnarrow : Lists .bits16 uids count narrow)
      (hvalues : List.Forall₂ close wide.values narrow.values) :
      Refines close uids count (.ok wide) (.ok narrow)

/-- The wide integer is 65537 times the narrow one, up to half a narrow step and half a wide one. -/
def Near (wide narrow : ℕ) : Prop :=
  |(wide : ℤ) - 65537 * narrow| ≤ 32769

instance decidableNear (wide narrow : ℕ) : Decidable (Near wide narrow) :=
  inferInstanceAs (Decidable (|(wide : ℤ) - 65537 * narrow| ≤ 32769))

theorem near_of_nearestEven {share : Rat} {wide narrow : ℕ}
    (hwide : NearestEven (share * (IntegerWidth.bits32.largest : ℕ)) wide)
    (hnarrow : NearestEven (share * (IntegerWidth.bits16.largest : ℕ)) narrow) :
    Near wide narrow := by
  have hlargest : ((IntegerWidth.bits32.largest : ℕ) : ℚ) =
      65537 * (IntegerWidth.bits16.largest : ℕ) := by
    norm_num [IntegerWidth.largest]
  obtain ⟨hwideLow, hwideHigh⟩ := abs_le.mp hwide.near
  obtain ⟨hnarrowLow, hnarrowHigh⟩ := abs_le.mp hnarrow.near
  rw [hlargest] at hwideLow hwideHigh
  have hdistance : |(wide : ℚ) - 65537 * narrow| ≤ 32769 :=
    abs_le.mpr ⟨by linarith, by linarith⟩
  unfold Near
  exact_mod_cast hdistance

theorem forall₂_near_of_rounded {shares : List Rat} {wide narrow : List ℕ}
    (hwide : Rounded IntegerWidth.bits32.largest shares wide)
    (hnarrow : Rounded IntegerWidth.bits16.largest shares narrow) :
    List.Forall₂ Near wide narrow := by
  induction hwide generalizing narrow with
  | nil =>
      cases hnarrow
      exact .nil
  | cons hfirst _ ih =>
      cases hnarrow with
      | cons hother hothers => exact .cons (near_of_nearestEven hfirst hother) (ih hothers)

theorem refines_of_values {α : Type} [Scalar α] {close : ℕ → ℕ → Prop} {uids : List Int}
    {weights : List α}
    (hvalues : requireEmittable uids weights = .ok () → ∀ {wide narrow : Emission},
      quantize .bits32 uids weights = .ok wide → quantize .bits16 uids weights = .ok narrow →
        wide.values.length = narrow.values.length → List.Forall₂ close wide.values narrow.values) :
    Refines close uids weights.length (quantize .bits32 uids weights)
      (quantize .bits16 uids weights) := by
  cases hemittable : requireEmittable uids weights with
  | error cause =>
      rw [quantize_eq_error_iff.mpr hemittable, quantize_eq_error_iff.mpr hemittable]
      exact .refused cause
  | ok checked =>
      obtain ⟨wide, hwide, hwideLists⟩ := quantize_eq_ok .bits32 hemittable
      obtain ⟨narrow, hnarrow, hnarrowLists⟩ := quantize_eq_ok .bits16 hemittable
      rw [hwide, hnarrow]
      exact .emitted hwideLists hnarrowLists (hvalues hemittable hwide hnarrow
        (hwideLists.length.trans hnarrowLists.length.symm))

theorem forall₂_near_zeros (count : ℕ) :
    List.Forall₂ Near (List.replicate count 0) (List.replicate count 0) := by
  rw [List.forall₂_same]
  intro value hmem
  rw [List.eq_of_mem_replicate hmem]
  decide

theorem refines_exact (uids : List Int) (weights : List Rat) :
    Refines Near uids weights.length (quantize .bits32 uids weights)
      (quantize .bits16 uids weights) := by
  refine refines_of_values fun hemittable wide narrow hwide hnarrow _ => ?_
  have hweights : ∀ weight ∈ weights, 0 ≤ weight := fun weight hmem =>
    not_lt.mp ((requireEmittable_eq_ok_iff.mp hemittable).2.1 weight hmem).2
  rw [quantize_exact hemittable] at hwide hnarrow
  obtain rfl := Except.ok.inj hwide
  obtain rfl := Except.ok.inj hnarrow
  by_cases hzero : weights.sum = 0
  · simp only [if_pos hzero]
    exact forall₂_near_zeros weights.length
  · have hpos : 0 < weights.sum := lt_of_le_of_ne (List.sum_nonneg hweights) (Ne.symm hzero)
    simp only [if_neg hzero]
    exact forall₂_near_of_rounded (rounded_of_total .bits32 hweights hpos)
      (rounded_of_total .bits16 hweights hpos)

/-- Emission at 32 bits refines emission at 16 bits. Read exactly, every wide integer is near its
narrow one; doubles, which may be infinite or undefined, are refused alike at both widths. -/
theorem quantize_refines (uids : List Int) :
    (∀ weights : List Rat,
      Refines Near uids weights.length (quantize .bits32 uids weights)
        (quantize .bits16 uids weights)) ∧
      ∀ weights : List Float,
        Refines (fun _ _ => True) uids weights.length (quantize .bits32 uids weights)
          (quantize .bits16 uids weights) := by
  constructor
  · exact refines_exact uids
  · intro weights
    refine refines_of_values fun _ wide narrow _ _ hlength => ?_
    exact List.forall₂_iff_zip.mpr ⟨hlength, fun _ => trivial⟩

end Apportion.Proofs.Weights.WidthRefinement
