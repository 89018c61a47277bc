import Apportion.Proofs.Number.Doubles

namespace Apportion.Proofs.Number.DoubleSums

open Float.Model
open Float.Model.UnpackedFloat
open Apportion.Number.Arithmetic
open Apportion.Proofs.Number.DoubleGrid
open Apportion.Proofs.Number.Doubles

theorem isFinite_add_eq_false {x : Float} (hx : x.isFinite = false) (y : Float) :
    (x + y).isFinite = false := by
  have hsum : (x + y).isFinite = (UnpackedFloat.unpack Format.binary64 (UnpackedFloat.pack
      Format.binary64
        (UnpackedFloat.add Format.binary64 x.toModel.unpack y.toModel.unpack))).isFinite := rfl
  have hinfinity : ∀ sign, (UnpackedFloat.unpack Format.binary64
      (UnpackedFloat.pack Format.binary64 (.infinity sign))).isFinite = false := by
    intro sign
    cases sign <;> rfl
  have hundefined : (UnpackedFloat.unpack Format.binary64
      (UnpackedFloat.pack Format.binary64 .notANumber)).isFinite = false := rfl
  replace hx : x.toModel.unpack.isFinite = false := hx
  rw [hsum]
  cases hleft : x.toModel.unpack with
  | zero sign =>
      rw [hleft] at hx
      cases hx
  | finite sign mantissa exponent hpos =>
      rw [hleft] at hx
      cases hx
  | notANumber => exact hundefined
  | infinity sign =>
      cases y.toModel.unpack with
      | notANumber => exact hundefined
      | zero other => exact hinfinity sign
      | finite other mantissa exponent hpos => exact hinfinity sign
      | infinity other =>
          rw [UnpackedFloat.add]
          split
          · exact hinfinity sign
          · exact hundefined

theorem isFinite_foldl_eq_false (values : List Float) {start : Float}
    (hstart : start.isFinite = false) : (values.foldl (· + ·) start).isFinite = false := by
  induction values generalizing start with
  | nil => exact hstart
  | cons x values ih => exact ih (isFinite_add_eq_false hstart x)

theorem foldl_add_bounds {values : List Float}
    (hvalues : ∀ x ∈ values, IsSize x) {start : Float} (hstart : IsSize start)
    (hfinite : (values.foldl (· + ·) start).isFinite = true) :
    value start ≤ value (values.foldl (· + ·) start) ∧
      ∀ x ∈ values, value x ≤ value (values.foldl (· + ·) start) := by
  induction values generalizing start with
  | nil => exact ⟨le_rfl, fun x hmem => absurd hmem List.not_mem_nil⟩
  | cons x values ih =>
      obtain ⟨hx, hxNonneg⟩ := hvalues x (by simp)
      have hnext : (start + x).isFinite = true := by
        by_contra hinfinite
        have hlost := isFinite_foldl_eq_false values (Bool.eq_false_of_not_eq_true hinfinite)
        rw [List.foldl_cons, hlost] at hfinite
        cases hfinite
      have hnearest := (gives_add hstart.isFinite hx).nearest hnext
      have hfirst : value start ≤ value (start + x) :=
        hnearest.ge_of_ge (onGrid_value hstart.isFinite) (by linarith)
      have hterm : value x ≤ value (start + x) :=
        hnearest.ge_of_ge (onGrid_value hx) (by linarith [hstart.nonneg])
      obtain ⟨hkept, hothers⟩ := ih (fun other hmem => hvalues other (by simp [hmem]))
        ⟨hnext, hstart.nonneg.trans hfirst⟩ hfinite
      refine ⟨hfirst.trans hkept, ?_⟩
      intro other hmem
      rcases List.mem_cons.mp hmem with rfl | hmem
      · exact hterm.trans hkept
      · exact hothers other hmem

/-- The points of the grid above `2 ^ 54` keep a distance of four from it. -/
theorem add_four_le_of_onGrid {point : ℚ} (hpoint : OnGrid point) (hlt : 2 ^ 54 < point) :
    2 ^ 54 + 4 ≤ point := by
  obtain ⟨mantissa, exponent, hmantissa, _, rfl⟩ := hpoint
  have hbound : (mantissa : ℚ) ≤ 2 ^ 53 := by
    exact_mod_cast (le_abs_self mantissa).trans hmantissa.le
  have hexponent : 2 ≤ exponent := by
    by_contra hsmall
    have hpower : (2 : ℚ) ^ exponent ≤ 2 ^ (1 : ℤ) :=
      zpow_le_zpow_right₀ (by norm_num) (by omega)
    have hpos : (0 : ℚ) < 2 ^ exponent := by positivity
    rw [zpow_one] at hpower
    nlinarith
  obtain ⟨quarter, hmultiple⟩ := exists_multiple mantissa hexponent
  rw [show (2 : ℚ) ^ (2 : ℤ) = 4 by norm_num] at hmultiple
  rw [hmultiple] at hlt ⊢
  have hquarter : (2 ^ 52 : ℤ) < quarter := by
    have : ((2 ^ 52 : ℤ) : ℚ) < quarter := by
      push_cast
      linarith
    exact_mod_cast this
  have hnext : ((2 ^ 52 : ℤ) : ℚ) + 1 ≤ quarter := by exact_mod_cast hquarter
  push_cast at hnext
  linarith

theorem add_four_le_of_lt {point : ℚ} (hpoint : OnGrid point) (hlt : point < 2 ^ 1024) :
    point + 4 ≤ 2 ^ 1024 := by
  obtain ⟨mantissa, exponent, hmantissa, _, rfl⟩ := hpoint
  rcases le_or_gt 2 exponent with hcoarse | hfine
  · obtain ⟨quarter, hmultiple⟩ := exists_multiple mantissa hcoarse
    have hpower : (2 : ℚ) ^ 1024 = ((2 ^ 1022 : ℤ) : ℚ) * 4 := by
      rw [Int.cast_pow, show (1024 : ℕ) = 1022 + 2 from rfl, pow_add]
      norm_num only
    rw [show (2 : ℚ) ^ (2 : ℤ) = 4 by norm_num] at hmultiple
    rw [hmultiple, hpower] at hlt ⊢
    have hquarter : quarter < 2 ^ 1022 := by
      exact_mod_cast lt_of_mul_lt_mul_right hlt (by norm_num)
    have hnext : (quarter : ℚ) + 1 ≤ ((2 ^ 1022 : ℤ) : ℚ) := by exact_mod_cast hquarter
    linarith
  · have hsmall := mul_zpow_le_of_lt hmantissa hfine
    have hlarge : (2 : ℚ) ^ 55 ≤ 2 ^ 1024 := pow_le_pow_right₀ (by norm_num) (by norm_num)
    refine le_trans ?_ hlarge
    norm_num at hsmall ⊢
    linarith

/-- A sum that has reached `2 ^ 54` grows no further when a term of at most one is added. -/
theorem le_of_nearest_of_le_add_one {exact point : ℚ} (hnearest : Nearest exact point)
    (hle : exact ≤ 2 ^ 54 + 1) : point ≤ 2 ^ 54 := by
  have hbound : OnGrid (2 ^ 54) := (representable_two_pow (by norm_num)).onGrid
  by_contra hlt
  push Not at hlt
  have hfar := add_four_le_of_onGrid hnearest.onGrid hlt
  rcases le_or_gt exact (2 ^ 54) with hbelow | habove
  · exact absurd (hnearest.le_of_le hbound hbelow) (not_le.mpr hlt)
  · have hcloser := hnearest.le _ hbound
    rw [abs_of_nonpos (by linarith), abs_of_nonneg (by linarith)] at hcloser
    linarith

theorem foldl_add_within {values : List Float} (hvalues : ∀ x ∈ values, Within 0 1 x)
    {start : Float} (hstart : Within 0 (2 ^ 54) start) :
    Within 0 (2 ^ 54) (values.foldl (· + ·) start) := by
  induction values generalizing start with
  | nil => exact hstart
  | cons x values ih =>
      obtain ⟨hx, hxNonneg, hxLe⟩ := hvalues x (by simp)
      obtain ⟨hfinite, hnonneg, hle⟩ := hstart
      have hwide : Within 0 (2 ^ 55) (start + x) :=
        (gives_add hfinite hx).within representable_zero (representable_two_pow (by norm_num))
          (by linarith) (by linarith)
      have hnearest := (gives_add hfinite hx).nearest hwide.isFinite
      exact ih (fun other hmem => hvalues other (by simp [hmem]))
        ⟨hwide.isFinite, hwide.low_le, le_of_nearest_of_le_add_one hnearest (by linarith)⟩

theorem isSize_add_of_le_one {x y : Float} (hx : IsSize x) (hy : Within 0 1 y) :
    IsSize (x + y) := by
  obtain ⟨point, hnearest, hpoint⟩ := gives_add hx.isFinite hy.isFinite
  have hnonneg := hnearest.nonneg (add_nonneg hx.nonneg hy.low_le)
  rcases hpoint with ⟨_, hfinite, hvalue⟩ | ⟨hlarge, _⟩
  · exact ⟨hfinite, hvalue ▸ hnonneg⟩
  · have hroom := add_four_le_of_lt (onGrid_value hx.isFinite)
      (abs_lt.mp (canonical_of_isFinite hx.isFinite).2).2
    -- The double itself is a point of the grid at a distance of at most one.
    have hcloser := hnearest.le (value x) (onGrid_value hx.isFinite)
    rw [add_sub_cancel_left, abs_of_nonneg hy.low_le] at hcloser
    have hbound : |point| < value x + 4 := by
      rw [abs_of_nonneg hnonneg]
      linarith [(abs_le.mp hcloser).1, hy.le_high]
    exact absurd (hbound.trans_le hroom) (not_lt.mpr hlarge)

theorem total_within {values : List Float} (hvalues : ∀ x ∈ values, Within 0 1 x) :
    Within 0 (2 ^ 54) (total values) :=
  foldl_add_within hvalues
    ⟨value_zero.1, value_zero.2.ge, value_zero.2.le.trans (by positivity)⟩

theorem total_bounds {values : List Float}
    (hvalues : ∀ x ∈ values, IsSize x) (hfinite : (total values).isFinite = true) :
    0 ≤ value (total values) ∧ ∀ x ∈ values, value x ≤ value (total values) := by
  obtain ⟨hstart, hterms⟩ :=
    foldl_add_bounds hvalues ⟨value_zero.1, value_zero.2.ge⟩ hfinite
  rw [value_zero.2] at hstart
  exact ⟨hstart, hterms⟩

end Apportion.Proofs.Number.DoubleSums
