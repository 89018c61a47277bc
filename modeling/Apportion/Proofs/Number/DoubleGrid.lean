import Mathlib.Algebra.Order.Field.Power
import Mathlib.Algebra.Order.Ring.Rat
import Mathlib.Tactic.Linarith
import Mathlib.Tactic.NormNum
import Mathlib.Tactic.Positivity
import Mathlib.Tactic.Ring

/-!
The fractions that a double can hold when its exponent may grow without bound, and what it means
that one of them is nearest to a fraction. Comparisons with a fraction on the grid survive rounding,
which is all that most bounds need.
-/

namespace Apportion.Proofs.Number.DoubleGrid

/-- A multiple of a power of two that 53 bits hold. The power is no smaller than that of the
smallest doubles. -/
def OnGrid (point : ℚ) : Prop :=
  ∃ mantissa exponent : ℤ, |mantissa| < 2 ^ 53 ∧ -1074 ≤ exponent ∧
    point = mantissa * (2 : ℚ) ^ exponent

/-- No point of the grid is nearer to the fraction. -/
structure Nearest (exact point : ℚ) : Prop where
  onGrid : OnGrid point
  le : ∀ other, OnGrid other → |exact - point| ≤ |exact - other|

theorem onGrid_neg {point : ℚ} (hpoint : OnGrid point) : OnGrid (-point) := by
  obtain ⟨mantissa, exponent, hmantissa, hexponent, rfl⟩ := hpoint
  refine ⟨-mantissa, exponent, ?_, hexponent, ?_⟩
  · rwa [abs_neg]
  · push_cast
    ring

theorem onGrid_zero : OnGrid 0 :=
  ⟨0, 0, by norm_num, by norm_num, by norm_num⟩

theorem onGrid_two_zpow {exponent : ℤ} (hexponent : -1074 ≤ exponent) :
    OnGrid ((2 : ℚ) ^ exponent) :=
  ⟨1, exponent, by norm_num, hexponent, by norm_num⟩

theorem onGrid_two_pow_mul {point : ℚ} (hpoint : OnGrid point) (power : ℕ) :
    OnGrid (2 ^ power * point) := by
  obtain ⟨mantissa, exponent, hmantissa, hexponent, rfl⟩ := hpoint
  refine ⟨mantissa, exponent + power, hmantissa, by omega, ?_⟩
  rw [zpow_add₀ (by norm_num), zpow_natCast]
  ring

theorem onGrid_natCast (number : ℕ) (hbound : number < 2 ^ 53) : OnGrid number := by
  refine ⟨number, 0, ?_, by norm_num, by simp⟩
  rw [abs_of_nonneg (by positivity)]
  exact_mod_cast hbound

theorem onGrid_one : OnGrid 1 := by
  simpa using onGrid_natCast 1 (by norm_num)

namespace Nearest

variable {exact point bound : ℚ}

theorem of_onGrid (hexact : OnGrid exact) : Nearest exact exact where
  onGrid := hexact
  le other _ := by
    rw [sub_self, abs_zero]
    exact abs_nonneg _

theorem neg (hnearest : Nearest exact point) : Nearest (-exact) (-point) where
  onGrid := onGrid_neg hnearest.onGrid
  le other hother := by
    have hle := hnearest.le (-other) (onGrid_neg hother)
    rw [show -exact - -point = -(exact - point) by ring,
      show -exact - other = -(exact - -other) by ring, abs_neg, abs_neg]
    exact hle

theorem le_of_le (hnearest : Nearest exact point) (hbound : OnGrid bound) (hle : exact ≤ bound) :
    point ≤ bound := by
  by_contra hlt
  push Not at hlt
  have hcloser := hnearest.le bound hbound
  rw [abs_of_nonpos (by linarith), abs_of_nonpos (by linarith)] at hcloser
  linarith

theorem ge_of_ge (hnearest : Nearest exact point) (hbound : OnGrid bound) (hge : bound ≤ exact) :
    bound ≤ point := by
  have hneg := hnearest.neg.le_of_le (onGrid_neg hbound) (neg_le_neg hge)
  linarith

theorem eq_of_onGrid (hnearest : Nearest exact point) (hexact : OnGrid exact) : point = exact :=
  le_antisymm (hnearest.le_of_le hexact le_rfl) (hnearest.ge_of_ge hexact le_rfl)

theorem nonneg (hnearest : Nearest exact point) (hexact : 0 ≤ exact) : 0 ≤ point :=
  hnearest.ge_of_ge onGrid_zero hexact

theorem nonpos (hnearest : Nearest exact point) (hexact : exact ≤ 0) : point ≤ 0 :=
  hnearest.le_of_le onGrid_zero hexact

end Nearest

theorem onGrid_multiple {multiple exponent : ℤ} (hnonneg : 0 ≤ multiple)
    (hbound : multiple ≤ 2 ^ 53) (hexponent : -1074 ≤ exponent) :
    OnGrid (multiple * (2 : ℚ) ^ exponent) := by
  rcases hbound.lt_or_eq with hlt | rfl
  · exact ⟨multiple, exponent, by rwa [abs_of_nonneg hnonneg], hexponent, rfl⟩
  · refine ⟨2 ^ 52, exponent + 1, by norm_num, by omega, ?_⟩
    rw [zpow_add_one₀ (by norm_num)]
    push_cast
    ring

theorem exists_multiple (mantissa : ℤ) {exponent power : ℤ} (hle : exponent ≤ power) :
    ∃ multiple : ℤ, (mantissa : ℚ) * (2 : ℚ) ^ power = multiple * (2 : ℚ) ^ exponent := by
  obtain ⟨steps, hsteps⟩ := Int.eq_ofNat_of_zero_le (sub_nonneg.mpr hle)
  refine ⟨mantissa * 2 ^ steps, ?_⟩
  rw [show power = steps + exponent by omega, zpow_add₀ (by norm_num), zpow_natCast]
  push_cast
  ring

theorem mul_zpow_le_of_lt {mantissa : ℤ} (hmantissa : |mantissa| < 2 ^ 53) {exponent power : ℤ}
    (hlt : power < exponent) :
    (mantissa : ℚ) * (2 : ℚ) ^ power ≤ 2 ^ 52 * (2 : ℚ) ^ exponent := by
  have hbound : (mantissa : ℚ) ≤ 2 ^ 53 := by
    exact_mod_cast (le_abs_self mantissa).trans hmantissa.le
  have hpower : (2 : ℚ) ^ power ≤ 2 ^ (exponent - 1) :=
    zpow_le_zpow_right₀ (by norm_num) (by omega)
  calc (mantissa : ℚ) * (2 : ℚ) ^ power
      ≤ 2 ^ 53 * (2 : ℚ) ^ power := mul_le_mul_of_nonneg_right hbound (by positivity)
    _ ≤ 2 ^ 53 * (2 : ℚ) ^ (exponent - 1) := mul_le_mul_of_nonneg_left hpower (by positivity)
    _ = 2 ^ 52 * (2 : ℚ) ^ exponent := by
        rw [zpow_sub_one₀ (by norm_num)]
        ring

/-- The nearest multiple of a power of two is the nearest point of the grid, if the fraction takes
all 53 bits or the power is the smallest one. -/
theorem nearest_of_multiple {scaled : ℚ} (rounded : ℤ) {exponent : ℤ}
    (hexponent : -1074 ≤ exponent) (hfull : 2 ^ 52 ≤ scaled ∨ exponent = -1074)
    (hnonneg : 0 ≤ rounded) (hrounded : rounded ≤ 2 ^ 53)
    (hnear : ∀ other : ℤ, |scaled - rounded| ≤ |scaled - other|) :
    Nearest (scaled * (2 : ℚ) ^ exponent) (rounded * (2 : ℚ) ^ exponent) := by
  have hpow : (0 : ℚ) < 2 ^ exponent := by positivity
  have hscale : ∀ other : ℚ, |scaled * (2 : ℚ) ^ exponent - other * (2 : ℚ) ^ exponent| =
      |scaled - other| * (2 : ℚ) ^ exponent := by
    intro other
    rw [← sub_mul, abs_mul, abs_of_pos hpow]
  refine ⟨onGrid_multiple hnonneg hrounded hexponent, ?_⟩
  rintro other ⟨mantissa, power, hmantissa, hpower, rfl⟩
  by_cases hcoarse : exponent ≤ power
  · obtain ⟨multiple, hmultiple⟩ := exists_multiple mantissa hcoarse
    rw [hmultiple, hscale, hscale]
    exact mul_le_mul_of_nonneg_right (hnear _) hpow.le
  · -- A finer point is at least as far away as the least fraction that takes all bits.
    have hlarge : (2 : ℚ) ^ 52 ≤ scaled := by
      rcases hfull with hfull | hleast
      · exact hfull
      · omega
    have hsmall := mul_zpow_le_of_lt hmantissa (not_le.mp hcoarse)
    have hround : |scaled - rounded| ≤ scaled - 2 ^ 52 := by
      have hat := hnear (2 ^ 52)
      rwa [show ((2 ^ 52 : ℤ) : ℚ) = 2 ^ 52 by norm_cast,
        abs_of_nonneg (show (0 : ℚ) ≤ scaled - 2 ^ 52 by linarith)] at hat
    calc |scaled * (2 : ℚ) ^ exponent - rounded * (2 : ℚ) ^ exponent|
        = |scaled - rounded| * (2 : ℚ) ^ exponent := hscale _
      _ ≤ (scaled - 2 ^ 52) * (2 : ℚ) ^ exponent := mul_le_mul_of_nonneg_right hround hpow.le
      _ ≤ scaled * (2 : ℚ) ^ exponent - mantissa * (2 : ℚ) ^ power := by
          rw [sub_mul]
          linarith
      _ ≤ |scaled * (2 : ℚ) ^ exponent - mantissa * (2 : ℚ) ^ power| := le_abs_self _

end Apportion.Proofs.Number.DoubleGrid
