import Mathlib
import Apportion.Number.Binary
import Apportion.Proofs.Number.ExactArithmetic

namespace Apportion.Proofs.Number.WholeRounding

open Apportion.Number.Arithmetic
open Apportion.Number.Binary

/-- The whole number is nearest to the fraction, and it is even if another one is equally near. -/
structure NearestEven (exact : ℚ) (whole : ℕ) : Prop where
  near : |exact - whole| ≤ 1 / 2
  even : |exact - whole| = 1 / 2 → Even whole

namespace NearestEven

theorem natCast (whole : ℕ) : NearestEven whole whole := by
  refine ⟨?_, fun hhalf => ?_⟩
  · rw [sub_self, abs_zero]
    norm_num
  · rw [sub_self, abs_zero] at hhalf
    norm_num at hhalf

theorem of_le {exact : ℚ} {whole : ℕ} (hlower : (whole : ℚ) ≤ exact)
    (hupper : exact ≤ whole + 1 / 2) (heven : exact = whole + 1 / 2 → Even whole) :
    NearestEven exact whole := by
  have habs : |exact - whole| = exact - whole := abs_of_nonneg (by linarith)
  refine ⟨by linarith, fun hhalf => heven ?_⟩
  rw [habs] at hhalf
  linarith

theorem of_ge {exact : ℚ} {whole : ℕ} (hlower : (whole : ℚ) - 1 / 2 ≤ exact)
    (hupper : exact ≤ whole) (heven : exact = whole - 1 / 2 → Even whole) :
    NearestEven exact whole := by
  have habs : |exact - whole| = whole - exact := by
    rw [abs_sub_comm]
    exact abs_of_nonneg (by linarith)
  refine ⟨by linarith, fun hhalf => heven ?_⟩
  rw [habs] at hhalf
  linarith

theorem mono {small large : ℚ} {least greatest : ℕ} (hsmall : NearestEven small least)
    (hlarge : NearestEven large greatest) (hle : small ≤ large) : least ≤ greatest := by
  by_contra hlt
  obtain ⟨hlower, -⟩ := abs_le.mp hsmall.near
  obtain ⟨-, hupper⟩ := abs_le.mp hlarge.near
  have hnext : (greatest : ℚ) + 1 ≤ least := by exact_mod_cast Nat.not_le.mp hlt
  -- The two fractions can only be the one halfway between the two whole numbers.
  have hleast : least = greatest + 1 := by
    have hcast : (least : ℚ) ≤ greatest + 1 := by linarith
    exact le_antisymm (by exact_mod_cast hcast) (Nat.not_le.mp hlt)
  have hfirst : Even least := hsmall.even (by
    rw [abs_sub_comm, abs_of_nonneg] <;> linarith)
  have hsecond : Even greatest := hlarge.even (by
    rw [abs_of_nonneg] <;> linarith)
  rw [hleast] at hfirst
  exact Nat.even_add_one.mp hfirst hsecond

theorem unique {exact : ℚ} {whole other : ℕ} (hwhole : NearestEven exact whole)
    (hother : NearestEven exact other) : whole = other :=
  le_antisymm (hwhole.mono hother le_rfl) (hother.mono hwhole le_rfl)

theorem le_of_int {exact : ℚ} {whole : ℕ} (hwhole : NearestEven exact whole) {other : ℤ}
    (hother : other ≠ whole) :
    |exact - whole| ≤ |exact - other| ∧ (|exact - whole| = |exact - other| → Even whole) := by
  have hnear := hwhole.near
  have hapart : (1 : ℚ) ≤ |(whole : ℚ) - other| := by
    have hone : (1 : ℤ) ≤ |(whole : ℤ) - other| := Int.one_le_abs (sub_ne_zero.mpr hother.symm)
    exact_mod_cast hone
  have htriangle := abs_sub_le (whole : ℚ) exact other
  rw [abs_sub_comm (whole : ℚ) exact] at htriangle
  exact ⟨by linarith, fun hequal => hwhole.even (by linarith)⟩

end NearestEven

/-- Rounding by the part of a fraction that lies above a whole number: down below a half, up above
it, and to the even neighbour at it. -/
theorem nearestEven_of_fraction {exact : ℚ} {whole : ℕ} (hlower : (whole : ℚ) ≤ exact)
    (hupper : exact < whole + 1) :
    NearestEven exact
      (if exact - whole < 1 / 2 then whole
        else if 1 / 2 < exact - whole then whole + 1 else whole + whole % 2) := by
  split
  · exact .of_le hlower (by linarith) (fun hhalf => by linarith)
  rename_i hnotBelow
  split
  · refine .of_ge ?_ ?_ (fun hhalf => ?_) <;> push_cast at * <;> linarith
  rename_i hnotAbove
  have hhalf : exact = whole + 1 / 2 := by linarith
  rcases Nat.even_or_odd whole with heven | hodd
  · rw [Nat.even_iff.mp heven, add_zero]
    exact .of_le hlower hhalf.le (fun _ => heven)
  · rw [Nat.odd_iff.mp hodd]
    refine .of_ge ?_ ?_ (fun _ => hodd.add_one) <;> push_cast <;> linarith

theorem nearestEven_roundHalfEven {exact : ℚ} (hnonneg : 0 ≤ exact) :
    NearestEven exact (roundHalfEven exact) := by
  have hround : roundHalfEven exact =
      if exact - (⌊exact⌋₊ : ℚ) < 1 / 2 then ⌊exact⌋₊
        else if 1 / 2 < exact - (⌊exact⌋₊ : ℚ) then ⌊exact⌋₊ + 1 else ⌊exact⌋₊ + ⌊exact⌋₊ % 2 := by
    have hhalf : (1 : ℚ) / (1 + 1) = 1 / 2 := by norm_num
    rw [← hhalf]
    rfl
  rw [hround]
  exact nearestEven_of_fraction (Nat.floor_le hnonneg) (Nat.lt_floor_add_one exact)

theorem nearestEven_nearestQuotient (numerator : ℕ) {denominator : ℕ} (hpos : 0 < denominator) :
    NearestEven ((numerator : ℚ) / denominator) (nearestQuotient numerator denominator) := by
  have hscale : (0 : ℚ) < denominator := by exact_mod_cast hpos
  have hrest : (numerator : ℚ) / denominator - (numerator / denominator : ℕ) =
      (numerator % denominator : ℕ) / denominator := by
    have hsplit : (denominator : ℚ) * (numerator / denominator : ℕ) +
        (numerator % denominator : ℕ) = numerator := by
      exact_mod_cast Nat.div_add_mod numerator denominator
    rw [← hsplit, add_div, mul_div_cancel_left₀ _ hscale.ne']
    ring
  have hbelow : 2 * (numerator % denominator) < denominator ↔
      (numerator : ℚ) / denominator - (numerator / denominator : ℕ) < 1 / 2 := by
    rw [hrest, div_lt_div_iff₀ hscale (by norm_num), mul_comm, one_mul]
    exact_mod_cast Iff.rfl
  have habove : denominator < 2 * (numerator % denominator) ↔
      1 / 2 < (numerator : ℚ) / denominator - (numerator / denominator : ℕ) := by
    rw [hrest, div_lt_div_iff₀ (by norm_num) hscale, one_mul, mul_comm _ (2 : ℚ)]
    exact_mod_cast Iff.rfl
  rw [nearestQuotient]
  simp only [hbelow, habove]
  apply nearestEven_of_fraction
  · rw [← sub_nonneg, hrest]
    positivity
  · rw [← sub_lt_iff_lt_add', hrest, div_lt_one hscale]
    exact_mod_cast Nat.mod_lt numerator hpos

end Apportion.Proofs.Number.WholeRounding
