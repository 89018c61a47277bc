import Mathlib
import Apportion.Proofs.Number.DoubleGrid

/-!
How the model of doubles rounds. A mantissa that is cut short keeps two bits on what was cut off,
and these are enough to find the nearest point of the grid, whether the fraction that is rounded is
known exactly or only up to the place of its last bits.
-/

namespace Apportion.Proofs.Number.DoubleRounding

open Float.Model
open Float.Model.UnpackedFloat
open Apportion.Proofs.Number.DoubleGrid

/-- The fraction lies where the mantissa and its two bits on the rest say. -/
def Holds (extended : ExtendedMantissa) (scaled : ℚ) : Prop :=
  match extended.roundBit, extended.stickyBit with
  | false, false => scaled = extended.mantissa
  | false, true => extended.mantissa < scaled ∧ scaled < extended.mantissa + 1 / 2
  | true, false => scaled = extended.mantissa + 1 / 2
  | true, true => extended.mantissa + 1 / 2 < scaled ∧ scaled < extended.mantissa + 1

theorem Holds.bounds {extended : ExtendedMantissa} {scaled : ℚ} (hholds : Holds extended scaled) :
    (extended.mantissa : ℚ) ≤ scaled ∧ scaled < extended.mantissa + 1 := by
  rcases extended with ⟨mantissa, _ | _, _ | _⟩
  · replace hholds : scaled = mantissa := hholds
    constructor <;> linarith
  · replace hholds : (mantissa : ℚ) < scaled ∧ scaled < mantissa + 1 / 2 := hholds
    constructor <;> linarith
  · replace hholds : scaled = mantissa + 1 / 2 := hholds
    constructor <;> linarith
  · replace hholds : (mantissa : ℚ) + 1 / 2 < scaled ∧ scaled < mantissa + 1 := hholds
    constructor <;> linarith

theorem Holds.shiftRightOne {extended : ExtendedMantissa} {scaled : ℚ}
    (hholds : Holds extended scaled) : Holds extended.shiftRightOne (scaled / 2) := by
  obtain ⟨mantissa, roundBit, stickyBit⟩ := extended
  have hsplit : ((mantissa / 2 : ℕ) : ℚ) * 2 + ((mantissa % 2 : ℕ) : ℚ) = mantissa := by
    exact_mod_cast Nat.div_add_mod' mantissa 2
  rcases Nat.mod_two_eq_zero_or_one mantissa with heven | hodd
  · rw [heven] at hsplit
    cases roundBit <;> cases stickyBit <;>
      simp [Holds, ExtendedMantissa.shiftRightOne, heven] at hholds ⊢ <;>
      (try constructor) <;> linarith
  · rw [hodd] at hsplit
    cases roundBit <;> cases stickyBit <;>
      simp [Holds, ExtendedMantissa.shiftRightOne, hodd] at hholds ⊢ <;>
      (try constructor) <;> linarith

theorem shiftRight_succ (extended : ExtendedMantissa) (count : ℕ) :
    extended >>> (count + 1) = (extended >>> count).shiftRightOne := rfl

theorem Holds.shiftRight {extended : ExtendedMantissa} {scaled : ℚ}
    (hholds : Holds extended scaled) (count : ℕ) :
    Holds (extended >>> count) (scaled / 2 ^ count) := by
  induction count with
  | zero =>
      rw [pow_zero, div_one]
      exact hholds
  | succ count ih =>
      rw [shiftRight_succ, pow_succ, ← div_div]
      exact ih.shiftRightOne

theorem mantissa_shiftRight (extended : ExtendedMantissa) (count : ℕ) :
    (extended >>> count).mantissa = extended.mantissa / 2 ^ count := by
  induction count with
  | zero =>
      rw [pow_zero, Nat.div_one]
      rfl
  | succ count ih =>
      rw [shiftRight_succ, pow_succ, ← Nat.div_div_eq_div_mul, ← ih]
      rfl

theorem near_lower {scaled : ℚ} {whole : ℤ} (hlower : (whole : ℚ) ≤ scaled)
    (hupper : scaled ≤ whole + 1 / 2) (other : ℤ) : |scaled - whole| ≤ |scaled - other| := by
  rw [abs_of_nonneg (by linarith)]
  rcases le_or_gt other whole with hle | hlt
  · have hcast : (other : ℚ) ≤ whole := by exact_mod_cast hle
    rw [abs_of_nonneg (by linarith)]
    linarith
  · have hcast : (whole : ℚ) + 1 ≤ other := by exact_mod_cast hlt
    rw [abs_of_nonpos (by linarith)]
    linarith

theorem near_upper {scaled : ℚ} {whole : ℤ} (hlower : (whole : ℚ) + 1 / 2 ≤ scaled)
    (hupper : scaled ≤ whole + 1) (other : ℤ) :
    |scaled - (whole + 1 : ℤ)| ≤ |scaled - other| := by
  push_cast
  rw [abs_of_nonpos (by linarith)]
  rcases le_or_gt other whole with hle | hlt
  · have hcast : (other : ℚ) ≤ whole := by exact_mod_cast hle
    rw [abs_of_nonneg (by linarith)]
    linarith
  · have hcast : (whole : ℚ) + 1 ≤ other := by exact_mod_cast hlt
    rw [abs_of_nonpos (by linarith)]
    linarith

theorem roundedMantissa_bounds (extended : ExtendedMantissa) :
    extended.mantissa ≤ extended.roundedMantissa ∧
      extended.roundedMantissa ≤ extended.mantissa + 1 := by
  rcases extended with ⟨mantissa, _ | _, _ | _⟩
  · exact ⟨Nat.le_refl _, Nat.le_succ _⟩
  · exact ⟨Nat.le_refl _, Nat.le_succ _⟩
  · show mantissa ≤ mantissa + mantissa % 2 ∧ mantissa + mantissa % 2 ≤ mantissa + 1
    omega
  · exact ⟨Nat.le_succ _, Nat.le_refl _⟩

theorem Holds.near {extended : ExtendedMantissa} {scaled : ℚ} (hholds : Holds extended scaled)
    (other : ℤ) : |scaled - (extended.roundedMantissa : ℤ)| ≤ |scaled - other| := by
  rcases extended with ⟨mantissa, _ | _, _ | _⟩
  · replace hholds : scaled = (mantissa : ℤ) := hholds
    exact near_lower hholds.ge (by linarith) other
  · replace hholds : ((mantissa : ℤ) : ℚ) < scaled ∧ scaled < (mantissa : ℤ) + 1 / 2 := hholds
    exact near_lower hholds.1.le hholds.2.le other
  · replace hholds : scaled = (mantissa : ℤ) + 1 / 2 := hholds
    show |scaled - ((mantissa + mantissa % 2 : ℕ) : ℤ)| ≤ |scaled - other|
    rcases Nat.mod_two_eq_zero_or_one mantissa with heven | hodd
    · rw [heven]
      exact near_lower (by linarith) hholds.le other
    · rw [hodd]
      exact near_upper hholds.ge (by linarith) other
  · replace hholds : ((mantissa : ℤ) : ℚ) + 1 / 2 < scaled ∧ scaled < (mantissa : ℤ) + 1 := hholds
    exact near_upper hholds.1.le hholds.2.le other

/-- A mantissa and an exponent as doubles keep them: the mantissa takes all 53 bits, or the exponent
is the smallest one. -/
structure Canonical (mantissa : ℕ) (exponent : ℤ) : Prop where
  mantissa_lt : mantissa < 2 ^ 53
  least_le : -1074 ≤ exponent
  full : 2 ^ 52 ≤ mantissa ∨ exponent = -1074

def IsCanonical : UnpackedFloat → Prop
  | .zero _ => True
  | .finite _ mantissa exponent _ => Canonical mantissa exponent
  | .infinity _ => False
  | .notANumber => False

def signed : Sign → ℚ → ℚ
  | .negative, size => -size
  | .positive, size => size

/-- The fraction that a finite number is. -/
def amount : UnpackedFloat → ℚ
  | .finite sign mantissa exponent _ => signed sign (mantissa * (2 : ℚ) ^ exponent)
  | _ => 0

theorem Canonical.onGrid {mantissa : ℕ} {exponent : ℤ} (hcanonical : Canonical mantissa exponent) :
    OnGrid (mantissa * (2 : ℚ) ^ exponent) := by
  refine ⟨mantissa, exponent, ?_, hcanonical.least_le, by simp⟩
  rw [Nat.abs_cast]
  exact_mod_cast hcanonical.mantissa_lt

theorem onGrid_signed {size : ℚ} (hsize : OnGrid size) (sign : Sign) :
    OnGrid (signed sign size) := by
  cases sign with
  | negative => exact onGrid_neg hsize
  | positive => exact hsize

theorem nearest_signed {exact point : ℚ} (hnearest : Nearest exact point) (sign : Sign) :
    Nearest (signed sign exact) (signed sign point) := by
  cases sign with
  | negative => exact hnearest.neg
  | positive => exact hnearest

theorem IsCanonical.zero_or_finite {number : UnpackedFloat} (hcanonical : IsCanonical number) :
    (∃ sign, number = .zero sign) ∨
      ∃ sign mantissa exponent hpos, number = .finite sign mantissa exponent hpos ∧
        Canonical mantissa exponent := by
  cases number with
  | infinity sign => exact hcanonical.elim
  | notANumber => exact hcanonical.elim
  | zero sign => exact .inl ⟨sign, rfl⟩
  | finite sign mantissa exponent hpos =>
      exact .inr ⟨sign, mantissa, exponent, hpos, rfl, hcanonical⟩

@[simp]
theorem amount_zero (sign : Sign) : amount (.zero sign) = 0 := rfl

theorem onGrid_amount {number : UnpackedFloat} (hcanonical : IsCanonical number) :
    OnGrid (amount number) := by
  obtain ⟨sign, rfl⟩ | ⟨sign, mantissa, exponent, hpos, rfl, hfinite⟩ := hcanonical.zero_or_finite
  · exact onGrid_zero
  · exact onGrid_signed hfinite.onGrid sign

structure RoundedTo (exact : ℚ) (number : UnpackedFloat) : Prop where
  canonical : IsCanonical number
  nearest : Nearest exact (amount number)

theorem roundedTo_amount {number : UnpackedFloat} (hcanonical : IsCanonical number) :
    RoundedTo (amount number) number :=
  ⟨hcanonical, .of_onGrid (onGrid_amount hcanonical)⟩

theorem roundedTo_zero (sign : Sign) : RoundedTo 0 (.zero sign) :=
  ⟨trivial, .of_onGrid onGrid_zero⟩

def target (mantissa : ℕ) (exponent : ℤ) : ℤ :=
  max (mantissa.log2 + exponent - 52) (-1074)

theorem targetExponent_eq_target (mantissa : ℕ) (exponent : ℤ) :
    Format.binary64.targetExponent (totalExponent mantissa exponent) =
      target mantissa exponent := by
  show max ((mantissa.log2 : ℤ) + 1 + exponent - 53) (-1074) = target mantissa exponent
  unfold target
  omega

theorem shiftToTargetExponent_eq (mantissa : ℕ) (exponent : ℤ) (accuracy : Accuracy) :
    shiftToTargetExponent Format.binary64 mantissa exponent accuracy =
      (ExtendedMantissa.ofMantissaAndAccuracy mantissa accuracy >>>
          (target mantissa exponent - exponent).toNat,
        exponent + (target mantissa exponent - exponent).toNat) := by
  rw [shiftToTargetExponent, targetExponent_eq_target]
  rfl

@[simp]
theorem mantissa_ofMantissaAndAccuracy (mantissa : ℕ) (accuracy : Accuracy) :
    (ExtendedMantissa.ofMantissaAndAccuracy mantissa accuracy).mantissa = mantissa := by
  rcases accuracy with _ | _ | _ | _ <;> rfl

/-- Cutting a mantissa at the exponent that rounding aims at leaves no more than 53 bits, and all of
them unless the exponent is the smallest one. -/
theorem canonical_div {mantissa : ℕ} {exponent : ℤ}
    (hexponent : exponent ≤ target mantissa exponent) :
    Canonical (mantissa / 2 ^ (target mantissa exponent - exponent).toNat)
      (target mantissa exponent) := by
  have hsteps : ((target mantissa exponent - exponent).toNat : ℤ) =
      target mantissa exponent - exponent := Int.toNat_of_nonneg (sub_nonneg.mpr hexponent)
  generalize (target mantissa exponent - exponent).toNat = steps at hsteps ⊢
  have htarget : target mantissa exponent = max (mantissa.log2 + exponent - 52) (-1074) := rfl
  refine ⟨?_, le_max_right _ _, ?_⟩
  · rw [Nat.div_lt_iff_lt_mul (by positivity), ← pow_add]
    calc mantissa < 2 ^ (mantissa.log2 + 1) := Nat.lt_log2_self
      _ ≤ 2 ^ (53 + steps) := Nat.pow_le_pow_right (by norm_num) (by omega)
  · rcases max_choice ((mantissa.log2 : ℤ) + exponent - 52) (-1074) with hfull | hleast
    · left
      have hbits : mantissa.log2 = 52 + steps := by omega
      have hmantissa : mantissa ≠ 0 := by
        rintro rfl
        rw [Nat.log2_zero] at hbits
        omega
      rw [Nat.le_div_iff_mul_le (by positivity), ← pow_add, ← hbits]
      exact Nat.log2_self_le hmantissa
    · right
      omega

/-- A mantissa that rounding has carried into another bit is cut once more, and loses nothing. -/
theorem carry {rounded : ℕ} {exponent : ℤ} (hrounded : rounded ≤ 2 ^ 53) (hleast : -1074 ≤ exponent)
    (hfull : 2 ^ 52 ≤ rounded ∨ exponent = -1074) :
    exponent ≤ target rounded exponent ∧
      ((rounded / 2 ^ (target rounded exponent - exponent).toNat : ℕ) : ℚ) *
        (2 : ℚ) ^ target rounded exponent = rounded * (2 : ℚ) ^ exponent := by
  have htarget : target rounded exponent = max (rounded.log2 + exponent - 52) (-1074) := rfl
  have hge : exponent ≤ target rounded exponent := by
    rcases hfull with hfull | hfull
    · have hbits : 52 ≤ rounded.log2 := (Nat.le_log2 (by omega)).mpr hfull
      omega
    · omega
  refine ⟨hge, ?_⟩
  rcases hrounded.lt_or_eq with hlt | rfl
  · have hbits : rounded.log2 ≤ 52 := by
      by_cases hzero : rounded = 0
      · rw [hzero, Nat.log2_zero]
        omega
      · exact Nat.le_of_lt_succ ((Nat.log2_lt hzero).mpr hlt)
    have hsame : target rounded exponent = exponent := by omega
    rw [hsame, sub_self, Int.toNat_zero, pow_zero, Nat.div_one]
  · have hnext : target (2 ^ 53) exponent = exponent + 1 := by
      rw [Nat.log2_two_pow] at htarget
      omega
    rw [hnext, add_sub_cancel_left, zpow_add_one₀ (by norm_num)]
    norm_num
    ring

theorem Holds.nearest_roundedMantissa {cut : ExtendedMantissa} {exact : ℚ} {exponent : ℤ}
    (hholds : Holds cut (exact / (2 : ℚ) ^ exponent)) (hcanonical : Canonical cut.mantissa exponent)
    (hrounded : cut.roundedMantissa ≤ 2 ^ 53) :
    Nearest exact (cut.roundedMantissa * (2 : ℚ) ^ exponent) := by
  have hmultiple := nearest_of_multiple cut.roundedMantissa hcanonical.least_le
    (hcanonical.full.imp_left fun hlarge =>
      le_trans (by exact_mod_cast hlarge) hholds.bounds.1)
    (Int.natCast_nonneg _) (by exact_mod_cast hrounded) hholds.near
  rwa [div_mul_cancel₀ _ (by positivity), Int.cast_natCast] at hmultiple

theorem roundWithAccuracy_nearest (sign : Sign) {mantissa : ℕ} {exponent : ℤ}
    {accuracy : Accuracy} {exact : ℚ}
    (hholds : Holds (.ofMantissaAndAccuracy mantissa accuracy) (exact / (2 : ℚ) ^ exponent))
    (hexponent : exponent ≤ target mantissa exponent) :
    RoundedTo (signed sign exact)
      (roundWithAccuracy Format.binary64 sign mantissa exponent accuracy) := by
  have hcut := canonical_div hexponent
  have hsteps : exponent + (target mantissa exponent - exponent).toNat =
      target mantissa exponent := by omega
  have hscaled := hholds.shiftRight (target mantissa exponent - exponent).toNat
  rw [div_div, ← zpow_natCast, ← zpow_add₀ (by norm_num), hsteps] at hscaled
  generalize hfirst : ExtendedMantissa.ofMantissaAndAccuracy mantissa accuracy >>>
    (target mantissa exponent - exponent).toNat = first at hscaled
  have hmantissa : mantissa / 2 ^ (target mantissa exponent - exponent).toNat = first.mantissa := by
    rw [← hfirst, mantissa_shiftRight, mantissa_ofMantissaAndAccuracy]
  rw [hmantissa] at hcut
  obtain ⟨hlower, hupper⟩ := roundedMantissa_bounds first
  have hrounded : first.roundedMantissa ≤ 2 ^ 53 := hupper.trans hcut.mantissa_lt
  have hnearest := hscaled.nearest_roundedMantissa hcut hrounded
  -- Rounding up may have filled another bit, so the mantissa is brought to its exponent again.
  obtain ⟨hcarried, hvalue⟩ := carry hrounded hcut.least_le
    (hcut.full.imp_left fun hlarge => hlarge.trans hlower)
  have hcanonical := canonical_div hcarried
  rw [← hvalue] at hnearest
  have hlast : target mantissa exponent +
      (target first.roundedMantissa (target mantissa exponent) - target mantissa exponent).toNat =
        target first.roundedMantissa (target mantissa exponent) := by omega
  unfold roundWithAccuracy
  simp only [shiftToTargetExponent_eq, hfirst, hsteps, hlast, mantissa_shiftRight,
    mantissa_ofMantissaAndAccuracy]
  split
  · rename_i hzero
    rw [hzero, Nat.cast_zero, zero_mul] at hnearest
    have hamount := nearest_signed hnearest sign
    refine ⟨trivial, ?_⟩
    cases sign with
    | negative => simpa [signed, amount] using hamount
    | positive => exact hamount
  · exact ⟨hcanonical, nearest_signed hnearest sign⟩

end Apportion.Proofs.Number.DoubleRounding
