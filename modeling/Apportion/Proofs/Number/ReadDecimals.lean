import Mathlib
import Apportion.Number.DecimalReading
import Apportion.Proofs.Number.Doubles
import Apportion.Proofs.Number.ShortestDecimals

namespace Apportion.Proofs.Number.ReadDecimals

open Apportion.Number.Binary
open Apportion.Number.Shortest
open Apportion.Number.DecimalReading
open Apportion.Proofs.Number.DoubleGrid (onGrid_two_zpow onGrid_natCast exists_multiple)
open Apportion.Proofs.Number.DoubleRounding (Canonical)
open Apportion.Proofs.Number.DoubleWords
open Apportion.Proofs.Number.Doubles
open Apportion.Proofs.Number.FormatRounding
open Apportion.Proofs.Number.NearestWords
open Apportion.Proofs.Number.ShortestDecimals

/-- The decimal is read as the double nearest to it. -/
def RoundsNearest (decimal : Decimal) : Prop :=
  (doubleOfDecimal? decimal).map Float.toBits = some (UInt64.ofNat (nearestWord decimal))

instance (decimal : Decimal) : Decidable (RoundsNearest decimal) :=
  inferInstanceAs (Decidable (_ = _))

theorem RoundsNearest.exists_double {decimal : Decimal} (hrounds : RoundsNearest decimal)
    (hfinite : nearestWord decimal < double.infinity) :
    ∃ x, doubleOfDecimal? decimal = some x ∧ x.toBits.toNat = nearestWord decimal := by
  obtain ⟨x, hx, hbits⟩ := Option.map_eq_some_iff.mp hrounds
  have hword : nearestWord decimal < 2 ^ 64 := hfinite.trans (by decide)
  refine ⟨x, hx, ?_⟩
  rw [hbits]
  exact Nat.mod_eq_of_lt hword

variable {significand : ℕ} {exponent : ℤ}

theorem toNat_field (word start length : ℕ) :
    (BitVec.extractLsb' start length (BitVec.ofNat 64 word)).toNat =
      word % 2 ^ 64 / 2 ^ start % 2 ^ length := by
  rw [BitVec.extractLsb'_toNat, Nat.shiftRight_eq_div_pow, BitVec.toNat_ofNat]

open Float.Model Float.Model.UnpackedFloat in
theorem unpack_magnitude (hcanonical : Canonical significand exponent) (hpos : 0 < significand)
    (hle : exponent ≤ 971) :
    UnpackedFloat.unpack Format.binary64
        (UInt64.ofNat (magnitude double significand exponent)).toBitVec =
      .finite .positive significand exponent hpos := by
  have hleast := hcanonical.least_le
  have hsignificand := hcanonical.mantissa_lt
  have hsize := magnitude_double significand exponent
  generalize magnitude double significand exponent = word at *
  have hword : (UInt64.ofNat word).toBitVec = BitVec.ofNat 64 word := rfl
  have hsign : BitVec.extractLsb' 63 1 (BitVec.ofNat 64 word) = 0#1 := by
    apply BitVec.eq_of_toNat_eq
    rw [toNat_field]
    show word % 2 ^ 64 / 2 ^ 63 % 2 ^ 1 = 0
    omega
  rw [hword, unpack_eq_ofFields, unpackSign_def, unpackExponent_def, unpackMantissa_def]
  show ofFields (Sign.ofBitVec (BitVec.extractLsb' 63 1 (BitVec.ofNat 64 word)))
    (BitVec.extractLsb' 52 11 (BitVec.ofNat 64 word))
    (BitVec.extractLsb' 0 52 (BitVec.ofNat 64 word)) = _
  have hmantissa : BitVec.extractLsb' 0 52 (BitVec.ofNat 64 word) =
      BitVec.ofNat 52 significand := by
    apply BitVec.eq_of_toNat_eq
    rw [toNat_field, BitVec.toNat_ofNat]
    omega
  rw [hsign, hmantissa]
  rcases Nat.lt_or_ge significand (2 ^ 52) with hsmall | hfull
  · obtain rfl : exponent = -1074 := hcanonical.full.resolve_left (by omega)
    have hexponent : BitVec.extractLsb' 52 11 (BitVec.ofNat 64 word) = 0#11 := by
      apply BitVec.eq_of_toNat_eq
      rw [toNat_field]
      show word % 2 ^ 64 / 2 ^ 52 % 2 ^ 11 = 0
      omega
    rw [hexponent]
    exact ofFields_subnormal .positive hpos hsmall
  · have hexponent : BitVec.extractLsb' 52 11 (BitVec.ofNat 64 word) =
        BitVec.ofNat 11 (exponent + 1023 + 52).toNat := by
      apply BitVec.eq_of_toNat_eq
      rw [toNat_field, BitVec.toNat_ofNat]
      omega
    rw [hexponent]
    exact ofFields_normal .positive hpos hfull hcanonical hle

open Float.Model Float.Model.UnpackedFloat in
theorem toBits_ofBits {word : UInt64}
    (hfinite : (UnpackedFloat.unpack Format.binary64 word.toBitVec).isFinite = true) :
    (Float.ofBits word).toBits = word := by
  have hnumber : @isNaNBits Format.binary64 word.toBitVec = false := by
    by_contra hundefined
    rw [Bool.not_eq_false, isNaNBits, decide_eq_true_iff] at hundefined
    rw [unpack_eq_ofFields, hundefined.1, ofFields, if_pos rfl, if_neg hundefined.2] at hfinite
    cases hfinite
  have hpack := @pack_unpack Format.binary64 word.toBitVec (by decide)
  rw [hnumber, if_neg (by decide)] at hpack
  exact UInt64.toBitVec_inj.mp hpack

theorem ofBits_magnitude (hcanonical : Canonical significand exponent) (hpos : 0 < significand)
    (hle : exponent ≤ 971) :
    (Float.ofBits (UInt64.ofNat (magnitude double significand exponent))).isFinite = true ∧
      value (Float.ofBits (UInt64.ofNat (magnitude double significand exponent))) =
        significand * (2 : ℚ) ^ exponent ∧
      (Float.ofBits (UInt64.ofNat (magnitude double significand exponent))).toBits =
        UInt64.ofNat (magnitude double significand exponent) := by
  have hunpack := unpack_magnitude hcanonical hpos hle
  generalize UInt64.ofNat (magnitude double significand exponent) = word at *
  have hbits : (Float.ofBits word).toBits = word := toBits_ofBits (by rw [hunpack]; rfl)
  have hmodel : (Float.ofBits word).toModel.unpack =
      .finite .positive significand exponent hpos := by
    show Float.Model.UnpackedFloat.unpack Float.Model.Format.binary64
      (Float.ofBits word).toBits.toBitVec = _
    rw [hbits, hunpack]
  refine ⟨?_, congrArg DoubleRounding.amount hmodel, hbits⟩
  show (Float.ofBits word).toModel.unpack.isFinite = true
  rw [hmodel]
  rfl

theorem onGrid_double_iff {point : ℚ} :
    FormatRounding.OnGrid double point ↔ DoubleGrid.OnGrid point := by
  constructor
  · rintro ⟨negative, significand, exponent, hsignificand, hexponent, rfl⟩
    refine ⟨if negative then -significand else significand, exponent, ?_, hexponent,
      amount_eq_mul negative significand exponent⟩
    have hsize : (significand : ℤ) < 2 ^ 53 := by exact_mod_cast hsignificand
    cases negative <;> simpa using hsize
  · rintro ⟨mantissa, exponent, hmantissa, hexponent, rfl⟩
    refine ⟨decide (mantissa < 0), mantissa.natAbs, exponent, ?_, hexponent, ?_⟩
    · have hbounds := abs_lt.mp hmantissa
      show mantissa.natAbs < 2 ^ 53
      omega
    · rw [amount_eq_mul]
      congr 2
      split
      · rename_i hneg
        have := of_decide_eq_true hneg
        omega
      · rename_i hnonneg
        have := mt decide_eq_true hnonneg
        omega

theorem exists_magnitude {numerator denominator : ℕ} (hdenominator : 0 < denominator)
    (hsmall : (2 : ℚ) ^ (-1074 : ℤ) ≤ (numerator : ℚ) / denominator)
    (hlarge : (numerator : ℚ) / denominator < 2 ^ 1023) :
    ∃ significand exponent, Canonical significand exponent ∧ 0 < significand ∧ exponent ≤ 971 ∧
      double.nearest numerator denominator = magnitude double significand exponent ∧
        DoubleGrid.Nearest ((numerator : ℚ) / denominator)
          (significand * (2 : ℚ) ^ exponent) := by
  have hleast : (0 : ℚ) < (2 : ℚ) ^ (-1074 : ℤ) := by positivity
  have hnumerator : 0 < numerator := by
    refine Nat.pos_of_ne_zero fun hzero => ?_
    rw [hzero, Nat.cast_zero, zero_div] at hsmall
    linarith
  obtain ⟨significand, exponent, hrounds, hnearest⟩ :=
    @roundsTo_nearest double (by decide) numerator denominator hnumerator hdenominator
  have hcanonical := kept_double_iff.mp hrounds.kept
  have hamount : amount false significand exponent = significand * (2 : ℚ) ^ exponent := by
    rw [FormatRounding.amount, if_neg (by decide), one_mul]
  have hclosest : DoubleGrid.Nearest ((numerator : ℚ) / denominator)
      (significand * (2 : ℚ) ^ exponent) := by
    rw [← hamount]
    refine ⟨onGrid_double_iff.mp ⟨_, _, _, hrounds.kept.significand_lt, hrounds.kept.least_le, rfl⟩,
      fun other hother => hrounds.le other (onGrid_double_iff.mpr hother)⟩
  have hpos : 0 < significand := by
    refine Nat.pos_of_ne_zero fun hzero => ?_
    have hpoint := hclosest.ge_of_ge (onGrid_two_zpow le_rfl) hsmall
    rw [hzero, Nat.cast_zero, zero_mul] at hpoint
    linarith
  have hle : exponent ≤ 971 := by
    rw [exponent_le_iff hcanonical]
    have hpower : DoubleGrid.OnGrid ((2 : ℚ) ^ 1023) := by
      exact_mod_cast onGrid_two_zpow (show (-1074 : ℤ) ≤ 1023 by decide)
    exact (hclosest.le_of_le hpower hlarge.le).trans_lt
      (pow_lt_pow_right₀ (by norm_num) (by norm_num))
  refine ⟨significand, exponent, hcanonical, hpos, hle, ?_, hclosest⟩
  rw [hnearest]
  exact min_eq_left (magnitude_lt_infinity hcanonical hle).le

theorem nearestDouble_spec {count : ℕ} (hpos : 0 < count) (hlarge : (count : ℚ) < 2 ^ 1023) :
    (nearestDouble count).isFinite = true ∧ 0 < value (nearestDouble count) ∧
      (nearestDouble count).toBits = UInt64.ofNat (double.nearest count 1) ∧
        double.nearest count 1 < double.infinity ∧
          DoubleGrid.Nearest count (value (nearestDouble count)) := by
  have hone : (1 : ℚ) ≤ count := by exact_mod_cast hpos
  have hcast : (count : ℚ) / (1 : ℕ) = count := by simp
  have hleast : (2 : ℚ) ^ (-1074 : ℤ) ≤ 1 := zpow_le_one_of_nonpos₀ (by norm_num) (by norm_num)
  obtain ⟨significand, exponent, hcanonical, hsignificand, hle, hnearest, hclosest⟩ :=
    exists_magnitude Nat.one_pos (hcast.symm ▸ hleast.trans hone) (hcast.symm ▸ hlarge)
  obtain ⟨hfinite, hvalue, hbits⟩ := ofBits_magnitude hcanonical hsignificand hle
  rw [hcast] at hclosest
  rw [nearestDouble, hnearest, hvalue]
  exact ⟨hfinite, by positivity, hbits, magnitude_lt_infinity hcanonical hle, hclosest⟩

theorem powerOfTen_zero : powerOfTen 0 = 1 := by
  decide +kernel

theorem double_mul_one {x : Float} (hfinite : x.isFinite = true) (hne : value x ≠ 0) :
    x * 1 = x := by
  have hgives := gives_mul hfinite value_one.1
  rw [value_one.2, mul_one] at hgives
  obtain ⟨hproduct, hvalue⟩ := hgives.value_eq (representable_value hfinite)
  exact eq_of_value_eq hproduct hfinite hvalue (hvalue.trans_ne hne)

theorem natCast_lt_two_pow {count : ℕ} (hbound : count < UInt64.size) :
    (count : ℚ) < 2 ^ 1023 := by
  calc (count : ℚ) < 2 ^ 64 := by exact_mod_cast hbound
    _ < 2 ^ 1023 := pow_lt_pow_right₀ (by norm_num) (by norm_num)

theorem doubleOfDecimal?_whole {count : ℕ} (hbound : count < UInt64.size) :
    ∃ x, doubleOfDecimal? ⟨count, 0⟩ = some x ∧ x.toBits.toNat = double.nearest count 1 := by
  rcases Nat.eq_zero_or_pos count with rfl | hpos
  · exact ⟨0, by decide +kernel, by decide +kernel⟩
  obtain ⟨hfinite, hvalue, hbits, hnearest, -⟩ :=
    nearestDouble_spec hpos (natCast_lt_two_pow hbound)
  have hproduct : nearestDouble count * powerOfTen 0 = nearestDouble count := by
    rw [powerOfTen_zero, double_mul_one hfinite hvalue.ne']
  have hbounded : (nearestDouble count).isInf = false := by
    by_contra hinfinite
    rw [Bool.not_eq_false] at hinfinite
    rw [isFinite_eq_false_iff.mpr (.inr hinfinite)] at hfinite
    cases hfinite
  refine ⟨nearestDouble count, ?_, ?_⟩
  · show scaleUp (nearestDouble count) 0 = _
    rw [scaleUp, if_pos (by decide)]
    simp only [hproduct, hbounded]
    rfl
  · rw [hbits]
    exact Nat.mod_eq_of_lt (hnearest.trans (by decide))

theorem roundsNearest_whole {count : ℕ} (hbound : count < UInt64.size) :
    RoundsNearest ⟨count, 0⟩ := by
  have hword : nearestWord ⟨count, 0⟩ = double.nearest count 1 := by
    simp [nearestWord]
  obtain ⟨x, hread, hbits⟩ := doubleOfDecimal?_whole hbound
  rw [RoundsNearest, hread, Option.map_some, hword, ← hbits, UInt64.ofNat_toNat]

/-- A decimal that is exactly halfway between two multiples of powers of two is such a multiple
itself, and one that the grid holds if it has few digits. -/
theorem onGrid_of_halfway {digits places : ℕ} (hdigits : digits < 2 ^ 53) (hplaces : places ≤ 1074)
    {left right : ℚ} (hleft : DoubleGrid.OnGrid left) (hright : DoubleGrid.OnGrid right)
    (hhalf : 2 * ((digits : ℚ) / 10 ^ places) = left + right) :
    DoubleGrid.OnGrid ((digits : ℚ) / 10 ^ places) := by
  obtain ⟨mantissa, exponent, -, hexponent, rfl⟩ := hleft
  obtain ⟨mantissa', exponent', -, hexponent', rfl⟩ := hright
  obtain ⟨steps, hsteps⟩ : ∃ steps : ℕ, (-1074 : ℤ) = -steps := ⟨1074, rfl⟩
  rw [hsteps] at hexponent hexponent'
  obtain ⟨first, hfirst⟩ := exists_multiple mantissa hexponent
  obtain ⟨second, hsecond⟩ := exists_multiple mantissa' hexponent'
  have hten : (10 : ℚ) ^ places = 2 ^ places * 5 ^ places := by
    rw [← mul_pow]
    norm_num
  have hwhole : ((digits * 2 ^ (steps + 1) : ℕ) : ℤ) =
      (first + second) * (2 ^ places * 5 ^ places : ℕ) := by
    have hcast : (digits : ℚ) * 2 ^ (steps + 1) = (first + second) * (2 ^ places * 5 ^ places) := by
      rw [hfirst, hsecond, ← add_mul, zpow_neg, zpow_natCast] at hhalf
      rw [← hten]
      field_simp at hhalf
      rw [pow_succ]
      linear_combination hhalf
    exact_mod_cast hcast
  have hfive : 5 ^ places ∣ digits := by
    have hcoprime : Nat.Coprime (5 ^ places) (2 ^ (steps + 1)) :=
      Nat.Coprime.pow places (steps + 1) (by decide)
    refine hcoprime.dvd_of_dvd_mul_right ?_
    have hdvd : ((5 ^ places : ℕ) : ℤ) ∣ ((digits * 2 ^ (steps + 1) : ℕ) : ℤ) := by
      rw [hwhole]
      exact ⟨(first + second) * (2 ^ places : ℕ), by push_cast; ring⟩
    exact_mod_cast hdvd
  obtain ⟨quotient, rfl⟩ := hfive
  refine ⟨quotient, -places, ?_, by omega, ?_⟩
  · have hle : quotient ≤ 5 ^ places * quotient := Nat.le_mul_of_pos_left _ (by positivity)
    rw [Nat.abs_cast]
    exact_mod_cast hle.trans_lt hdigits
  · rw [hten, zpow_neg, zpow_natCast]
    push_cast
    field_simp

/-- Rounding is determined where the exact number cannot lie halfway. -/
theorem nearest_unique {digits places : ℕ} (hdigits : digits < 2 ^ 53) (hplaces : places ≤ 1074)
    {left right : ℚ} (hleft : DoubleGrid.Nearest ((digits : ℚ) / 10 ^ places) left)
    (hright : DoubleGrid.Nearest ((digits : ℚ) / 10 ^ places) right) : left = right := by
  by_contra hne
  have hsame := le_antisymm (hleft.le right hright.onGrid) (hright.le left hleft.onGrid)
  rcases abs_eq_abs.mp hsame with hequal | hopposite
  · exact hne (by linarith)
  · have hexact := onGrid_of_halfway hdigits hplaces hleft.onGrid hright.onGrid (by linarith)
    exact hne ((hleft.eq_of_onGrid hexact).trans (hright.eq_of_onGrid hexact).symm)

theorem value_powerOfTen {places : ℕ} (hplaces : places ≤ 22) :
    (powerOfTen places).isFinite = true ∧ value (powerOfTen places) = 10 ^ places := by
  have hpower : ((10 ^ places : ℕ) : ℚ) < 2 ^ 1023 := by
    have hmost : 10 ^ places ≤ 10 ^ 22 := Nat.pow_le_pow_right (by decide) hplaces
    calc ((10 ^ places : ℕ) : ℚ) ≤ (10 ^ 22 : ℕ) := by exact_mod_cast hmost
      _ < 2 ^ 80 := by norm_num
      _ ≤ 2 ^ 1023 := pow_le_pow_right₀ (by norm_num) (by norm_num)
  obtain ⟨hfinite, -, -, -, hclosest⟩ := nearestDouble_spec (by positivity) hpower
  have hgrid : DoubleGrid.OnGrid ((10 ^ places : ℕ) : ℚ) := by
    refine ⟨5 ^ places, places, ?_, by omega, ?_⟩
    · have hmost : (5 : ℤ) ^ places ≤ 5 ^ 22 := pow_le_pow_right₀ (by decide) hplaces
      rw [abs_of_nonneg (by positivity)]
      exact hmost.trans_lt (by decide)
    · rw [zpow_natCast]
      push_cast
      rw [← mul_pow]
      norm_num
  rw [powerOfTen, hclosest.eq_of_onGrid hgrid]
  exact ⟨hfinite, by push_cast; rfl⟩

/-- The digits and the power of ten that they are divided by are doubles themselves. -/
structure Short (decimal : Decimal) : Prop where
  digits_lt : decimal.digits < 2 ^ 53
  few_places : -22 ≤ decimal.exponent
  fraction : decimal.exponent ≤ 0

section Places

variable {digits places : ℕ} (hplaces : places ≤ 22)

include hplaces

theorem doubleOfDecimal?_places (hsome : 0 < places) (digits : ℕ) :
    doubleOfDecimal? ⟨digits, -places⟩ = some (nearestDouble digits / powerOfTen places) := by
  have hnegative : ¬(0 : ℤ) ≤ -places := by omega
  have hsteps : (places - 1) / largestPower = 0 := by
    unfold largestPower
    exact Nat.div_eq_of_lt (by omega)
  rw [doubleOfDecimal?, if_neg hnegative, neg_neg, Int.toNat_natCast, scaleDown]
  simp only [hsteps, divideDown, Nat.zero_mul, Nat.sub_zero]

variable (hdigits : digits < 2 ^ 53) (hpos : 0 < digits)

include hdigits hpos

/-- The digits and the power of ten are doubles themselves, so that only the division rounds. -/
theorem gives_places :
    Gives ((digits : ℚ) / 10 ^ places) (nearestDouble digits / powerOfTen places) := by
  have hlarge : (digits : ℚ) < 2 ^ 1023 := by
    have hfits : (digits : ℚ) < 2 ^ 53 := by exact_mod_cast hdigits
    exact hfits.trans (pow_lt_pow_right₀ (by norm_num) (by norm_num))
  obtain ⟨hfinite, -, -, -, hclosest⟩ := nearestDouble_spec hpos hlarge
  obtain ⟨hpower, hten⟩ := value_powerOfTen hplaces
  have hgives := gives_div hfinite hpower (by rw [hten]; positivity)
  rwa [hclosest.eq_of_onGrid (onGrid_natCast digits hdigits), hten] at hgives

theorem places_bounds :
    (2 : ℚ) ^ (-1074 : ℤ) ≤ digits / 10 ^ places ∧ (digits : ℚ) / 10 ^ places ≤ 2 ^ 53 := by
  have hone : (1 : ℚ) ≤ digits := by exact_mod_cast hpos
  have hfits : (digits : ℚ) ≤ 2 ^ 53 := by exact_mod_cast hdigits.le
  have hscale : (10 : ℚ) ^ places ≤ 2 ^ 80 :=
    (pow_le_pow_right₀ (by norm_num) hplaces).trans (by norm_num)
  refine ⟨?_, (div_le_self (by positivity) (one_le_pow₀ (by norm_num))).trans hfits⟩
  calc (2 : ℚ) ^ (-1074 : ℤ) ≤ (2 : ℚ) ^ (-80 : ℤ) :=
        zpow_le_zpow_right₀ (by norm_num) (by norm_num)
    _ = 1 / 2 ^ 80 := by rw [zpow_neg, zpow_ofNat, one_div]
    _ ≤ digits / 10 ^ places := div_le_div₀ (by positivity) hone (by positivity) hscale

theorem toBits_places :
    (nearestDouble digits / powerOfTen places).toBits =
      UInt64.ofNat (double.nearest digits (10 ^ places)) := by
  have hgives := gives_places hplaces hdigits hpos
  obtain ⟨hsmall, hlarge⟩ := places_bounds hplaces hdigits hpos
  have hcast : (digits : ℚ) / (10 ^ places : ℕ) = digits / 10 ^ places := by
    push_cast
    rfl
  obtain ⟨significand, exponent, hcanonical, hsignificand, hle, hnearest, hother⟩ :=
    exists_magnitude (by positivity) (hcast.symm ▸ hsmall)
      (hcast.symm ▸ hlarge.trans_lt (pow_lt_pow_right₀ (by norm_num) (by norm_num)))
  obtain ⟨hfinite, hvalue, hbits⟩ := ofBits_magnitude hcanonical hsignificand hle
  have hquotient := (hgives.within representable_zero (representable_two_pow (by norm_num))
    (by positivity) hlarge).isFinite
  have hsame := nearest_unique hdigits (by omega) (hgives.nearest hquotient) (hcast ▸ hother)
  rw [eq_of_value_eq hquotient hfinite (hsame.trans hvalue.symm) (hsame.trans_ne (by positivity)),
    hbits, hnearest]

end Places

theorem Short.roundsNearest {decimal : Decimal} (hshort : Short decimal) :
    RoundsNearest decimal := by
  obtain ⟨digits, exponent⟩ := decimal
  obtain ⟨hdigits, hplaces, hfraction⟩ := hshort
  obtain ⟨places, hplace⟩ := Int.eq_ofNat_of_zero_le (neg_nonneg.mpr hfraction)
  obtain rfl : exponent = -(places : ℤ) := by simp only at hplace; omega
  replace hplaces : places ≤ 22 := by simp only at hplaces; omega
  rcases Nat.eq_zero_or_pos places with rfl | hsome
  · exact roundsNearest_whole (hdigits.trans (by decide))
  rcases Nat.eq_zero_or_pos digits with rfl | hpos
  · interval_cases places <;> decide +kernel
  have hword : nearestWord ⟨digits, -places⟩ = double.nearest digits (10 ^ places) := by
    simp [nearestWord]
  rw [RoundsNearest, doubleOfDecimal?_places hplaces hsome, Option.map_some,
    toBits_places hplaces hdigits hpos, hword]

-- Sixteen digits may be too many: the decimal is read as 1.
example : ¬RoundsNearest ⟨9999999999999999, -16⟩ := by
  decide +kernel

end Apportion.Proofs.Number.ReadDecimals
