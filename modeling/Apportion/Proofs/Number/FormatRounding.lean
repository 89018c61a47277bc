import Mathlib
import Apportion.Number.Binary
import Apportion.Proofs.Number.DoubleGrid
import Apportion.Proofs.Number.WholeRounding

namespace Apportion.Proofs.Number.FormatRounding

open Apportion.Number.Binary
open Apportion.Proofs.Number.DoubleGrid (exists_multiple)
open Apportion.Proofs.Number.WholeRounding

theorem zpow_eq_quotient (base : ℕ) (power : ℤ) :
    (base : ℚ) ^ power = (base ^ power.toNat : ℕ) / (base ^ (-power).toNat : ℕ) := by
  rcases le_total 0 power with hnonneg | hnonpos
  · obtain ⟨count, rfl⟩ := Int.eq_ofNat_of_zero_le hnonneg
    have hzero : (-(count : ℤ)).toNat = 0 := by omega
    rw [hzero, Int.toNat_natCast, zpow_natCast]
    simp
  · obtain ⟨count, hcount⟩ := Int.eq_ofNat_of_zero_le (neg_nonneg.mpr hnonpos)
    obtain rfl : power = -(count : ℤ) := by omega
    have hzero : (-(count : ℤ)).toNat = 0 := by omega
    rw [hzero, neg_neg, Int.toNat_natCast, zpow_neg, zpow_natCast]
    simp

theorem mul_zpow_eq_quotient (count base : ℕ) (power : ℤ) :
    (count : ℚ) * (base : ℚ) ^ power =
      ((count * base ^ power.toNat : ℕ) : ℚ) / (base ^ (-power).toNat : ℕ) := by
  rw [zpow_eq_quotient]
  push_cast
  rw [mul_div_assoc]

theorem quotient_lt_zpow_iff {base : ℕ} (hbase : 0 < base) (numerator : ℕ) {denominator : ℕ}
    (hdenominator : 0 < denominator) (power : ℤ) :
    numerator * base ^ (-power).toNat < denominator * base ^ power.toNat ↔
      (numerator : ℚ) / denominator < (base : ℚ) ^ power := by
  have hdivisor : (0 : ℚ) < denominator := by exact_mod_cast hdenominator
  have hscale : (0 : ℚ) < (base ^ (-power).toNat : ℕ) := by positivity
  rw [zpow_eq_quotient, div_lt_div_iff₀ hdivisor hscale, mul_comm denominator]
  exact_mod_cast Iff.rfl

/-- The quotient of the leading powers is off by less than one power either way. -/
theorem quotient_bounds {base numerator denominator : ℚ} (hbase : 0 < base) {first second : ℤ}
    (hnumerator : base ^ first ≤ numerator ∧ numerator < base ^ (first + 1))
    (hdenominator : base ^ second ≤ denominator ∧ denominator < base ^ (second + 1)) :
    base ^ (first - second - 1) ≤ numerator / denominator ∧
      numerator / denominator < base ^ (first - second + 1) := by
  have hpower : ∀ power : ℤ, 0 < base ^ power := zpow_pos hbase
  have hdivisor : 0 < denominator := (hpower second).trans_le hdenominator.1
  rw [le_div_iff₀ hdivisor, div_lt_iff₀ hdivisor]
  constructor
  · calc base ^ (first - second - 1) * denominator
        ≤ base ^ (first - second - 1) * base ^ (second + 1) :=
          mul_le_mul_of_nonneg_left hdenominator.2.le (hpower _).le
      _ = base ^ first := by
          rw [← zpow_add₀ hbase.ne']
          congr 1
          omega
      _ ≤ numerator := hnumerator.1
  · calc numerator < base ^ (first + 1) := hnumerator.2
      _ = base ^ (first - second + 1) * base ^ second := by
          rw [← zpow_add₀ hbase.ne']
          congr 1
          omega
      _ ≤ base ^ (first - second + 1) * denominator :=
          mul_le_mul_of_nonneg_left hdenominator.1 (hpower _).le

theorem log2_bounds {count : ℕ} (hpos : 0 < count) :
    (2 : ℚ) ^ (count.log2 : ℤ) ≤ count ∧ (count : ℚ) < (2 : ℚ) ^ ((count.log2 : ℤ) + 1) := by
  constructor
  · rw [zpow_natCast]
    exact_mod_cast Nat.log2_self_le hpos.ne'
  · have hlt : count < 2 ^ (count.log2 + 1) := Nat.lt_log2_self
    exact_mod_cast hlt

theorem floorLogQuotient_eq_log {numerator denominator : ℕ} (hnumerator : 0 < numerator)
    (hdenominator : 0 < denominator) :
    floorLogQuotient numerator denominator = Int.log 2 ((numerator : ℚ) / denominator) := by
  have hpos : (0 : ℚ) < (numerator : ℚ) / denominator := by positivity
  obtain ⟨hlow, hhigh⟩ := quotient_bounds (by norm_num) (log2_bounds hnumerator)
    (log2_bounds hdenominator)
  set estimate : ℤ := numerator.log2 - denominator.log2 with hestimate
  have htest : denominator * 2 ^ estimate.toNat ≤ numerator * 2 ^ (-estimate).toNat ↔
      estimate ≤ Int.log 2 ((numerator : ℚ) / denominator) := by
    rw [← not_lt, quotient_lt_zpow_iff (by decide) numerator hdenominator, not_lt]
    exact Int.zpow_le_iff_le_log (by decide) hpos
  have hupper : Int.log 2 ((numerator : ℚ) / denominator) < estimate + 1 :=
    (Int.lt_zpow_iff_log_lt (by decide) hpos).mp (by exact_mod_cast hhigh)
  have hlower : estimate - 1 ≤ Int.log 2 ((numerator : ℚ) / denominator) :=
    (Int.zpow_le_iff_le_log (by decide) hpos).mp (by exact_mod_cast hlow)
  show (if denominator * 2 ^ estimate.toNat ≤ numerator * 2 ^ (-estimate).toNat then estimate
    else estimate - 1) = _
  split
  · rename_i hle
    have := htest.mp hle
    omega
  · rename_i hgt
    have := mt htest.mpr hgt
    omega

theorem log_lt_iff {exact : ℚ} (hexact : 0 < exact) (exponent : ℤ) (power : ℕ) :
    Int.log 2 exact < exponent + power ↔ exact / (2 : ℚ) ^ exponent < (2 : ℚ) ^ power := by
  have hunit : (0 : ℚ) < (2 : ℚ) ^ exponent := by positivity
  rw [← Int.lt_zpow_iff_log_lt (by decide) hexact, div_lt_iff₀ hunit, ← zpow_natCast,
    ← zpow_add₀ (by norm_num), add_comm]
  norm_cast

variable {format : BinaryFormat}

/-- The significand is full unless the exponent is the least one. -/
structure Kept (format : BinaryFormat) (significand : ℕ) (exponent : ℤ) : Prop where
  significand_lt : significand < 2 ^ (format.fractionBits + 1)
  least_le : format.leastExponent ≤ exponent
  full : 2 ^ format.fractionBits ≤ significand ∨ exponent = format.leastExponent

/-- The word of a positive number that is kept as the format keeps it. -/
def magnitude (format : BinaryFormat) (significand : ℕ) (exponent : ℤ) : ℕ :=
  significand + (exponent - format.leastExponent).toNat * 2 ^ format.fractionBits

theorem infinity_lt_signWeight (format : BinaryFormat) : format.infinity < format.signWeight := by
  have hscale : 0 < 2 ^ format.fractionBits := by positivity
  have hpower : 0 < 2 ^ format.exponentBits := by positivity
  rw [BinaryFormat.infinity, BinaryFormat.signWeight, Nat.pow_add]
  exact Nat.mul_lt_mul_of_pos_right (Nat.sub_lt hpower (by decide)) hscale

theorem decode_signed (negative : Bool) {size : ℕ} (hsize : size < format.signWeight) :
    format.decode (format.signed negative size) =
      if size / 2 ^ format.fractionBits = 2 ^ format.exponentBits - 1 then
        if size % 2 ^ format.fractionBits = 0 then .infinite negative
        else .undefined negative (size % 2 ^ format.fractionBits)
      else if size / 2 ^ format.fractionBits = 0 then
        .finite negative (size % 2 ^ format.fractionBits) format.leastExponent
      else
        .finite negative (2 ^ format.fractionBits + size % 2 ^ format.fractionBits)
          (format.leastExponent + ((size / 2 ^ format.fractionBits : ℕ) - 1)) := by
  have hscale : 0 < 2 ^ format.fractionBits := by positivity
  have hweight : format.signWeight = 2 ^ format.exponentBits * 2 ^ format.fractionBits :=
    Nat.pow_add 2 format.exponentBits format.fractionBits
  have hbiased : size / 2 ^ format.fractionBits < 2 ^ format.exponentBits := by
    rw [Nat.div_lt_iff_lt_mul hscale, ← hweight]
    exact hsize
  have hsign : decide (format.signed negative size / format.signWeight % 2 = 1) = negative := by
    cases negative with
    | true =>
        have hone : (format.signWeight + size) / format.signWeight = 1 := by
          rw [Nat.add_div_left _ (by omega), Nat.div_eq_of_lt hsize]
        rw [BinaryFormat.signed, if_pos rfl, hone]
        rfl
    | false =>
        rw [BinaryFormat.signed, if_neg (by decide), Nat.div_eq_of_lt hsize]
        rfl
  have hexponent : format.signed negative size / 2 ^ format.fractionBits % 2 ^ format.exponentBits =
      size / 2 ^ format.fractionBits := by
    cases negative with
    | true =>
        rw [BinaryFormat.signed, if_pos rfl, hweight, Nat.mul_comm, Nat.mul_add_div hscale,
          Nat.add_mod_left, Nat.mod_eq_of_lt hbiased]
    | false => rw [BinaryFormat.signed, if_neg (by decide), Nat.mod_eq_of_lt hbiased]
  have hfraction : format.signed negative size % 2 ^ format.fractionBits =
      size % 2 ^ format.fractionBits := by
    cases negative with
    | true => rw [BinaryFormat.signed, if_pos rfl, hweight, Nat.mul_add_mod_self_right]
    | false => rw [BinaryFormat.signed, if_neg (by decide)]
  rw [BinaryFormat.decode]
  simp only [hsign, hexponent, hfraction]

theorem decode_infinity (negative : Bool) :
    format.decode (format.signed negative format.infinity) = .infinite negative := by
  have hscale : 0 < 2 ^ format.fractionBits := by positivity
  have hbiased : format.infinity / 2 ^ format.fractionBits = 2 ^ format.exponentBits - 1 :=
    Nat.mul_div_cancel _ hscale
  have hfraction : format.infinity % 2 ^ format.fractionBits = 0 := Nat.mul_mod_left _ _
  rw [decode_signed negative (infinity_lt_signWeight format), if_pos hbiased, if_pos hfraction]

theorem decode_magnitude (negative : Bool) {significand : ℕ} {exponent : ℤ}
    (hkept : Kept format significand exponent)
    (hlt : magnitude format significand exponent < format.infinity) :
    format.decode (format.signed negative (magnitude format significand exponent)) =
      .finite negative significand exponent := by
  have hscale : 0 < 2 ^ format.fractionBits := by positivity
  obtain ⟨steps, hsteps⟩ := Int.eq_ofNat_of_zero_le (sub_nonneg.mpr hkept.least_le)
  have hexponent : exponent = format.leastExponent + steps := by omega
  have hbiased : magnitude format significand exponent / 2 ^ format.fractionBits ≠
      2 ^ format.exponentBits - 1 := by
    have := (Nat.div_lt_iff_lt_mul hscale).mpr hlt
    omega
  have hsize : magnitude format significand exponent =
      significand + steps * 2 ^ format.fractionBits := by
    rw [magnitude, hsteps, Int.toNat_natCast]
  rw [decode_signed negative (hlt.trans (infinity_lt_signWeight format)), if_neg hbiased, hsize,
    Nat.add_mul_div_right _ _ hscale, Nat.add_mul_mod_self_right]
  have hupper := hkept.significand_lt
  rw [Nat.pow_succ] at hupper
  rcases Nat.lt_or_ge significand (2 ^ format.fractionBits) with hsmall | hfull
  · obtain rfl : steps = 0 := by
      have := hkept.full.resolve_left (by omega)
      omega
    rw [Nat.div_eq_of_lt hsmall, Nat.mod_eq_of_lt hsmall, if_pos rfl, hexponent, Nat.cast_zero,
      add_zero]
  · obtain ⟨rest, rfl⟩ := Nat.exists_eq_add_of_le hfull
    have hrest : rest < 2 ^ format.fractionBits := by omega
    rw [Nat.add_div_left _ hscale, Nat.div_eq_of_lt hrest, Nat.add_mod_left,
      Nat.mod_eq_of_lt hrest, if_neg (by omega), hexponent]
    congr 2
    push_cast
    ring

/-- The number `± significand * 2 ^ exponent`. -/
def amount (negative : Bool) (significand : ℕ) (exponent : ℤ) : ℚ :=
  (if negative then -1 else 1) * (significand * (2 : ℚ) ^ exponent)

/-- The format would hold the number if its exponent could grow without bound. -/
def OnGrid (format : BinaryFormat) (point : ℚ) : Prop :=
  ∃ negative significand exponent, significand < 2 ^ (format.fractionBits + 1) ∧
    format.leastExponent ≤ exponent ∧ point = amount negative significand exponent

/-- No number of the grid is nearer to the fraction, and none is as near unless the significand is
even. -/
structure RoundsTo (format : BinaryFormat) (exact : ℚ) (negative : Bool) (significand : ℕ)
    (exponent : ℤ) : Prop where
  kept : Kept format significand exponent
  le : ∀ other, OnGrid format other →
    |exact - amount negative significand exponent| ≤ |exact - other|
  even : ∀ other, OnGrid format other → other ≠ amount negative significand exponent →
    |exact - amount negative significand exponent| = |exact - other| → Even significand

def lastPlace (format : BinaryFormat) (exact : ℚ) : ℤ :=
  max (Int.log 2 exact - format.fractionBits) format.leastExponent

theorem nearest_eq_of_nearestEven {numerator denominator rounded : ℕ} (hnumerator : 0 < numerator)
    (hdenominator : 0 < denominator)
    (hrounded : NearestEven
      ((numerator : ℚ) / denominator / (2 : ℚ) ^ lastPlace format ((numerator : ℚ) / denominator))
      rounded) :
    format.nearest numerator denominator =
      min (magnitude format rounded (lastPlace format ((numerator : ℚ) / denominator)))
        format.infinity := by
  have hplace : max (floorLogQuotient numerator denominator - format.fractionBits)
      format.leastExponent = lastPlace format ((numerator : ℚ) / denominator) := by
    rw [floorLogQuotient_eq_log hnumerator hdenominator]
    rfl
  generalize lastPlace format ((numerator : ℚ) / denominator) = place at *
  have hquotient : nearestQuotient (numerator * 2 ^ (-place).toNat)
      (denominator * 2 ^ place.toNat) = rounded := by
    have hscale : 0 < denominator * 2 ^ place.toNat := by positivity
    refine (nearestEven_nearestQuotient (numerator * 2 ^ (-place).toNat) hscale).unique ?_
    have hsame : ((numerator * 2 ^ (-place).toNat : ℕ) : ℚ) / (denominator * 2 ^ place.toNat : ℕ) =
        (numerator : ℚ) / denominator / (2 : ℚ) ^ place := by
      have hpower := zpow_eq_quotient 2 place
      push_cast at hpower ⊢
      rw [hpower, div_div_eq_mul_div, div_mul_eq_mul_div, div_div]
    rw [hsame]
    exact hrounded
  rw [BinaryFormat.nearest, if_neg hnumerator.ne']
  simp only [hplace]
  rw [hquotient]
  rfl

theorem amount_eq_mul (negative : Bool) (significand : ℕ) (exponent : ℤ) :
    amount negative significand exponent =
      ((if negative then -(significand : ℤ) else significand : ℤ) : ℚ) * (2 : ℚ) ^ exponent := by
  cases negative <;> simp [amount]

theorem amount_le (negative : Bool) (significand : ℕ) (exponent : ℤ) :
    amount negative significand exponent ≤ significand * (2 : ℚ) ^ exponent := by
  have hsize : (0 : ℚ) ≤ significand * (2 : ℚ) ^ exponent := by positivity
  cases negative with
  | true =>
      simp only [amount, if_true]
      linarith
  | false => simp [amount]

theorem mul_zpow_lt_of_lt {significand bits : ℕ} (hsignificand : significand < 2 ^ (bits + 1))
    {exponent place : ℤ} (hlt : exponent < place) :
    (significand : ℚ) * (2 : ℚ) ^ exponent < 2 ^ bits * (2 : ℚ) ^ place := by
  have hbound : (significand : ℚ) < 2 ^ (bits + 1) := by exact_mod_cast hsignificand
  calc (significand : ℚ) * (2 : ℚ) ^ exponent
      ≤ significand * (2 : ℚ) ^ (place - 1) :=
        mul_le_mul_of_nonneg_left (zpow_le_zpow_right₀ (by norm_num) (by omega)) (by positivity)
    _ < 2 ^ (bits + 1) * (2 : ℚ) ^ (place - 1) :=
        mul_lt_mul_of_pos_right hbound (by positivity)
    _ = 2 ^ bits * (2 : ℚ) ^ place := by
        rw [zpow_sub_one₀ (by norm_num), pow_succ]
        ring

section Multiples

variable {exact : ℚ} {place : ℤ} {rounded : ℕ}

theorem abs_sub_mul_zpow (exact multiple : ℚ) (place : ℤ) :
    |exact - multiple * (2 : ℚ) ^ place| =
      |exact / (2 : ℚ) ^ place - multiple| * (2 : ℚ) ^ place := by
  have hunit : (0 : ℚ) < (2 : ℚ) ^ place := by positivity
  rw [← abs_of_pos hunit, ← abs_mul, abs_of_pos hunit, sub_mul, div_mul_cancel₀ _ hunit.ne']

theorem le_of_multiple (hrounded : NearestEven (exact / (2 : ℚ) ^ place) rounded) {multiple : ℤ}
    (hne : multiple ≠ rounded) :
    |exact - rounded * (2 : ℚ) ^ place| ≤ |exact - multiple * (2 : ℚ) ^ place| ∧
      (|exact - rounded * (2 : ℚ) ^ place| = |exact - multiple * (2 : ℚ) ^ place| →
        Even rounded) := by
  have hunit : (0 : ℚ) < (2 : ℚ) ^ place := by positivity
  obtain ⟨hle, heven⟩ := hrounded.le_of_int hne
  rw [abs_sub_mul_zpow, abs_sub_mul_zpow]
  refine ⟨mul_le_mul_of_nonneg_right hle hunit.le, fun hequal => heven ?_⟩
  exact mul_right_cancel₀ hunit.ne' hequal

/-- What is finer than the last place lies below the least full significand, which is a multiple of
the last place itself. -/
theorem lt_of_finer {bits : ℕ} (hfull : 2 ^ bits ≤ exact / (2 : ℚ) ^ place)
    (hrounded : NearestEven (exact / (2 : ℚ) ^ place) rounded) {significand : ℕ}
    (hsignificand : significand < 2 ^ (bits + 1)) {exponent : ℤ} (hfiner : exponent < place)
    (negative : Bool) :
    |exact - rounded * (2 : ℚ) ^ place| < |exact - amount negative significand exponent| := by
  have hunit : (0 : ℚ) < (2 : ℚ) ^ place := by positivity
  have hbelow := mul_zpow_lt_of_lt hsignificand hfiner
  have hpoint := amount_le negative significand exponent
  have habove : 2 ^ bits * (2 : ℚ) ^ place ≤ exact := (le_div_iff₀ hunit).mp hfull
  have hnear : |exact - rounded * (2 : ℚ) ^ place| ≤ |exact - 2 ^ bits * (2 : ℚ) ^ place| := by
    by_cases hsame : rounded = 2 ^ bits
    · rw [hsame]
      push_cast
      exact le_rfl
    · have hdifferent : (2 ^ bits : ℤ) ≠ rounded := by exact_mod_cast Ne.symm hsame
      exact_mod_cast (le_of_multiple hrounded hdifferent).1
  calc |exact - rounded * (2 : ℚ) ^ place| ≤ exact - 2 ^ bits * (2 : ℚ) ^ place := by
        rwa [abs_of_nonneg (sub_nonneg.mpr habove)] at hnear
    _ < exact - amount negative significand exponent := by linarith
    _ ≤ |exact - amount negative significand exponent| := le_abs_self _

end Multiples

/-- The nearest multiple of the last place is nearest on the whole grid. -/
theorem le_of_onGrid {exact : ℚ} (hexact : 0 < exact) {rounded : ℕ}
    (hrounded : NearestEven (exact / (2 : ℚ) ^ lastPlace format exact) rounded) {other : ℚ}
    (hother : OnGrid format other)
    (hne : other ≠ rounded * (2 : ℚ) ^ lastPlace format exact) :
    |exact - rounded * (2 : ℚ) ^ lastPlace format exact| ≤ |exact - other| ∧
      (|exact - rounded * (2 : ℚ) ^ lastPlace format exact| = |exact - other| → Even rounded) := by
  have hplace : lastPlace format exact = max (Int.log 2 exact - format.fractionBits)
    format.leastExponent := rfl
  generalize lastPlace format exact = place at *
  obtain ⟨negative, significand, exponent, hsignificand, hexponent, rfl⟩ := hother
  rcases le_or_gt place exponent with hcoarse | hfiner
  · obtain ⟨multiple, hmultiple⟩ := exists_multiple
      (if negative then -(significand : ℤ) else significand) hcoarse
    rw [amount_eq_mul, hmultiple] at hne ⊢
    refine le_of_multiple hrounded ?_
    rintro rfl
    exact hne (by norm_cast)
  · have hfull : (2 : ℚ) ^ format.fractionBits ≤ exact / (2 : ℚ) ^ place := by
      have hlog : place + format.fractionBits ≤ Int.log 2 exact := by omega
      exact not_lt.mp (mt (log_lt_iff hexact place format.fractionBits).mpr (not_lt.mpr hlog))
    have hfar := lt_of_finer hfull hrounded hsignificand hfiner negative
    exact ⟨hfar.le, fun hequal => absurd hequal hfar.ne⟩

/-- Rounding up to a full significand of the next size carries into the exponent. -/
theorem exists_kept {exact : ℚ} (hexact : 0 < exact) {rounded : ℕ}
    (hrounded : NearestEven (exact / (2 : ℚ) ^ lastPlace format exact) rounded) :
    ∃ significand exponent, Kept format significand exponent ∧
      magnitude format significand exponent = magnitude format rounded (lastPlace format exact) ∧
        (significand : ℚ) * (2 : ℚ) ^ exponent =
          rounded * (2 : ℚ) ^ lastPlace format exact ∧
        (0 < format.fractionBits → Even rounded → Even significand) := by
  have hplace : lastPlace format exact = max (Int.log 2 exact - format.fractionBits)
    format.leastExponent := rfl
  generalize lastPlace format exact = place at *
  have hleast : format.leastExponent ≤ place := by omega
  have hbelow : exact / (2 : ℚ) ^ place < ((2 ^ (format.fractionBits + 1) : ℕ) : ℚ) := by
    push_cast
    exact (log_lt_iff hexact place (format.fractionBits + 1)).mp (by push_cast; omega)
  have hmost := hrounded.mono (.natCast _) hbelow.le
  rcases hmost.lt_or_eq with hlt | rfl
  · refine ⟨rounded, place, ⟨hlt, hleast, ?_⟩, rfl, rfl, fun _ heven => heven⟩
    rcases eq_or_ne place format.leastExponent with hequal | hgreater
    · exact .inr hequal
    · have hfull : ((2 ^ format.fractionBits : ℕ) : ℚ) ≤ exact / (2 : ℚ) ^ place := by
        have hlog : place + format.fractionBits ≤ Int.log 2 exact := by omega
        push_cast
        exact not_lt.mp (mt (log_lt_iff hexact place format.fractionBits).mpr (not_lt.mpr hlog))
      exact .inl ((NearestEven.natCast _).mono hrounded hfull)
  · refine ⟨2 ^ format.fractionBits, place + 1, ⟨?_, by omega, .inl le_rfl⟩, ?_, ?_, ?_⟩
    · exact Nat.pow_lt_pow_right (by decide) (by omega)
    · obtain ⟨steps, hsteps⟩ := Int.eq_ofNat_of_zero_le (sub_nonneg.mpr hleast)
      rw [magnitude, magnitude, hsteps, show place + 1 - format.leastExponent = (steps + 1 : ℕ) by
        push_cast; omega, Int.toNat_natCast, Int.toNat_natCast, Nat.pow_succ]
      ring
    · rw [zpow_add_one₀ (by norm_num)]
      push_cast
      ring
    · intro hbits _
      exact (Nat.even_pow.mpr ⟨even_two, hbits.ne'⟩)

theorem roundsTo_nearest (hbits : 0 < format.fractionBits) {numerator denominator : ℕ}
    (hnumerator : 0 < numerator) (hdenominator : 0 < denominator) :
    ∃ significand exponent,
      RoundsTo format ((numerator : ℚ) / denominator) false significand exponent ∧
        format.nearest numerator denominator =
          min (magnitude format significand exponent) format.infinity := by
  have hexact : (0 : ℚ) < (numerator : ℚ) / denominator := by positivity
  obtain ⟨rounded, hrounded⟩ : ∃ rounded, NearestEven ((numerator : ℚ) / denominator /
      (2 : ℚ) ^ lastPlace format ((numerator : ℚ) / denominator)) rounded :=
    ⟨_, nearestEven_roundHalfEven (by positivity)⟩
  obtain ⟨significand, exponent, hkept, hsize, hpoint, heven⟩ := exists_kept hexact hrounded
  have hamount : amount false significand exponent = rounded *
      (2 : ℚ) ^ lastPlace format ((numerator : ℚ) / denominator) := by
    rw [← hpoint, amount, if_neg (by decide), one_mul]
  refine ⟨significand, exponent, ⟨hkept, fun other hother => ?_, fun other hother hne hequal => ?_⟩,
    by rw [nearest_eq_of_nearestEven hnumerator hdenominator hrounded, hsize]⟩
  · by_cases hsame : other = amount false significand exponent
    · rw [hsame]
    · rw [hamount] at hsame ⊢
      exact (le_of_onGrid hexact hrounded hother hsame).1
  · rw [hamount] at hne hequal
    exact heven hbits ((le_of_onGrid hexact hrounded hother hne).2 hequal)

end Apportion.Proofs.Number.FormatRounding
