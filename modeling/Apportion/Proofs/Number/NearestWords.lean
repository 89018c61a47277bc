import Mathlib
import Apportion.Number.Shortest
import Apportion.Proofs.Number.DoubleWords
import Apportion.Proofs.Number.FormatRounding

namespace Apportion.Proofs.Number.NearestWords

open Apportion.Number.Binary
open Apportion.Number.Shortest
open Apportion.Proofs.Number.DoubleRounding
open Apportion.Proofs.Number.DoubleWords
open Apportion.Proofs.Number.FormatRounding
open Apportion.Proofs.Number.WholeRounding

theorem kept_double_iff {significand : ℕ} {exponent : ℤ} :
    Kept double significand exponent ↔ Canonical significand exponent :=
  ⟨fun ⟨hlt, hleast, hfull⟩ => ⟨hlt, hleast, hfull⟩,
    fun ⟨hlt, hleast, hfull⟩ => ⟨hlt, hleast, hfull⟩⟩

theorem lastPlace_double (exact : ℚ) :
    lastPlace double exact = max (Int.log 2 exact - 52) (-1074) := rfl

theorem magnitude_double (significand : ℕ) (exponent : ℤ) :
    magnitude double significand exponent = significand + (exponent + 1074).toNat * 2 ^ 52 :=
  congrArg (fun steps : ℤ => significand + steps.toNat * 2 ^ 52) (sub_neg_eq_add exponent 1074)

/-- The fraction lies in the interval, of which the ends are a part if it is closed. -/
structure Within (range : Interval) (exact : ℚ) : Prop where
  low_le : range.low * (2 : ℚ) ^ range.exponent ≤ exact
  le_high : exact ≤ range.high * (2 : ℚ) ^ range.exponent
  strict : range.closed = false →
    range.low * (2 : ℚ) ^ range.exponent < exact ∧ exact < range.high * (2 : ℚ) ^ range.exponent

/-- How far the interval around a double reaches down, in units of the last place. -/
def reach (significand : ℕ) (exponent : ℤ) : ℚ :=
  if significand = 2 ^ 52 ∧ -1074 < exponent then 1 / 4 else 1 / 2

variable {significand : ℕ} {exponent : ℤ} {exact : ℚ}

theorem reach_le (significand : ℕ) (exponent : ℤ) : reach significand exponent ≤ 1 / 2 := by
  unfold reach
  split <;> norm_num

theorem low_interval (hpos : 0 < significand) (exponent : ℤ) :
    ((interval double significand exponent).low : ℚ) =
      4 * (significand - reach significand exponent) := by
  show ((4 * significand - if significand = 2 ^ 52 ∧ -1074 < exponent then 1 else 2 : ℕ) : ℚ) = _
  unfold reach
  split
  · rw [Nat.cast_sub (by omega)]
    push_cast
    ring
  · rw [Nat.cast_sub (by omega)]
    push_cast
    ring

theorem quarter_interval (significand : ℕ) (exponent : ℤ) :
    (2 : ℚ) ^ (interval double significand exponent).exponent = (2 : ℚ) ^ exponent / 4 := by
  show (2 : ℚ) ^ (exponent - 2) = _
  rw [zpow_sub₀ (by norm_num)]
  norm_num

theorem low_amount (hpos : 0 < significand) (exponent : ℤ) :
    (interval double significand exponent).low *
      (2 : ℚ) ^ (interval double significand exponent).exponent =
        (significand - reach significand exponent) * (2 : ℚ) ^ exponent := by
  rw [low_interval hpos, quarter_interval]
  ring

theorem high_amount (significand : ℕ) (exponent : ℤ) :
    (interval double significand exponent).high *
      (2 : ℚ) ^ (interval double significand exponent).exponent =
        (significand + 1 / 2) * (2 : ℚ) ^ exponent := by
  have hcast : ((interval double significand exponent).high : ℚ) = 4 * significand + 2 := by
    show ((4 * significand + 2 : ℕ) : ℚ) = _
    push_cast
    ring
  rw [hcast, quarter_interval]
  ring

theorem value_amount (significand : ℕ) (exponent : ℤ) :
    (interval double significand exponent).value *
      (2 : ℚ) ^ (interval double significand exponent).exponent =
        significand * (2 : ℚ) ^ exponent := by
  have hcast : ((interval double significand exponent).value : ℚ) = 4 * significand := by
    show ((4 * significand : ℕ) : ℚ) = _
    push_cast
    rfl
  rw [hcast, quarter_interval]
  ring

theorem Within.scaled (hpos : 0 < significand)
    (hwithin : Within (interval double significand exponent) exact) :
    significand - reach significand exponent ≤ exact / (2 : ℚ) ^ exponent ∧
      exact / (2 : ℚ) ^ exponent ≤ significand + 1 / 2 ∧
        (¬Even significand → significand - reach significand exponent < exact / (2 : ℚ) ^ exponent ∧
          exact / (2 : ℚ) ^ exponent < significand + 1 / 2) := by
  have hunit : (0 : ℚ) < (2 : ℚ) ^ exponent := by positivity
  obtain ⟨hlower, hupper, hstrict⟩ := hwithin
  rw [low_amount hpos, high_amount] at hstrict
  rw [low_amount hpos] at hlower
  rw [high_amount] at hupper
  refine ⟨(le_div_iff₀ hunit).mpr hlower, (div_le_iff₀ hunit).mpr hupper, fun hodd => ?_⟩
  have hopen : (interval double significand exponent).closed = false :=
    decide_eq_false (mt Nat.even_iff.mpr hodd)
  exact ⟨(lt_div_iff₀ hunit).mpr (hstrict hopen).1, (div_lt_iff₀ hunit).mpr (hstrict hopen).2⟩

theorem within_of_lt (hpos : 0 < significand)
    (hlower : (significand - reach significand exponent) * (2 : ℚ) ^ exponent < exact)
    (hupper : exact < (significand + 1 / 2) * (2 : ℚ) ^ exponent) :
    Within (interval double significand exponent) exact := by
  rw [← low_amount hpos] at hlower
  rw [← high_amount] at hupper
  exact ⟨hlower.le, hupper.le, fun _ => ⟨hlower, hupper⟩⟩

theorem Within.pos (hpos : 0 < significand)
    (hwithin : Within (interval double significand exponent) exact) : 0 < exact := by
  have hunit : (0 : ℚ) < (2 : ℚ) ^ exponent := by positivity
  have hreach := reach_le significand exponent
  have hone : (1 : ℚ) ≤ significand := by exact_mod_cast hpos
  obtain ⟨hlower, -, -⟩ := hwithin.scaled hpos
  exact (div_pos_iff_of_pos_right hunit).mp (by linarith)

theorem Within.nearestEven (hpos : 0 < significand)
    (hwithin : Within (interval double significand exponent) exact) :
    NearestEven (exact / (2 : ℚ) ^ exponent) significand := by
  obtain ⟨hlower, hupper, hstrict⟩ := hwithin.scaled hpos
  have hreach := reach_le significand exponent
  refine ⟨abs_le.mpr ⟨by linarith, by linarith⟩, fun hhalf => ?_⟩
  by_contra hodd
  obtain ⟨hlower, hupper⟩ := hstrict hodd
  have hinside : |exact / (2 : ℚ) ^ exponent - significand| < 1 / 2 :=
    abs_lt.mpr ⟨by linarith, by linarith⟩
  exact hinside.ne hhalf

theorem Within.lastPlace_cases (hcanonical : Canonical significand exponent)
    (hpos : 0 < significand) (hwithin : Within (interval double significand exponent) exact) :
    lastPlace double exact = exponent ∨
      significand = 2 ^ 52 ∧ lastPlace double exact = exponent - 1 ∧ -1074 < exponent ∧
        exact / (2 : ℚ) ^ exponent < 2 ^ 52 := by
  obtain ⟨hlower, hupper, -⟩ := hwithin.scaled hpos
  have hreach := reach_le significand exponent
  have hexact := hwithin.pos hpos
  have hlarge : (significand : ℚ) + 1 / 2 < 2 ^ 53 := by
    have hlt : (significand : ℚ) + 1 ≤ 2 ^ 53 := by exact_mod_cast hcanonical.mantissa_lt
    linarith
  have hbelow : Int.log 2 exact < exponent + 53 :=
    (log_lt_iff hexact exponent 53).mpr (hupper.trans_lt hlarge)
  have hleast := hcanonical.least_le
  -- At the least exponent the last place cannot move; above it the significand is full, and only
  -- what lies below a full significand has its last place one further down.
  rcases hleast.eq_or_lt with rfl | hgreater
  · left
    rw [lastPlace_double]
    omega
  have hfull : 2 ^ 52 ≤ significand := hcanonical.full.resolve_right (by omega)
  rcases lt_or_ge (exact / (2 : ℚ) ^ exponent) (2 ^ 52) with hsmall | hbig
  · right
    have hpower : significand = 2 ^ 52 := by
      by_contra hne
      have hnext : (2 : ℚ) ^ 52 + 1 ≤ significand := by
        exact_mod_cast Nat.lt_of_le_of_ne hfull (Ne.symm hne)
      linarith
    have habove : ¬exact / (2 : ℚ) ^ exponent < 2 ^ 51 := by
      rw [hpower] at hlower hreach
      push_cast at hlower
      rw [not_lt]
      linarith
    have hlog := mt (log_lt_iff hexact exponent 51).mp habove
    have hlog' := (log_lt_iff hexact exponent 52).mpr hsmall
    refine ⟨hpower, ?_, hgreater, hsmall⟩
    rw [lastPlace_double]
    push_cast at hlog hlog'
    omega
  · left
    have hlog := mt (log_lt_iff hexact exponent 52).mp (not_lt.mpr hbig)
    rw [lastPlace_double]
    push_cast at hlog
    omega

theorem Within.exists_rounded (hcanonical : Canonical significand exponent)
    (hpos : 0 < significand) (hwithin : Within (interval double significand exponent) exact) :
    ∃ rounded, NearestEven (exact / (2 : ℚ) ^ lastPlace double exact) rounded ∧
      magnitude double rounded (lastPlace double exact) =
        magnitude double significand exponent := by
  rcases hwithin.lastPlace_cases hcanonical hpos with hplace | ⟨rfl, hplace, hgreater, hsmall⟩
  · rw [hplace]
    exact ⟨significand, hwithin.nearestEven hpos, rfl⟩
  · obtain ⟨hlower, -, -⟩ := hwithin.scaled hpos
    have hreach : reach (2 ^ 52) exponent = 1 / 4 := if_pos ⟨rfl, hgreater⟩
    have hdouble : exact / (2 : ℚ) ^ (exponent - 1) = exact / (2 : ℚ) ^ exponent * 2 := by
      rw [zpow_sub_one₀ (by norm_num), div_mul_eq_div_div, div_inv_eq_mul]
    rw [hreach] at hlower
    push_cast at hlower
    rw [hplace, hdouble]
    refine ⟨2 ^ 53, .of_ge ?_ ?_ fun _ => by decide, ?_⟩
    · push_cast
      linarith
    · push_cast
      linarith
    · simp only [magnitude_double]
      omega

theorem magnitude_lt_infinity (hcanonical : Canonical significand exponent)
    (hle : exponent ≤ 971) : magnitude double significand exponent < double.infinity := by
  have hsignificand := hcanonical.mantissa_lt
  have hinfinity : double.infinity = 2047 * 2 ^ 52 := by decide
  rw [hinfinity]
  simp only [magnitude_double]
  omega

theorem nearest_of_within {numerator denominator : ℕ} (hcanonical : Canonical significand exponent)
    (hpos : 0 < significand) (hle : exponent ≤ 971) (hnumerator : 0 < numerator)
    (hdenominator : 0 < denominator)
    (hwithin : Within (interval double significand exponent) ((numerator : ℚ) / denominator)) :
    double.nearest numerator denominator = magnitude double significand exponent := by
  obtain ⟨rounded, hrounded, hmagnitude⟩ := hwithin.exists_rounded hcanonical hpos
  rw [nearest_eq_of_nearestEven hnumerator hdenominator hrounded, hmagnitude]
  exact min_eq_left (magnitude_lt_infinity hcanonical hle).le

theorem decode_of_bounded {word : ℕ} (hword : word < 2 ^ 64)
    (hbounded : word / 2 ^ 52 % 2 ^ 11 ≠ 2047) :
    ∃ negative significand exponent,
      double.decode word = .finite negative significand exponent ∧
        Canonical significand exponent ∧ exponent ≤ 971 ∧
          double.signed negative (magnitude double significand exponent) = word := by
  have hsign : ∀ size : ℕ, size < 2 ^ 63 → word % 2 ^ 63 = size →
      double.signed (decide (word / 2 ^ 63 % 2 = 1)) size = word := by
    intro size hsize hrest
    show (if decide (word / 2 ^ 63 % 2 = 1) = true then 2 ^ 63 + size else size) = word
    split
    · rename_i hnegative
      have := of_decide_eq_true hnegative
      omega
    · rename_i hpositive
      have := mt decide_eq_true hpositive
      omega
  have hdecode : double.decode word =
      if word / 2 ^ 52 % 2 ^ 11 = 0 then
        .finite (decide (word / 2 ^ 63 % 2 = 1)) (word % 2 ^ 52) (-1074)
      else .finite (decide (word / 2 ^ 63 % 2 = 1)) (2 ^ 52 + word % 2 ^ 52)
        (-1074 + ((word / 2 ^ 52 % 2 ^ 11 : ℕ) - 1)) := if_neg hbounded
  rw [hdecode]
  split
  · rename_i hleast
    have hsize : magnitude double (word % 2 ^ 52) (-1074) = word % 2 ^ 52 := by
      simp [magnitude_double]
    refine ⟨_, _, _, rfl, ⟨by omega, le_rfl, .inr rfl⟩, by decide, ?_⟩
    rw [hsize]
    exact hsign _ (by omega) (by omega)
  · rename_i hnormal
    refine ⟨_, _, _, rfl, ⟨by omega, by omega, .inl (by omega)⟩, by omega, hsign _ ?_ ?_⟩
    · simp only [magnitude_double]
      omega
    · simp only [magnitude_double]
      omega

open Float.Model Float.Model.UnpackedFloat in
theorem exponentField_of_isFinite {x : Float} (hfinite : x.isFinite = true) :
    x.toBits.toNat / 2 ^ 52 % 2 ^ 11 ≠ 2047 := by
  intro hlast
  have hfield : (@unpackExponent Format.binary64 x.toBits.toBitVec : BitVec 11) = -1#11 := by
    apply BitVec.eq_of_toNat_eq
    rw [unpackExponent_def]
    show (BitVec.extractLsb' 52 11 x.toBits.toBitVec).toNat = 2047
    rw [BitVec.extractLsb'_toNat, Nat.shiftRight_eq_div_pow]
    exact hlast
  have hmodel : (UnpackedFloat.unpack Format.binary64 x.toBits.toBitVec).isFinite = true := hfinite
  rw [unpack_eq_ofFields, hfield, ofFields, if_pos rfl] at hmodel
  split at hmodel
  · cases hmodel
  · cases hmodel

theorem decode_toBits {x : Float} (hfinite : x.isFinite = true) :
    ∃ negative significand exponent,
      double.decode x.toBits.toNat = .finite negative significand exponent ∧
        Canonical significand exponent ∧ exponent ≤ 971 ∧
          double.signed negative (magnitude double significand exponent) = x.toBits.toNat :=
  decode_of_bounded x.toBits.toNat_lt (exponentField_of_isFinite hfinite)

end Apportion.Proofs.Number.NearestWords
