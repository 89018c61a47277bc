import Mathlib.Algebra.BigOperators.Ring.List
import Mathlib.Algebra.Order.BigOperators.Group.List
import Mathlib.Algebra.Order.Round
import Mathlib.Data.Int.Log
import Apportion.Proofs.Number.DoubleSums

/-!
How far rounding moves a fraction. The error is bounded by the size of the fraction, or of the
double that it is rounded to, and below the normal doubles by half of the smallest one. A sum of two
doubles is rounded without that second part, for what the smallest doubles add up to is a double
again. From this come the errors of sums that are worked out from left to right.
-/

namespace Apportion.Proofs.Number.RoundingErrors

open Apportion.Number.Arithmetic
open Apportion.Proofs.Number.DoubleGrid
open Apportion.Proofs.Number.Doubles
open Apportion.Proofs.Number.DoubleSums

/-- Half of the smallest double. -/
def leastError : ℚ :=
  (2 : ℚ) ^ (-1075 : ℤ)

theorem leastError_pos : 0 < leastError :=
  zpow_pos (by norm_num) _

theorem leastError_le : leastError ≤ 1 / 2 ^ 100 := by
  have hpower : (1 : ℚ) / 2 ^ 100 = (2 : ℚ) ^ (-100 : ℤ) := by norm_num
  rw [hpower]
  exact zpow_le_zpow_right₀ (by norm_num) (by norm_num)

theorem mul_leastError_le {count : ℕ} (hcount : count ≤ 2 ^ 20) :
    count * leastError ≤ 1 / 2 ^ 80 := by
  calc count * leastError ≤ 2 ^ 20 * (1 / 2 ^ 100) :=
        mul_le_mul (by exact_mod_cast hcount) leastError_le leastError_pos.le (by norm_num)
    _ = 1 / 2 ^ 80 := by norm_num

section Nearest

variable {exact point : ℚ}

theorem abs_sub_le_half_step_of_nonneg (hnearest : Nearest exact point) {exponent : ℤ}
    (hexponent : -1074 ≤ exponent) (hnonneg : 0 ≤ exact)
    (hle : exact ≤ 2 ^ 53 * (2 : ℚ) ^ exponent) : |exact - point| ≤ (2 : ℚ) ^ exponent / 2 := by
  have hunit : (0 : ℚ) < (2 : ℚ) ^ exponent := by positivity
  obtain ⟨scaled, hscaled⟩ : ∃ scaled, scaled * (2 : ℚ) ^ exponent = exact :=
    ⟨exact / (2 : ℚ) ^ exponent, div_mul_cancel₀ exact hunit.ne'⟩
  have hscaledNonneg : 0 ≤ scaled := nonneg_of_mul_nonneg_left (hscaled ▸ hnonneg) hunit
  have hscaledLe : scaled ≤ 2 ^ 53 := le_of_mul_le_mul_right (hscaled ▸ hle) hunit
  have hround := abs_sub_round scaled
  obtain ⟨hlower, hupper⟩ := abs_le.mp hround
  have hgrid : OnGrid ((round scaled : ℤ) * (2 : ℚ) ^ exponent) := by
    apply onGrid_multiple _ _ hexponent
    · have habove : ((-1 : ℤ) : ℚ) < round scaled := by
        push_cast
        linarith
      have : -1 < round scaled := by exact_mod_cast habove
      omega
    · have hbelow : (round scaled : ℚ) < ((2 ^ 53 + 1 : ℤ) : ℚ) := by
        push_cast
        linarith
      have : round scaled < 2 ^ 53 + 1 := by exact_mod_cast hbelow
      omega
  calc |exact - point| ≤ |exact - (round scaled : ℤ) * (2 : ℚ) ^ exponent| :=
        hnearest.le _ hgrid
    _ = |scaled - round scaled| * (2 : ℚ) ^ exponent := by
        rw [← hscaled, ← sub_mul, abs_mul, abs_of_pos hunit]
    _ ≤ 1 / 2 * (2 : ℚ) ^ exponent := mul_le_mul_of_nonneg_right hround hunit.le
    _ = (2 : ℚ) ^ exponent / 2 := by ring

theorem abs_sub_le_half_step (hnearest : Nearest exact point) {exponent : ℤ}
    (hexponent : -1074 ≤ exponent) (hle : |exact| ≤ 2 ^ 53 * (2 : ℚ) ^ exponent) :
    |exact - point| ≤ (2 : ℚ) ^ exponent / 2 := by
  rcases le_total 0 exact with hnonneg | hnonpos
  · rw [abs_of_nonneg hnonneg] at hle
    exact abs_sub_le_half_step_of_nonneg hnearest hexponent hnonneg hle
  · rw [abs_of_nonpos hnonpos] at hle
    have hneg := abs_sub_le_half_step_of_nonneg hnearest.neg hexponent (neg_nonneg.mpr hnonpos) hle
    rwa [neg_sub_neg, abs_sub_comm] at hneg

theorem abs_sub_le_of_normal_pos (hnearest : Nearest exact point)
    (hnormal : (2 : ℚ) ^ (-1022 : ℤ) ≤ exact) :
    |exact - point| ≤ exact / 2 ^ 53 ∧ |exact - point| ≤ point / 2 ^ 53 := by
  have hpos : 0 < exact := (zpow_pos (by norm_num) _).trans_le hnormal
  -- The place of the last of the 53 bits.
  obtain ⟨exponent, hexponent⟩ : ∃ exponent : ℤ, exponent + 52 = Int.log 2 exact :=
    ⟨Int.log 2 exact - 52, by ring⟩
  have hleast : -1074 ≤ exponent := by
    have hlog : (-1022 : ℤ) ≤ Int.log 2 exact :=
      (Int.zpow_le_iff_le_log (by norm_num) hpos).mp hnormal
    omega
  have hlow : (2 : ℚ) ^ (exponent + 52) ≤ exact := by
    rw [hexponent]
    exact Int.zpow_log_le_self (by norm_num) hpos
  have hhigh : exact ≤ 2 ^ 53 * (2 : ℚ) ^ exponent := by
    have hlt : exact < (2 : ℚ) ^ (Int.log 2 exact + 1) :=
      Int.lt_zpow_succ_log_self (by norm_num) exact
    rw [← hexponent, show exponent + 52 + 1 = exponent + (53 : ℕ) by norm_num; ring,
      zpow_add₀ (by norm_num), zpow_natCast, mul_comm] at hlt
    exact hlt.le
  have hpoint : (2 : ℚ) ^ (exponent + 52) ≤ point :=
    hnearest.ge_of_ge (onGrid_two_zpow (by omega)) hlow
  have hstep := abs_sub_le_half_step_of_nonneg hnearest hleast hpos.le hhigh
  have hhalf : (2 : ℚ) ^ exponent / 2 = (2 : ℚ) ^ (exponent + 52) / 2 ^ 53 := by
    rw [show exponent + 52 = exponent + (52 : ℕ) by norm_num, zpow_add₀ (by norm_num),
      zpow_natCast]
    ring
  rw [hhalf] at hstep
  constructor <;> linarith

theorem abs_sub_le_of_normal (hnearest : Nearest exact point)
    (hnormal : (2 : ℚ) ^ (-1022 : ℤ) ≤ |exact|) :
    |exact - point| ≤ |exact| / 2 ^ 53 ∧ |exact - point| ≤ |point| / 2 ^ 53 := by
  rcases le_total 0 exact with hnonneg | hnonpos
  · rw [abs_of_nonneg hnonneg] at hnormal ⊢
    rw [abs_of_nonneg (hnearest.nonneg hnonneg)]
    exact abs_sub_le_of_normal_pos hnearest hnormal
  · rw [abs_of_nonpos hnonpos] at hnormal ⊢
    rw [abs_of_nonpos (hnearest.nonpos hnonpos)]
    have hneg := abs_sub_le_of_normal_pos hnearest.neg hnormal
    rwa [neg_sub_neg, abs_sub_comm] at hneg

theorem abs_sub_le (hnearest : Nearest exact point) :
    |exact - point| ≤ |exact| / 2 ^ 53 + leastError := by
  have hleast := leastError_pos
  rcases le_or_gt ((2 : ℚ) ^ (-1022 : ℤ)) |exact| with hnormal | hsmall
  · linarith [(abs_sub_le_of_normal hnearest hnormal).1]
  · have hbound : |exact| ≤ 2 ^ 53 * (2 : ℚ) ^ (-1074 : ℤ) := by
      refine hsmall.le.trans ?_
      rw [← zpow_natCast, ← zpow_add₀ (by norm_num)]
      exact zpow_le_zpow_right₀ (by norm_num) (by norm_num)
    have hhalf : (2 : ℚ) ^ (-1074 : ℤ) / 2 = leastError := by
      rw [leastError, show (-1074 : ℤ) = -1075 + 1 by norm_num, zpow_add_one₀ (by norm_num)]
      ring
    have hstep := abs_sub_le_half_step hnearest le_rfl hbound
    rw [hhalf] at hstep
    have hnonneg : 0 ≤ |exact| / 2 ^ 53 := by positivity
    linarith

/-- A sum of two points is one itself below the normal doubles, so that it is never rounded away. -/
theorem abs_sub_le_of_add {left right : ℚ} (hleft : OnGrid left) (hright : OnGrid right)
    (hnearest : Nearest (left + right) point) : |left + right - point| ≤ |point| / 2 ^ 53 := by
  rcases le_or_gt ((2 : ℚ) ^ (-1022 : ℤ)) |left + right| with hnormal | hsmall
  · exact (abs_sub_le_of_normal hnearest hnormal).2
  · have hgrid : OnGrid (left + right) := by
      obtain ⟨mantissa, exponent, -, hexponent, rfl⟩ := hleft
      obtain ⟨mantissa', exponent', -, hexponent', rfl⟩ := hright
      obtain ⟨multiple, hmultiple⟩ := exists_multiple mantissa hexponent
      obtain ⟨multiple', hmultiple'⟩ := exists_multiple mantissa' hexponent'
      rw [hmultiple, hmultiple', ← add_mul] at hsmall ⊢
      refine ⟨multiple + multiple', -1074, ?_, le_rfl, by rw [Int.cast_add]⟩
      have hunit : (0 : ℚ) < (2 : ℚ) ^ (-1074 : ℤ) := by positivity
      rw [abs_mul, abs_of_pos hunit, show (-1022 : ℤ) = (52 : ℕ) + -1074 by norm_num,
        zpow_add₀ (by norm_num), zpow_natCast] at hsmall
      have hlt : |(multiple : ℚ) + multiple'| < 2 ^ 52 := lt_of_mul_lt_mul_right hsmall hunit.le
      have hcast : |multiple + multiple'| < 2 ^ 52 := by exact_mod_cast hlt
      omega
    rw [hnearest.eq_of_onGrid hgrid, sub_self, abs_zero]
    positivity

end Nearest

def exactSum (values : List Float) : ℚ :=
  (values.map value).sum

theorem exactSum_cons (x : Float) (values : List Float) :
    exactSum (x :: values) = value x + exactSum values := by
  rw [exactSum, List.map_cons, List.sum_cons, exactSum]

def exactSize (values : List Float) : ℚ :=
  (values.map fun x => |value x|).sum

theorem exactSize_cons (x : Float) (values : List Float) :
    exactSize (x :: values) = |value x| + exactSize values := by
  rw [exactSize, List.map_cons, List.sum_cons, exactSize]

theorem exactSize_nonneg (values : List Float) : 0 ≤ exactSize values := by
  refine List.sum_nonneg fun size hmem => ?_
  obtain ⟨x, -, rfl⟩ := List.mem_map.mp hmem
  exact abs_nonneg _

theorem exactSize_of_nonneg {values : List Float} (hvalues : ∀ x ∈ values, 0 ≤ value x) :
    exactSize values = exactSum values := by
  rw [exactSize, exactSum]
  exact congrArg List.sum (List.map_congr_left fun x hmem => abs_of_nonneg (hvalues x hmem))

theorem exactSize_of_nonpos {values : List Float} (hvalues : ∀ x ∈ values, value x ≤ 0) :
    exactSize values = -exactSum values := by
  induction values with
  | nil => simp [exactSize, exactSum]
  | cons x values ih =>
      rw [List.forall_mem_cons] at hvalues
      rw [exactSize_cons, exactSum_cons, ih hvalues.2, abs_of_nonpos hvalues.1]
      ring

theorem foldl_add_relative {values : List Float} (hvalues : ∀ x ∈ values, IsSize x) {start : Float}
    (hstart : IsSize start) (hfinite : (values.foldl (· + ·) start).isFinite = true) :
    |value start + exactSum values - value (values.foldl (· + ·) start)| ≤
      values.length * (value (values.foldl (· + ·) start) / 2 ^ 53) := by
  induction values generalizing start with
  | nil => simp [exactSum]
  | cons x values ih =>
      rw [List.forall_mem_cons] at hvalues
      obtain ⟨hx, hvalues⟩ := hvalues
      rw [List.foldl_cons] at hfinite ⊢
      have hnext : (start + x).isFinite = true := by
        by_contra hlost
        rw [Bool.not_eq_true] at hlost
        rw [isFinite_foldl_eq_false values hlost] at hfinite
        cases hfinite
      have hnearest := (gives_add hstart.isFinite hx.isFinite).nearest hnext
      have hnonneg : 0 ≤ value (start + x) :=
        hnearest.nonneg (add_nonneg hstart.nonneg hx.nonneg)
      have herror := abs_sub_le_of_add (onGrid_value hstart.isFinite) (onGrid_value hx.isFinite)
        hnearest
      rw [abs_of_nonneg hnonneg] at herror
      have hrest := ih hvalues ⟨hnext, hnonneg⟩ hfinite
      have hgrows := (foldl_add_bounds hvalues ⟨hnext, hnonneg⟩ hfinite).1
      rw [exactSum_cons, List.length_cons]
      generalize value (values.foldl (· + ·) (start + x)) = last at *
      rw [abs_le] at herror hrest ⊢
      push_cast
      constructor <;> linarith

/-- The sum of doubles that are not negative is off by at most one part in `2 ^ 53` for each of
them. -/
theorem total_relative {values : List Float} (hvalues : ∀ x ∈ values, IsSize x)
    (hfinite : (total values).isFinite = true) :
    |exactSum values - value (total values)| ≤
      values.length * (value (total values) / 2 ^ 53) := by
  have hfold := foldl_add_relative hvalues ⟨value_zero.1, value_zero.2.ge⟩ hfinite
  rwa [value_zero.2, zero_add] at hfold

theorem total_relative_of_length {values : List Float} (hvalues : ∀ x ∈ values, IsSize x)
    (hfinite : (total values).isFinite = true) (hlength : values.length ≤ 2 ^ 20) :
    |exactSum values - value (total values)| ≤ value (total values) / 2 ^ 33 := by
  have hcount : (values.length : ℚ) ≤ 2 ^ 20 := by exact_mod_cast hlength
  have hnonneg := (total_bounds hvalues hfinite).1
  calc |exactSum values - value (total values)|
      ≤ values.length * (value (total values) / 2 ^ 53) := total_relative hvalues hfinite
    _ ≤ 2 ^ 20 * (value (total values) / 2 ^ 53) :=
        mul_le_mul_of_nonneg_right hcount (by positivity)
    _ = value (total values) / 2 ^ 33 := by ring

theorem foldl_add_near {values : List Float} (hvalues : ∀ x ∈ values, x.isFinite = true)
    {start : Float} (hstart : start.isFinite = true)
    (hroom : |value start| + exactSize values + values.length / 2 ^ 52 ≤ 4) :
    (values.foldl (· + ·) start).isFinite = true ∧
      |value start + exactSum values - value (values.foldl (· + ·) start)| ≤
        values.length / 2 ^ 52 := by
  induction values generalizing start with
  | nil => exact ⟨hstart, by simp [exactSum]⟩
  | cons x values ih =>
      rw [List.forall_mem_cons] at hvalues
      obtain ⟨hx, hvalues⟩ := hvalues
      rw [exactSize_cons, List.length_cons] at hroom
      push_cast at hroom
      have hsize := exactSize_nonneg values
      have hlength : (0 : ℚ) ≤ values.length / 2 ^ 52 := by positivity
      have hexact : |value start + value x| ≤ 4 := by
        refine (abs_add_le _ _).trans ?_
        linarith
      obtain ⟨hlow, hhigh⟩ := abs_le.mp hexact
      have hfour : Representable 4 := by
        have hpower := representable_two_pow (show 2 < 1024 by norm_num)
        norm_num at hpower
        exact hpower
      have hnext : (start + x).isFinite = true :=
        ((gives_add hstart hx).within hfour.neg hfour hlow hhigh).isFinite
      have herror : |value start + value x - value (start + x)| ≤ 1 / 2 ^ 52 := by
        have hstep := abs_sub_le_half_step ((gives_add hstart hx).nearest hnext)
          (show -1074 ≤ (-51 : ℤ) by norm_num) (hexact.trans (by norm_num))
        norm_num at hstep ⊢
        exact hstep
      have hsplit : |value (start + x)| ≤ |value start| + |value x| + 1 / 2 ^ 52 := by
        have htriangle := abs_add_le (value start) (value x)
        have hmove := abs_sub_abs_le_abs_sub (value (start + x)) (value start + value x)
        rw [abs_sub_comm] at hmove
        linarith
      obtain ⟨hfinite, hrest⟩ := ih hvalues hnext (by linarith)
      refine ⟨hfinite, ?_⟩
      rw [List.foldl_cons, exactSum_cons, List.length_cons]
      rw [abs_le] at herror hrest ⊢
      push_cast
      constructor <;> linarith

theorem total_near {values : List Float} (hvalues : ∀ x ∈ values, x.isFinite = true)
    (hroom : exactSize values + values.length / 2 ^ 52 ≤ 4) :
    (total values).isFinite = true ∧
      |exactSum values - value (total values)| ≤ values.length / 2 ^ 52 := by
  have hfold := foldl_add_near hvalues value_zero.1
    (by rwa [value_zero.2, abs_zero, zero_add])
  rwa [value_zero.2, zero_add] at hfold

theorem abs_one_sub_div_le {part whole bound : ℚ} (hpos : 0 < whole)
    (hnear : |part - whole| ≤ whole * bound) : |1 - part / whole| ≤ bound := by
  have hquotient : 1 - part / whole = -((part - whole) / whole) := by
    rw [sub_div, div_self hpos.ne', neg_sub]
  rw [hquotient, abs_neg, abs_div, abs_of_pos hpos, div_le_iff₀ hpos, mul_comm]
  exact hnear

theorem abs_sum_sub_sum_le {β : Type} {exact actual error : β → ℚ} {elements : List β}
    (herror : ∀ x ∈ elements, |exact x - actual x| ≤ error x) :
    |(elements.map exact).sum - (elements.map actual).sum| ≤ (elements.map error).sum := by
  induction elements with
  | nil => simp
  | cons x elements ih =>
      rw [List.forall_mem_cons] at herror
      have hrest := ih herror.2
      have hfirst := herror.1
      simp only [List.map_cons, List.sum_cons]
      rw [abs_le] at hfirst hrest ⊢
      constructor <;> linarith

end Apportion.Proofs.Number.RoundingErrors
