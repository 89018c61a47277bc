import Mathlib
import Apportion.Proofs.Number.NearestWords

namespace Apportion.Proofs.Number.ShortestDecimals

open Apportion.Number.Binary
open Apportion.Number.Shortest
open Apportion.Proofs.Number.DoubleRounding
open Apportion.Proofs.Number.FormatRounding
open Apportion.Proofs.Number.NearestWords

/-- The fraction that a decimal is. -/
def decimalAmount (decimal : Decimal) : ℚ :=
  decimal.digits * (10 : ℚ) ^ decimal.exponent

def gridUnit (range : Interval) (place : ℤ) : ℕ :=
  2 ^ (-range.exponent).toNat * 10 ^ (-place).toNat

theorem gridUnit_pos (range : Interval) (place : ℤ) : 0 < gridUnit range place := by
  unfold gridUnit
  positivity

theorem step_grid (range : Interval) (place : ℤ) :
    ((grid range place).step : ℚ) = (10 : ℚ) ^ place * gridUnit range place := by
  have hpower := zpow_eq_quotient 10 place
  have hscale : ((10 ^ (-place).toNat : ℕ) : ℚ) ≠ 0 := by positivity
  show ((10 ^ place.toNat * 2 ^ (-range.exponent).toNat : ℕ) : ℚ) = _
  push_cast [gridUnit] at hpower hscale ⊢
  rw [hpower]
  field_simp

theorem scale_grid (range : Interval) (place : ℤ) :
    ((grid range place).scale : ℚ) = (2 : ℚ) ^ range.exponent * gridUnit range place := by
  have hpower := zpow_eq_quotient 2 range.exponent
  have hscale : ((2 ^ (-range.exponent).toNat : ℕ) : ℚ) ≠ 0 := by positivity
  show ((2 ^ range.exponent.toNat * 10 ^ (-place).toNat : ℕ) : ℚ) = _
  push_cast [gridUnit] at hpower hscale ⊢
  rw [hpower]
  field_simp

theorem reads_iff_within {range : Interval} {place : ℤ} {multiple : ℕ} :
    reads range (grid range place) multiple = true ↔
      Within range (multiple * (10 : ℚ) ^ place) := by
  have hunit : (0 : ℚ) < gridUnit range place := by exact_mod_cast gridUnit_pos range place
  have hposition : ((multiple * (grid range place).step : ℕ) : ℚ) =
      multiple * (10 : ℚ) ^ place * gridUnit range place := by
    rw [Nat.cast_mul, step_grid, mul_assoc]
  have hend : ∀ border : ℕ, ((border * (grid range place).scale : ℕ) : ℚ) =
      border * (2 : ℚ) ^ range.exponent * gridUnit range place := by
    intro border
    rw [Nat.cast_mul, scale_grid, mul_assoc]
  have hle : ∀ {left right : ℕ} {low high : ℚ}, (left : ℚ) = low * gridUnit range place →
      (right : ℚ) = high * gridUnit range place → (left ≤ right ↔ low ≤ high) := by
    intro left right low high hleft hright
    rw [← Nat.cast_le (α := ℚ), hleft, hright, mul_le_mul_iff_left₀ hunit]
  have hlt : ∀ {left right : ℕ} {low high : ℚ}, (left : ℚ) = low * gridUnit range place →
      (right : ℚ) = high * gridUnit range place → (left < right ↔ low < high) := by
    intro left right low high hleft hright
    rw [← Nat.cast_lt (α := ℚ), hleft, hright, mul_lt_mul_iff_left₀ hunit]
  unfold reads
  cases hclosed : range.closed with
  | true =>
      simp only [if_true, Bool.and_eq_true, decide_eq_true_eq, hle (hend _) hposition,
        hle hposition (hend _)]
      exact ⟨fun ⟨hlower, hupper⟩ => ⟨hlower, hupper, fun hopen => by simp [hclosed] at hopen⟩,
        fun hwithin => ⟨hwithin.low_le, hwithin.le_high⟩⟩
  | false =>
      simp only [Bool.false_eq_true, if_false, Bool.and_eq_true, decide_eq_true_eq,
        hlt (hend _) hposition, hlt hposition (hend _)]
      exact ⟨fun ⟨hlower, hupper⟩ => ⟨hlower.le, hupper.le, fun _ => ⟨hlower, hupper⟩⟩,
        fun hwithin => hwithin.strict hclosed⟩

def lastBelow (range : Interval) (place : ℤ) : ℕ :=
  range.value * (grid range place).scale / (grid range place).step

theorem lastBelow_bounds (range : Interval) (place : ℤ) :
    lastBelow range place * (10 : ℚ) ^ place ≤ range.value * (2 : ℚ) ^ range.exponent ∧
      range.value * (2 : ℚ) ^ range.exponent < (lastBelow range place + 1) * (10 : ℚ) ^ place := by
  have hunit : (0 : ℚ) < gridUnit range place := by exact_mod_cast gridUnit_pos range place
  have hstep : 0 < (grid range place).step := by
    have hcast : (0 : ℚ) < (grid range place).step := by
      rw [step_grid]
      positivity
    exact_mod_cast hcast
  have hlower : ((lastBelow range place * (grid range place).step : ℕ) : ℚ) ≤
      (range.value * (grid range place).scale : ℕ) := by
    exact_mod_cast Nat.div_mul_le_self _ _
  have hupper : ((range.value * (grid range place).scale : ℕ) : ℚ) <
      ((lastBelow range place + 1) * (grid range place).step : ℕ) := by
    exact_mod_cast Nat.lt_mul_of_div_lt (Nat.lt_succ_self _) hstep
  push_cast [step_grid, scale_grid] at hlower hupper
  rw [← mul_assoc, ← mul_assoc] at hlower hupper
  exact ⟨le_of_mul_le_mul_right hlower hunit, lt_of_mul_lt_mul_right hupper hunit.le⟩

theorem nearestMultiple_spec (tie : Tie) (range : Interval) (place : ℤ) :
    (∃ multiple, nearestMultiple tie range place = some multiple ∧
      (multiple = lastBelow range place ∨ multiple = lastBelow range place + 1) ∧
        reads range (grid range place) multiple = true) ∨
      nearestMultiple tie range place = none ∧
        reads range (grid range place) (lastBelow range place) = false ∧
          reads range (grid range place) (lastBelow range place + 1) = false := by
  have hbelow : range.value * (grid range place).scale / (grid range place).step =
      lastBelow range place := rfl
  unfold nearestMultiple
  simp only [hbelow]
  split
  · exact .inr ⟨rfl, ‹_›, ‹_›⟩
  · exact .inl ⟨_, rfl, .inl rfl, ‹_›⟩
  · exact .inl ⟨_, rfl, .inr rfl, ‹_›⟩
  · rename_i hreads hreadsAbove
    left
    split
    · exact ⟨_, rfl, .inl rfl, hreads⟩
    split
    · exact ⟨_, rfl, .inr rfl, hreadsAbove⟩
    cases tie with
    | up => exact ⟨_, rfl, .inr rfl, hreadsAbove⟩
    | even =>
        rcases Nat.mod_two_eq_zero_or_one (lastBelow range place) with heven | hodd
        · exact ⟨lastBelow range place, by simp only [heven, Nat.add_zero], .inl rfl, hreads⟩
        · exact ⟨lastBelow range place + 1, by simp only [hodd], .inr rfl, hreadsAbove⟩

theorem firstMultiple_spec (tie : Tie) (range : Interval) (places : List ℤ) :
    (∃ multiple, ∃ place ∈ places, firstMultiple tie range places = some ⟨multiple, place⟩ ∧
      nearestMultiple tie range place = some multiple) ∨
      firstMultiple tie range places = none ∧
        ∀ place ∈ places, nearestMultiple tie range place = none := by
  induction places with
  | nil => exact .inr ⟨rfl, by simp⟩
  | cons place places ih =>
      rw [firstMultiple]
      cases hmultiple : nearestMultiple tie range place with
      | some multiple => exact .inl ⟨multiple, place, by simp, rfl, hmultiple⟩
      | none =>
          rcases ih with ⟨multiple, other, hmem, hfound, hother⟩ | ⟨hfound, hnone⟩
          · exact .inl ⟨multiple, other, List.mem_cons_of_mem place hmem, hfound, hother⟩
          · exact .inr ⟨hfound, List.forall_mem_cons.mpr ⟨hmultiple, hnone⟩⟩

theorem amount_stripZeros (fuel : ℕ) (decimal : Decimal) :
    decimalAmount (decimal.stripZeros fuel) = decimalAmount decimal := by
  induction fuel generalizing decimal with
  | zero => rfl
  | succ fuel ih =>
      rw [Decimal.stripZeros]
      split
      · rename_i hstrip
        rw [ih]
        have hdigits : ((decimal.digits / 10 : ℕ) : ℚ) * 10 = decimal.digits := by
          exact_mod_cast Nat.div_mul_cancel (Nat.dvd_of_mod_eq_zero hstrip.2)
        unfold decimalAmount
        rw [zpow_add_one₀ (by norm_num), mul_comm ((10 : ℚ) ^ decimal.exponent), ← mul_assoc,
          hdigits]
      · rfl

variable {significand : ℕ} {exponent : ℤ} {tie : Tie}

theorem digits_stripZeros_le (fuel : ℕ) (decimal : Decimal) :
    (decimal.stripZeros fuel).digits ≤ decimal.digits := by
  induction fuel generalizing decimal with
  | zero => exact le_rfl
  | succ fuel ih =>
      rw [Decimal.stripZeros]
      split
      · exact (ih _).trans (Nat.div_le_self _ _)
      · exact le_rfl

theorem length_toDigits_bounds {count : ℕ} (hpos : 0 < count) :
    (10 : ℚ) ^ (((Nat.toDigits 10 count).length : ℤ) - 1) ≤ count ∧
      (count : ℚ) < (10 : ℚ) ^ (((Nat.toDigits 10 count).length : ℤ) - 1 + 1) := by
  obtain ⟨length, hlength⟩ := Nat.exists_eq_add_of_le'
    (show 1 ≤ (Nat.toDigits 10 count).length from Nat.length_toDigits_pos)
  have hupper : count < 10 ^ (length + 1) :=
    (Nat.length_toDigits_le_iff (by decide) (by omega)).mp hlength.le
  have hlower : 10 ^ length ≤ count := by
    rcases Nat.eq_zero_or_pos length with rfl | hsome
    · exact hpos
    · by_contra hlt
      have := (Nat.length_toDigits_le_iff (by decide) hsome).mpr (Nat.not_le.mp hlt)
      omega
  rw [hlength]
  push_cast
  rw [add_sub_cancel_right]
  exact ⟨by exact_mod_cast hlower, by exact_mod_cast hupper⟩

theorem pointPlace_bounds (hpos : 0 < significand) (exponent : ℤ) :
    (10 : ℚ) ^ (pointPlace significand exponent - 1) ≤ significand * (2 : ℚ) ^ exponent ∧
      significand * (2 : ℚ) ^ exponent < (10 : ℚ) ^ pointPlace significand exponent := by
  have hamount := mul_zpow_eq_quotient significand 2 exponent
  have hplace : pointPlace significand exponent =
      let estimate : ℤ := (Nat.toDigits 10 (significand * 2 ^ exponent.toNat)).length -
        (Nat.toDigits 10 (2 ^ (-exponent).toNat)).length
      if significand * 2 ^ exponent.toNat * 10 ^ (-estimate).toNat <
          2 ^ (-exponent).toNat * 10 ^ estimate.toNat then estimate else estimate + 1 := rfl
  have hnumerator : 0 < significand * 2 ^ exponent.toNat := by positivity
  have hdenominator : 0 < 2 ^ (-exponent).toNat := by positivity
  rw [Nat.cast_ofNat] at hamount
  rw [hamount, hplace]
  generalize significand * 2 ^ exponent.toNat = numerator at *
  generalize 2 ^ (-exponent).toNat = denominator at *
  obtain ⟨hlower, hupper⟩ := quotient_bounds (by norm_num) (length_toDigits_bounds hnumerator)
    (length_toDigits_bounds hdenominator)
  rw [sub_sub_sub_cancel_right] at hlower hupper
  have htest := quotient_lt_zpow_iff (show 0 < 10 by decide) numerator hdenominator
  simp only
  split
  · rename_i hlt
    exact ⟨hlower, by exact_mod_cast (htest _).mp hlt⟩
  · rename_i hge
    rw [add_sub_cancel_right]
    exact ⟨by exact_mod_cast not_lt.mp (mt (htest _).mpr hge), hupper⟩

/-- Half a step is less than the interval reaches down, also below a power of two. -/
theorem half_step_lt {step : ℚ} (hfew : significand < 2 ^ 53)
    (hstep : step * 10 ^ 16 ≤ significand * (2 : ℚ) ^ exponent) :
    step / 2 < reach significand exponent * (2 : ℚ) ^ exponent := by
  have hunit : (0 : ℚ) < (2 : ℚ) ^ exponent := by positivity
  have hscaled : (significand : ℚ) < reach significand exponent * (2 * 10 ^ 16) := by
    unfold reach
    split
    · rename_i hpower
      rw [hpower.1]
      norm_num
    · have hcast : (significand : ℚ) < 2 ^ 53 := by exact_mod_cast hfew
      linarith
  have := mul_lt_mul_of_pos_right hscaled hunit
  linarith

/-- The multiples that the search tries last are so close together that one of those beside the
value lies in the interval. -/
theorem nearestMultiple_ne_none (hcanonical : Canonical significand exponent)
    (hpos : 0 < significand) :
    nearestMultiple tie (interval double significand exponent)
      (pointPlace significand exponent - 17) ≠ none := by
  intro hnone
  obtain ⟨hlower, -⟩ := pointPlace_bounds hpos exponent
  obtain ⟨hbelow, habove⟩ := lastBelow_bounds (interval double significand exponent)
    (pointPlace significand exponent - 17)
  rw [value_amount] at hbelow habove
  obtain ⟨multiple, hfound, -⟩ | ⟨-, hfirst, hsecond⟩ := nearestMultiple_spec tie
    (interval double significand exponent) (pointPlace significand exponent - 17)
  · rw [hnone] at hfound
    cases hfound
  have hstep : (10 : ℚ) ^ (pointPlace significand exponent - 17) * 10 ^ 16 ≤
      significand * (2 : ℚ) ^ exponent := by
    rwa [← zpow_natCast, ← zpow_add₀ (by norm_num),
      show pointPlace significand exponent - 17 + (16 : ℕ) = pointPlace significand exponent - 1 by
        push_cast; ring]
  have hhalf := half_step_lt hcanonical.mantissa_lt hstep
  have hunit : (0 : ℚ) < (2 : ℚ) ^ exponent := by positivity
  have hreach := mul_le_mul_of_nonneg_right (reach_le significand exponent) hunit.le
  rw [← Bool.not_eq_true, reads_iff_within] at hfirst hsecond
  push_cast at hsecond
  generalize (10 : ℚ) ^ (pointPlace significand exponent - 17) = step at *
  rcases le_total (significand * (2 : ℚ) ^ exponent - lastBelow
      (interval double significand exponent) (pointPlace significand exponent - 17) * step)
      (step / 2) with hnear | hfar
  · exact hfirst (within_of_lt hpos (by linarith) (by linarith))
  · refine hsecond (within_of_lt hpos ?_ ?_)
    · linarith
    · linarith

/-- The search for the shortest decimal ends with at most seventeen digits. -/
theorem shortest_spec (tie : Tie) (hcanonical : Canonical significand exponent)
    (hpos : 0 < significand) :
    (shortest tie double significand exponent).digits ≤ 10 ^ 17 ∧
      Within (interval double significand exponent)
        (decimalAmount (shortest tie double significand exponent)) := by
  obtain ⟨multiple, place, hplace, hfound, hmultiple⟩ | ⟨-, hnone⟩ :=
    firstMultiple_spec tie (interval double significand exponent)
      ((List.range 17).map fun count : ℕ => pointPlace significand exponent - (count + 1))
  · obtain ⟨count, hcount, rfl⟩ := List.mem_map.mp hplace
    rw [List.mem_range] at hcount
    obtain ⟨other, hother, hbeside, hreads⟩ | ⟨hnone, -⟩ := nearestMultiple_spec tie
      (interval double significand exponent) (pointPlace significand exponent - (count + 1))
    · obtain rfl := Option.some.inj (hmultiple.symm.trans hother)
      rw [shortest, hfound, Option.getD_some, amount_stripZeros]
      refine ⟨(digits_stripZeros_le 20 _).trans ?_, reads_iff_within.mp hreads⟩
      obtain ⟨hbelow, -⟩ := lastBelow_bounds (interval double significand exponent)
        (pointPlace significand exponent - (count + 1))
      rw [value_amount] at hbelow
      have hpoint := hbelow.trans_lt (pointPlace_bounds hpos exponent).2
      have hsplit : (10 : ℚ) ^ pointPlace significand exponent =
          10 ^ (count + 1) * (10 : ℚ) ^ (pointPlace significand exponent - (count + 1)) := by
        rw [← zpow_natCast, ← zpow_add₀ (by norm_num)]
        push_cast
        ring_nf
      rw [hsplit] at hpoint
      have hlast := lt_of_mul_lt_mul_right hpoint (by positivity)
      have hfew : lastBelow (interval double significand exponent)
          (pointPlace significand exponent - (count + 1)) < 10 ^ (count + 1) := by
        exact_mod_cast hlast
      have hmost : 10 ^ (count + 1) ≤ 10 ^ 17 := Nat.pow_le_pow_right (by decide) (by omega)
      show multiple ≤ 10 ^ 17
      omega
    · rw [hmultiple] at hnone
      cases hnone
  · refine absurd (hnone _ (List.mem_map.mpr ⟨16, List.mem_range.mpr (by decide), ?_⟩))
      (nearestMultiple_ne_none hcanonical hpos)
    norm_num

theorem digits_pos_of_within {decimal : Decimal} (hpos : 0 < significand)
    (hwithin : Within (interval double significand exponent) (decimalAmount decimal)) :
    0 < decimal.digits := by
  have hamount := hwithin.pos hpos
  refine Nat.pos_of_ne_zero fun hzero => ?_
  rw [decimalAmount, hzero] at hamount
  simp at hamount

theorem digits_shortest_pos (tie : Tie) (hcanonical : Canonical significand exponent)
    (hpos : 0 < significand) : 0 < (shortest tie double significand exponent).digits :=
  digits_pos_of_within hpos (shortest_spec tie hcanonical hpos).2

/-- The word nearest to a decimal. -/
def nearestWord (decimal : Decimal) : ℕ :=
  double.nearest (decimal.digits * 10 ^ decimal.exponent.toNat) (10 ^ (-decimal.exponent).toNat)

theorem nearestWord_of_within {decimal : Decimal} (hcanonical : Canonical significand exponent)
    (hpos : 0 < significand) (hle : exponent ≤ 971)
    (hwithin : Within (interval double significand exponent) (decimalAmount decimal)) :
    nearestWord decimal = magnitude double significand exponent := by
  have hdigits := digits_pos_of_within hpos hwithin
  have hamount := mul_zpow_eq_quotient decimal.digits 10 decimal.exponent
  rw [Nat.cast_ofNat] at hamount
  rw [decimalAmount, hamount] at hwithin
  exact nearest_of_within hcanonical hpos hle (by positivity) (by positivity) hwithin

end Apportion.Proofs.Number.ShortestDecimals
