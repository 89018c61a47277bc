import Apportion.Proofs.Weights.Checks
import Apportion.Proofs.Weights.SpreadErrors

/-!
The sum of limited shares in doubles. It is one, within a millionth, unless a pass leaves free
shares that vanish. What carries this through the passes is the part of the capped shares: each of
them had reached the limit before it was capped, so that the shares before a pass bound what the
capped ones take after it.
-/

namespace Apportion.Proofs.Weights.SumOfShares

open Apportion.Number.Arithmetic
open Apportion.Weights.Normalization
open Apportion.Proofs.Number.Doubles
open Apportion.Proofs.Number.RoundingErrors
open Apportion.Proofs.Weights.CapPasses
open Apportion.Proofs.Weights.Checks
open Apportion.Proofs.Weights.DoubleShares
open Apportion.Proofs.Weights.SpreadErrors
open Apportion.Proofs.Weights.WaterFilling

/-- The shares, added up from left to right, make one within a millionth. -/
structure SumsToOne (shares : List Float) : Prop where
  isFinite : (total shares).isFinite = true
  near : |value (total shares) - 1| ≤ 1 / 10 ^ 6

theorem sumsToOne_of_nearOne {shares : List Float}
    (hfinite : ∀ share ∈ shares, share.isFinite = true) (hlength : shares.length ≤ 2 ^ 20)
    (hnear : NearOne shares) : SumsToOne shares := by
  have hcount : (shares.length : ℚ) ≤ 2 ^ 20 := by exact_mod_cast hlength
  obtain ⟨hsum, hsize⟩ := hnear
  obtain ⟨htotal, herror⟩ := total_near hfinite (by linarith)
  refine ⟨htotal, ?_⟩
  rw [tolerance, abs_le] at hsum
  rw [abs_le] at herror ⊢
  constructor <;> linarith

theorem nearOne_of_nonneg {values : List Float} (hvalues : ∀ x ∈ values, 0 ≤ value x)
    (hsum : |1 - exactSum values| ≤ 1 / 2 ^ 32) : NearOne values := by
  rw [abs_le] at hsum
  constructor
  · rw [tolerance, abs_le]
    constructor <;> linarith
  · rw [exactSize_of_nonneg hvalues]
    linarith

section Passes

variable {limit : Float} {shares : List (Share Float)}

/-- What every pass keeps: base shares that add up to one, and a part for the capped ones that is no
more than that. -/
structure Balanced (limit : Float) (shares : List (Share Float)) : Prop where
  passed : Passed limit shares
  base_near : |1 - exactSum (shares.map (·.base))| ≤ 1 / 2 ^ 32
  part_le : cappedPart limit shares ≤ 1 + tolerance

theorem nearOne_values (hlimit : Limit limit) (hlength : shares.length ≤ 2 ^ 20)
    (hbalanced : Balanced limit shares) (hsound : ¬Vanishing shares)
    (hfree : 0 < freeCount shares) : NearOne (shares.map (·.value)) := by
  rcases hbalanced.passed.value with hfirst | hspread
  · rw [List.map_congr_left fun share hmem => (hfirst share hmem).2]
    refine nearOne_of_nonneg (fun x hmem => ?_) hbalanced.base_near
    obtain ⟨share, hshare, rfl⟩ := List.mem_map.mp hmem
    exact (hbalanced.passed.base share hshare).low_le
  · rw [List.map_congr_left hspread]
    exact nearOne_spread hlimit hlength hbalanced.passed.base hbalanced.part_le hsound hfree

theorem value_of_capped (hpassed : Passed limit shares) {share : Share Float}
    (hmem : share ∈ shares) (hcapped : share.capped = true) : share.value = limit := by
  rcases hpassed.value with hfirst | hspread
  · rw [(hfirst share hmem).1] at hcapped
    cases hcapped
  · rw [hspread share hmem, spreadValue, if_pos hcapped]

theorem isFinite_value (hlimit : Limit limit) (hlength : shares.length ≤ 2 ^ 20)
    (hpassed : Passed limit shares) {share : Share Float} (hmem : share ∈ shares) :
    share.value.isFinite = true :=
  (sizesUnless_of_passed hlimit (by omega) hpassed).isFinite _ (List.mem_map_of_mem hmem)

theorem value_nonneg_of_overflow (hlimit : Limit limit) (hlength : shares.length ≤ 2 ^ 20)
    (hpassed : Passed limit shares) (hover : shares.any (·.overflows limit) = true)
    {share : Share Float} (hmem : share ∈ shares) : 0 ≤ value share.value := by
  have hword : shares.length < 2 ^ 64 := by omega
  rcases hpassed.value with hfirst | hspread
  · rw [(hfirst share hmem).2]
    exact (hpassed.base share hmem).low_le
  · obtain ⟨high, hhigh, habove⟩ := List.any_eq_true.mp hover
    obtain ⟨hhighFree, hlt⟩ : high.capped = false ∧ limit < high.value := by
      simpa [Share.overflows] using habove
    have hhighBounds := spreadValue_bounds hlimit hword hpassed.base hhigh hhighFree
    rw [← hspread high hhigh] at hhighBounds
    rw [lt_iff_value_lt hlimit.within.isFinite hhighBounds.1.isFinite] at hlt
    -- Free shares have the sign of what is left over, and this one is positive.
    have hmass : 0 ≤ value (freeMass limit shares) := by
      by_contra hless
      have hnonpos := hhighBounds.2.2 (not_le.mp hless).le
      linarith [hlimit.pos]
    rcases capped_or_bounds hlimit hword hpassed.base hmem (hspread share hmem) with
      hcapped | ⟨-, -, hnonneg, -⟩
    · rw [hcapped]
      exact hlimit.pos.le
    · exact hnonneg hmass

/-- The shares that are capped after a pass are worth the limit at least before it. -/
theorem cappedPart_capPass_le (hlimit : Limit limit) (hlength : shares.length ≤ 2 ^ 20)
    (hpassed : Passed limit shares) (hover : shares.any (·.overflows limit) = true) :
    cappedPart limit (capPass limit shares) ≤ exactSum (shares.map (·.value)) := by
  have hpart : cappedPart limit (capPass limit shares) =
      ((shares.map (·.mark limit)).map fun share =>
        if share.capped then value limit else 0).sum := by
    rw [sum_ite_capped, cappedPart, capPass, countP_capped_spread, List.map_const',
      List.sum_replicate, nsmul_zero, add_zero]
  rw [hpart, exactSum, List.map_map, List.map_map]
  refine List.sum_le_sum fun share hmem => ?_
  have hnonneg := value_nonneg_of_overflow hlimit hlength hpassed hover hmem
  simp only [Function.comp_apply]
  split
  · rename_i hmarked
    cases hcapped : share.capped with
    | true => rw [value_of_capped hpassed hmem hcapped]
    | false =>
        have hlt : limit < share.value := by
          simpa [Share.mark, Share.overflows, hcapped] using hmarked
        exact ((lt_iff_value_lt hlimit.within.isFinite
          (isFinite_value hlimit hlength hpassed hmem)).mp hlt).le
  · exact hnonneg

theorem freeCount_pos_of_overflow (hover : shares.any (·.overflows limit) = true) :
    0 < freeCount shares :=
  (Nat.zero_le _).trans_lt (freeCount_capPass_lt hover)

theorem balanced_capPass (hlimit : Limit limit) (hlength : shares.length ≤ 2 ^ 20)
    (hbalanced : Balanced limit shares) (hsound : ¬Vanishing shares)
    (hover : shares.any (·.overflows limit) = true) : Balanced limit (capPass limit shares) where
  passed := passed_capPass hbalanced.passed
  base_near := by
    rw [map_base_capPass]
    exact hbalanced.base_near
  part_le := by
    have hnear := nearOne_values hlimit hlength hbalanced hsound (freeCount_pos_of_overflow hover)
    have hsum := (abs_le.mp hnear.sum_near).1
    have hpart := cappedPart_capPass_le hlimit hlength hbalanced.passed hover
    linarith

theorem balanced_capPasses (hlimit : Limit limit) (hlength : shares.length ≤ 2 ^ 20)
    (hbalanced : Balanced limit shares) {passes : ℕ}
    (hsound : ∀ pass < passes, ¬Vanishing (capPasses limit pass shares)) :
    Balanced limit (capPasses limit passes shares) := by
  -- The last pass is split off and not the first, since the shares before it must not vanish.
  induction passes with
  | zero => exact hbalanced
  | succ passes ih =>
      have hbefore := ih fun pass hpass => hsound pass (hpass.trans passes.lt_succ_self)
      rw [capPasses_succ_last]
      split
      · rename_i hover
        exact balanced_capPass hlimit (by rwa [length_capPasses]) hbefore
          (hsound passes passes.lt_succ_self) hover
      · exact hbefore

/-- Shares that are all capped come to the limit times their number, which is one at least where
equal shares are not given at once. -/
theorem nearOne_last (hlimit : Limit limit) (hlength : shares.length ≤ 2 ^ 20)
    (hbalanced : Balanced limit shares) (hsound : ¬Vanishing shares)
    (hroom : 1 ≤ value limit * shares.length) : NearOne (shares.map (·.value)) := by
  rcases Nat.eq_zero_or_pos (freeCount shares) with hnone | hfree
  · -- Nothing makes up for the rounding here, but the capped part is bounded from both sides.
    have hcapped : ∀ share ∈ shares, share.capped = true := by
      simpa [freeCount, List.countP_eq_zero] using hnone
    have hvalues : shares.map (·.value) = List.replicate shares.length limit := by
      rw [List.map_congr_left fun share hmem =>
        value_of_capped hbalanced.passed hmem (hcapped share hmem), List.map_const']
    have hpart := hbalanced.part_le
    rw [cappedPart, List.countP_eq_length.mpr hcapped] at hpart
    have hsum : exactSum (shares.map (·.value)) = value limit * shares.length := by
      rw [hvalues, exactSum, List.map_replicate, List.sum_replicate, nsmul_eq_mul, mul_comm]
    have hsize : exactSize (shares.map (·.value)) = exactSum (shares.map (·.value)) := by
      refine exactSize_of_nonneg fun x hmem => ?_
      rw [hvalues] at hmem
      rw [List.eq_of_mem_replicate hmem]
      exact hlimit.pos.le
    constructor
    · rw [hsum, abs_le]
      constructor <;> linarith
    · rw [hsize, hsum]
      unfold tolerance at hpart
      linarith
  · exact nearOne_values hlimit hlength hbalanced hsound hfree

end Passes

section Shares

variable {limit : Float} {weights : List Float}

theorem total_boundedTotal (weights : List Float) :
    (boundedTotal weights).2 = total (boundedTotal weights).1 := by
  simp only [boundedTotal]
  split <;> rfl

theorem nearOne_equalShares {count : ℕ} (hpos : 0 < count) (hcount : count ≤ 2 ^ 20) :
    NearOne (equalShares count : List Float) := by
  have hnonneg : ∀ x ∈ (equalShares count : List Float), 0 ≤ value x :=
    fun x hmem => (equalShares_isSize (by omega) x hmem).nonneg
  refine nearOne_of_nonneg hnonneg ?_
  obtain ⟨hfinite, hvalue⟩ := value_ofNat (show count < 2 ^ 53 by omega)
  have hpositive : (0 : ℚ) < count := by exact_mod_cast hpos
  have hshare : (1 / Scalar.ofNat count : Float).isFinite = true :=
    (equalShares_isSize (by omega) _ (List.mem_replicate.mpr ⟨hpos.ne', rfl⟩)).isFinite
  have hgives := gives_div value_one.1 hfinite (by rw [hvalue]; exact hpositive.ne')
  rw [value_one.2, hvalue] at hgives
  have herror := abs_sub_le (hgives.nearest hshare)
  have hsum : exactSum (equalShares count) = count * value (1 / Scalar.ofNat count) := by
    rw [equalShares, exactSum, List.map_replicate, List.sum_replicate, nsmul_eq_mul]
  have hleast := mul_leastError_le hcount
  calc |1 - exactSum (equalShares count)|
      = count * |1 / (count : ℚ) - value (1 / Scalar.ofNat count)| := by
        rw [hsum, ← abs_of_pos hpositive, ← abs_mul, abs_of_pos hpositive, mul_sub,
          mul_one_div_cancel hpositive.ne']
    _ ≤ count * (|1 / (count : ℚ)| / 2 ^ 53 + leastError) :=
        mul_le_mul_of_nonneg_left herror hpositive.le
    _ = 1 / 2 ^ 53 + count * leastError := by
        rw [abs_of_pos (one_div_pos.mpr hpositive), mul_add, ← mul_div_assoc,
          mul_one_div_cancel hpositive.ne']
    _ ≤ 1 / 2 ^ 32 := by linarith

theorem baseShares_near {scaled : List Float} {sum : Float} (htotalled : Totalled scaled sum)
    (hsum : sum = total scaled) (hpos : 0 < value sum) (hlength : scaled.length ≤ 2 ^ 20) :
    |1 - exactSum (scaled.map (· / sum))| ≤ 1 / 2 ^ 32 := by
  have htotal : |exactSum scaled - value sum| ≤ value sum / 2 ^ 33 := by
    rw [hsum]
    exact total_relative_of_length htotalled.isSize (hsum ▸ htotalled.isFinite) hlength
  have hterm : ∀ x ∈ scaled,
      |value x * (1 / value sum) - value (x / sum)| ≤
        value x * (1 / value sum / 2 ^ 53) + leastError := by
    intro x hmem
    obtain ⟨hfinite, hnonneg⟩ := htotalled.isSize x hmem
    have hquotient := div_within ⟨hfinite, hnonneg⟩ htotalled.isFinite hpos (htotalled.le x hmem)
    have herror := abs_sub_le ((gives_div hfinite htotalled.isFinite hpos.ne').nearest
      hquotient.isFinite)
    rwa [abs_of_nonneg (div_nonneg hnonneg hpos.le), ← mul_one_div (value x), mul_div_assoc]
      at herror
  have hterms := abs_sum_sub_sum_le hterm
  have hshares : exactSum (scaled.map (· / sum)) = (scaled.map fun x => value (x / sum)).sum := by
    rw [exactSum, List.map_map]
    rfl
  rw [sum_map_add_const, List.sum_map_mul_right, List.sum_map_mul_right, ← hshares, ← exactSum]
    at hterms
  have hleast := mul_leastError_le hlength
  generalize exactSum (scaled.map (· / sum)) = shares at *
  generalize exactSum scaled = exact at *
  generalize value sum = whole at *
  have hratio : |1 - exact / whole| ≤ 1 / 2 ^ 33 :=
    abs_one_sub_div_le hpos (by rwa [mul_one_div])
  rw [← mul_div_assoc exact (1 / whole), mul_one_div] at hterms
  generalize exact / whole = ratio at *
  have hratioLe := (abs_le.mp hratio).1
  calc |1 - shares| ≤ |1 - ratio| + |ratio - shares| := abs_sub_le _ _ _
    _ ≤ 1 / 2 ^ 32 := by linarith

theorem one_le_of_not_le (hlimit : Limit limit) {count : ℕ} (hcount : count ≤ 2 ^ 20)
    (hroom : ¬limit * Scalar.ofNat count ≤ 1) : 1 ≤ value limit * count := by
  by_contra hless
  obtain ⟨hfinite, hvalue⟩ := value_ofNat (show count < 2 ^ 53 by omega)
  have hgives := gives_mul hlimit.within.isFinite hfinite
  rw [hvalue] at hgives
  have hwithin := hgives.within representable_zero representable_one
    (mul_nonneg hlimit.pos.le (Nat.cast_nonneg _)) (not_le.mp hless).le
  refine hroom ((le_iff_value_le hwithin.isFinite value_one.1).mpr ?_)
  rw [value_one.2]
  exact hwithin.le_high

theorem balanced_first {base : List Float} (hbase : ∀ share ∈ base, Within 0 1 share)
    (hnear : |1 - exactSum base| ≤ 1 / 2 ^ 32) : Balanced limit (firstShares base) where
  passed := passed_first hbase
  base_near := by
    have hbases : (firstShares base).map (·.base) = base := by
      rw [firstShares, List.map_map]
      exact List.map_id base
    rwa [hbases]
  part_le := by
    have hnone : (firstShares base).countP (·.capped) = 0 := by
      simp [firstShares, List.countP_eq_zero]
    rw [cappedPart, hnone, Nat.cast_zero, mul_zero, tolerance]
    norm_num

theorem nearOne_cappedShares (hlimit : Limit limit) (hne : weights ≠ [])
    (hlength : weights.length ≤ 2 ^ 20) (hweights : ∀ weight ∈ weights, IsSize weight)
    (hsound : ∀ pass ≤ weights.length, ¬Vanishing (sharesAfter limit weights pass)) :
    NearOne (cappedShares limit weights) := by
  have hequal : NearOne (equalShares weights.length : List Float) :=
    nearOne_equalShares (List.length_pos_of_ne_nil hne) hlength
  cases hsum : ((boundedTotal weights).2 == 0) with
  | true =>
      rw [show cappedShares limit weights = equalShares weights.length from if_pos hsum]
      exact hequal
  | false =>
      by_cases hroom : limit * Scalar.ofNat weights.length ≤ 1
      · rw [cappedShares_eq_equalShares hsum hroom]
        exact hequal
      · rw [cappedShares_eq_map_value hsum hroom not_lt_of_double_le]
        simp only [sharesAfter_eq hsum hroom] at hsound ⊢
        have hfirst : Balanced limit (firstShares ((boundedTotal weights).1.map
            (· / (boundedTotal weights).2))) :=
          balanced_first (baseShares_within hweights hsum)
            (baseShares_near (totalled_boundedTotal hweights) (total_boundedTotal weights)
              (boundedTotal_pos hweights hsum) (by rwa [length_boundedTotal]))
        have hcount : (firstShares ((boundedTotal weights).1.map
            (· / (boundedTotal weights).2))).length = weights.length := by
          rw [firstShares, List.length_map, List.length_map, length_boundedTotal]
        apply nearOne_last hlimit
        · rwa [length_capPasses, hcount]
        · exact balanced_capPasses hlimit (hcount.le.trans hlength) hfirst
            fun pass hpass => hsound pass hpass.le
        · exact hsound weights.length le_rfl
        · rw [length_capPasses, hcount]
          exact one_le_of_not_le hlimit hlength hroom

end Shares

/-- Shares of at most `2 ^ 20` weights that are not negative are given under every limit in
`(0, 1]`, and they sum to one unless free shares that vanish are left on the way. -/
theorem normalizeCapped_sumsToOne {weights : List Float} {limit : Float} (hne : weights ≠ [])
    (hlength : weights.length ≤ 2 ^ 20)
    (hweights : ∀ weight ∈ weights, weight.isFinite = true ∧ ¬weight < 0) (hpos : 0 < limit)
    (hle : limit ≤ 1) :
    ∃ shares, normalizeCapped weights limit = .ok shares ∧
      ((∀ pass ≤ weights.length, ¬Vanishing (sharesAfter limit weights pass)) →
        SumsToOne shares) := by
  have hlimit := limit_of_between hpos hle
  have hsizes : ∀ weight ∈ weights, IsSize weight :=
    fun weight hmem => isSize_iff.mpr (hweights weight hmem)
  refine ⟨cappedShares limit weights,
    normalizeCapped_eq_ok_iff.mpr ⟨⟨hpos, hle⟩, hweights, rfl⟩, fun hsound => ?_⟩
  have hfinite := (sizesUnless_cappedShares hlimit (by omega) hsizes).isFinite
  exact sumsToOne_of_nearOne hfinite (by rwa [length_cappedShares])
    (nearOne_cappedShares hlimit hne hlength hsizes hsound)

theorem normalizeCapped_sumsToOne_two_passes :
    ∃ shares, normalizeCapped ([100, 28, 1, 1, 1, 1] : List Float) 0.3 = .ok shares ∧
      SumsToOne shares := by
  have hnormal : ∀ pass ≤ 6,
      (sharesAfter (0.3 : Float) [100, 28, 1, 1, 1, 1] pass).length ≤ 2 ^ 20 ∧
        (freeBase (sharesAfter (0.3 : Float) [100, 28, 1, 1, 1, 1] pass)).isFinite = true ∧
          smallestNormal ≤ freeBase (sharesAfter (0.3 : Float) [100, 28, 1, 1, 1, 1] pass) := by
    decide +kernel
  obtain ⟨shares, hshares, hsum⟩ := @normalizeCapped_sumsToOne [100, 28, 1, 1, 1, 1] 0.3
    (List.cons_ne_nil _ _) (by decide) (by decide +kernel) (by decide +kernel) (by decide +kernel)
  refine ⟨shares, hshares, hsum fun pass hpass => ?_⟩
  obtain ⟨hlength, hfinite, hlarge⟩ := hnormal pass hpass
  exact not_vanishing_of_normal hlength hfinite hlarge

/-- The free share that vanishes is the smallest double. Its product with what is left over is zero,
so that the capped share stays alone. -/
theorem normalizeCapped_not_sumsToOne :
    normalizeCapped ([1e300, 5e-24] : List Float) 0.6 = .ok [0.6, 0] ∧
      ¬SumsToOne ([0.6, 0] : List Float) := by
  refine ⟨by decide +kernel, ?_⟩
  rintro ⟨hfinite, hnear⟩
  have hquarters : (3 / 4 : Float).isFinite = true ∧ value (3 / 4) = 3 / 4 := by
    obtain ⟨hthree, hvalueThree⟩ := value_ofNat (show 3 < 2 ^ 53 by norm_num)
    obtain ⟨hfour, hvalueFour⟩ := value_ofNat (show 4 < 2 ^ 53 by norm_num)
    have hgives := gives_div hthree hfour (by rw [hvalueFour]; norm_num)
    rw [hvalueThree, hvalueFour] at hgives
    refine hgives.value_eq ⟨⟨3, -2, by norm_num, by norm_num, by norm_num⟩, ?_⟩
    calc |((3 : ℕ) / (4 : ℕ) : ℚ)| < 1 := by norm_num [abs_of_pos]
      _ < 2 ^ 1024 := one_lt_pow₀ (by norm_num) (by norm_num)
  have hbelow : total ([0.6, 0] : List Float) ≤ 3 / 4 := by decide +kernel
  rw [le_iff_value_le hfinite hquarters.1, hquarters.2] at hbelow
  have hlow := (abs_le.mp hnear).1
  linarith

end Apportion.Proofs.Weights.SumOfShares
