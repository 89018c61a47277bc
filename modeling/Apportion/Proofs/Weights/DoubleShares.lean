import Apportion.Proofs.Number.DoubleSums
import Apportion.Proofs.Weights.CapPasses

/-!
Shares of one in doubles. Every number that the rules on shares come by is finite. A share can fall
below zero in one way only: the limit, multiplied by the number of capped shares and rounded,
exceeds one, so that less than nothing is left for the other shares.
-/

namespace Apportion.Proofs.Weights.DoubleShares

open Apportion.Number.Arithmetic
open Apportion.Weights.Normalization
open Apportion.Proofs.Number.DoubleGrid
open Apportion.Proofs.Number.Doubles
open Apportion.Proofs.Number.DoubleSums
open Apportion.Proofs.Weights.CapPasses

theorem larger_bounds {x y : Float} (hx : IsSize x) (hy : IsSize y) :
    IsSize (larger x y) ∧ value x ≤ value (larger x y) ∧ value y ≤ value (larger x y) := by
  unfold larger
  split
  · rename_i hlt
    exact ⟨hy, ((lt_iff_value_lt hx.1 hy.1).mp hlt).le, le_rfl⟩
  · rename_i hge
    exact ⟨hx, le_rfl, not_lt.mp (mt (lt_iff_value_lt hx.1 hy.1).mpr hge)⟩

theorem peak_bounds {values : List Float} (hvalues : ∀ x ∈ values, IsSize x) :
    IsSize (peak values) ∧ ∀ x ∈ values, value x ≤ value (peak values) := by
  suffices hfold : ∀ {start : Float}, IsSize start →
      IsSize (values.foldl larger start) ∧ value start ≤ value (values.foldl larger start) ∧
        ∀ x ∈ values, value x ≤ value (values.foldl larger start) by
    obtain ⟨husable, _, hterms⟩ := hfold ⟨value_zero.1, value_zero.2.ge⟩
    exact ⟨husable, hterms⟩
  induction values with
  | nil =>
      intro start hstart
      exact ⟨hstart, le_rfl, fun x hmem => absurd hmem List.not_mem_nil⟩
  | cons x values ih =>
      intro start hstart
      obtain ⟨hnext, hkept, hfirst⟩ := larger_bounds hstart (hvalues x (by simp))
      obtain ⟨husable, hstep, hothers⟩ :=
        ih (fun other hmem => hvalues other (by simp [hmem])) hnext
      refine ⟨husable, hkept.trans hstep, ?_⟩
      intro other hmem
      rcases List.mem_cons.mp hmem with rfl | hmem
      · exact hfirst.trans hstep
      · exact hothers other hmem

theorem larger_eq_or (x y : Float) : larger x y = x ∨ larger x y = y := by
  unfold larger
  split
  · exact .inr rfl
  · exact .inl rfl

theorem peak_mem {values : List Float} (hpos : 0 < value (peak values)) :
    peak values ∈ values := by
  suffices hfold : ∀ start, values.foldl larger start ∈ start :: values by
    rcases List.mem_cons.mp (hfold 0) with hzero | hmem
    · rw [peak, hzero] at hpos
      exact absurd value_zero.2 hpos.ne'
    · exact hmem
  clear hpos
  induction values with
  | nil =>
      intro start
      exact List.mem_cons_self
  | cons x values ih =>
      intro start
      rcases List.mem_cons.mp (ih (larger start x)) with hkept | hlater
      · rw [List.foldl_cons, hkept]
        rcases larger_eq_or start x with hstart | hnext
        · simp [hstart]
        · simp [hnext]
      · exact List.mem_cons_of_mem _ (List.mem_cons_of_mem _ hlater)

/-- The total is finite, and no weight is negative or larger than it. -/
structure Totalled (weights : List Float) (sum : Float) : Prop where
  isFinite : sum.isFinite = true
  nonneg : 0 ≤ value sum
  isSize : ∀ weight ∈ weights, IsSize weight
  le : ∀ weight ∈ weights, value weight ≤ value sum

theorem div_within {x y : Float} (hx : IsSize x) (hy : y.isFinite = true) (hpos : 0 < value y)
    (hle : value x ≤ value y) : Within 0 1 (x / y) :=
  (gives_div hx.1 hy hpos.ne').within representable_zero representable_one
    (div_nonneg hx.2 hpos.le) ((div_le_one hpos).mpr hle)

theorem totalled_boundedTotal {weights : List Float}
    (hweights : ∀ weight ∈ weights, IsSize weight) :
    Totalled (boundedTotal weights).1 (boundedTotal weights).2 := by
  simp only [boundedTotal]
  split
  · rename_i hfinite
    obtain ⟨hnonneg, hterms⟩ := total_bounds hweights hfinite
    exact ⟨hfinite, hnonneg, hweights, hterms⟩
  · rename_i hinfinite
    obtain ⟨hpeak, hterms⟩ := peak_bounds hweights
    have hpos : 0 < value (peak weights) := by
      by_contra hzero
      refine hinfinite (total_within fun weight hmem => ?_).isFinite
      obtain ⟨hfinite, hnonneg⟩ := hweights weight hmem
      exact ⟨hfinite, hnonneg, by linarith [hterms weight hmem]⟩
    have hscaled : ∀ weight ∈ weights.map (· / peak weights), Within 0 1 weight := by
      intro weight hmem
      obtain ⟨original, horiginal, rfl⟩ := List.mem_map.mp hmem
      exact div_within (hweights original horiginal) hpeak.isFinite hpos (hterms original horiginal)
    have hsum := total_within hscaled
    obtain ⟨hnonneg, hle⟩ :=
      total_bounds (fun weight hmem => (hscaled weight hmem).isSize) hsum.isFinite
    exact ⟨hsum.isFinite, hnonneg, fun weight hmem => (hscaled weight hmem).isSize, hle⟩

/-- Not all weights are lost when they are scaled down, since the largest of them becomes one. -/
theorem boundedTotal_ne_zero {weights : List Float} (hweights : ∀ weight ∈ weights, IsSize weight)
    (hsome : ∃ weight ∈ weights, 0 < value weight) : ((boundedTotal weights).2 == 0) = false := by
  have htotalled := totalled_boundedTotal hweights
  obtain ⟨part, hpart, hpos⟩ : ∃ part ∈ (boundedTotal weights).1, 0 < value part := by
    simp only [boundedTotal]
    split
    · exact hsome
    · obtain ⟨weight, hmem, hweight⟩ := hsome
      obtain ⟨hpeak, hterms⟩ := peak_bounds hweights
      have hpeakPos := hweight.trans_le (hterms weight hmem)
      refine ⟨peak weights / peak weights, List.mem_map_of_mem (peak_mem hpeakPos), ?_⟩
      rw [double_div_self hpeak.isFinite hpeakPos.ne', value_one.2]
      exact one_pos
  rw [Bool.eq_false_iff]
  intro hzero
  rw [beq_iff_value_eq htotalled.isFinite value_zero.1, value_zero.2] at hzero
  linarith [htotalled.le part hpart]

theorem ofNat_within {count : ℕ} (hcount : count < 2 ^ 64) :
    Within 0 (2 ^ 64) (Float.ofNat count) :=
  (gives_ofNat count).within representable_zero (representable_two_pow (by norm_num))
    (Nat.cast_nonneg count) (by exact_mod_cast hcount.le)

theorem one_le_value_ofNat {count : ℕ} (hcount : count < 2 ^ 64) (hpos : 0 < count) :
    1 ≤ value (Float.ofNat count) :=
  ((gives_ofNat count).nearest (ofNat_within hcount).isFinite).ge_of_ge onGrid_one
    (by exact_mod_cast hpos)

structure Limit (limit : Float) : Prop where
  within : Within 0 1 limit
  pos : 0 < value limit

theorem limit_of_between {limit : Float} (hpos : 0 < limit) (hle : limit ≤ 1) : Limit limit := by
  have hwithin := within_zero_one_iff.mpr ⟨le_of_double_lt hpos, hle⟩
  rw [lt_iff_value_lt value_zero.1 hwithin.isFinite, value_zero.2] at hpos
  exact ⟨hwithin, hpos⟩

section Passes

variable {limit : Float} {shares : List (Share Float)}

def cappedMass (limit : Float) (shares : List (Share Float)) : Float :=
  limit * Float.ofNat (shares.countP (·.capped))

theorem cappedMass_within (hlimit : Limit limit) (hlength : shares.length < 2 ^ 64) :
    Within 0 (2 ^ 64) (cappedMass limit shares) := by
  have hcount := ofNat_within ((List.countP_le_length (p := (·.capped))).trans_lt hlength)
  refine (gives_mul hlimit.within.isFinite hcount.isFinite).within representable_zero
    (representable_two_pow (by norm_num)) (mul_nonneg hlimit.pos.le hcount.low_le) ?_
  calc value limit * value (Float.ofNat (shares.countP (·.capped)))
      ≤ 1 * value (Float.ofNat (shares.countP (·.capped))) :=
        mul_le_mul_of_nonneg_right hlimit.within.le_high hcount.low_le
    _ ≤ 2 ^ 64 := by linarith [hcount.le_high]

theorem not_one_lt_cappedMass (hlimit : Limit limit) (hnone : shares.countP (·.capped) = 0) :
    ¬1 < cappedMass limit shares := by
  have hgives := gives_mul hlimit.within.isFinite value_zero.1
  rw [value_zero.2, mul_zero] at hgives
  obtain ⟨hfinite, hzero⟩ := hgives.value_eq representable_zero
  intro hmass
  rw [cappedMass, hnone] at hmass
  have hone := (lt_iff_value_lt value_one.1 hfinite).mp hmass
  rw [value_one.2, hzero] at hone
  linarith

theorem gives_freeMass (hlimit : Limit limit) (hlength : shares.length < 2 ^ 64) :
    Gives (1 - value (cappedMass limit shares)) (freeMass limit shares) := by
  have hgives := gives_sub value_one.1 (cappedMass_within hlimit hlength).isFinite
  rwa [value_one.2] at hgives

theorem freeMass_within (hlimit : Limit limit) (hlength : shares.length < 2 ^ 64) :
    Within (-2 ^ 64) 1 (freeMass limit shares) := by
  have hmass := cappedMass_within hlimit hlength
  exact (gives_freeMass hlimit hlength).within (representable_two_pow (by norm_num)).neg
    representable_one (by linarith [hmass.le_high]) (by linarith [hmass.low_le])

theorem freeMass_nonneg (hlimit : Limit limit) (hlength : shares.length < 2 ^ 64)
    (hmass : ¬1 < cappedMass limit shares) : 0 ≤ value (freeMass limit shares) := by
  rw [lt_iff_value_lt value_one.1 (cappedMass_within hlimit hlength).isFinite, value_one.2] at hmass
  exact ((gives_freeMass hlimit hlength).nearest
    (freeMass_within hlimit hlength).isFinite).nonneg (by linarith)

theorem freeMass_nonpos (hlimit : Limit limit) (hlength : shares.length < 2 ^ 64)
    (hmass : 1 < cappedMass limit shares) : value (freeMass limit shares) ≤ 0 := by
  rw [lt_iff_value_lt value_one.1 (cappedMass_within hlimit hlength).isFinite, value_one.2] at hmass
  exact ((gives_freeMass hlimit hlength).nearest
    (freeMass_within hlimit hlength).isFinite).nonpos (by linarith)

theorem freeBase_bounds (hbase : ∀ share ∈ shares, Within 0 1 share.base) :
    Within 0 (2 ^ 54) (freeBase shares) ∧
      ∀ share ∈ shares, share.capped = false → value share.base ≤ value (freeBase shares) := by
  have hfree : ∀ base ∈ (shares.filter (!·.capped)).map (·.base), Within 0 1 base := by
    intro base hmem
    obtain ⟨share, hshare, rfl⟩ := List.mem_map.mp hmem
    exact hbase share (List.mem_filter.mp hshare).1
  have hwithin := total_within hfree
  refine ⟨hwithin, ?_⟩
  intro share hmem hcapped
  refine (total_bounds (fun base hbase => (hfree base hbase).isSize) hwithin.isFinite).2 _ ?_
  exact List.mem_map.mpr ⟨share, List.mem_filter.mpr ⟨hmem, by simp [hcapped]⟩, rfl⟩

theorem mul_freeMass_bounds (hlimit : Limit limit) (hlength : shares.length < 2 ^ 64) {base : Float}
    (hbase : Within 0 1 base) :
    Within (-(2 ^ 64 * value base)) (value base) (base * freeMass limit shares) ∧
      (0 ≤ value (freeMass limit shares) → 0 ≤ value (base * freeMass limit shares)) ∧
      (value (freeMass limit shares) ≤ 0 → value (base * freeMass limit shares) ≤ 0) := by
  obtain ⟨hmassFinite, hmassGe, hmassLe⟩ := freeMass_within hlimit hlength
  obtain ⟨hfinite, hnonneg, hone⟩ := hbase
  have hlow : Representable (-(2 ^ 64 * value base)) := by
    refine Representable.neg ⟨onGrid_two_pow_mul (onGrid_value hfinite) 64, ?_⟩
    rw [abs_of_nonneg (by positivity)]
    calc 2 ^ 64 * value base ≤ 2 ^ 64 := by linarith
      _ < 2 ^ 1024 := pow_lt_pow_right₀ (by norm_num) (by norm_num)
  have hgives := gives_mul hfinite hmassFinite
  have hwithin := hgives.within hlow (representable_value hfinite) (by nlinarith) (by nlinarith)
  have hnearest := hgives.nearest hwithin.isFinite
  exact ⟨hwithin, fun hpos => hnearest.nonneg (mul_nonneg hnonneg hpos),
    fun hneg => hnearest.nonpos (mul_nonpos_of_nonneg_of_nonpos hnonneg hneg)⟩

theorem spreadValue_bounds (hlimit : Limit limit) (hlength : shares.length < 2 ^ 64)
    (hbase : ∀ share ∈ shares, Within 0 1 share.base) {share : Share Float} (hmem : share ∈ shares)
    (hcapped : share.capped = false) :
    Within (-2 ^ 64) 1 (spreadValue limit shares share) ∧
      (0 ≤ value (freeMass limit shares) → 0 ≤ value (spreadValue limit shares share)) ∧
      (value (freeMass limit shares) ≤ 0 → value (spreadValue limit shares share) ≤ 0) := by
  obtain ⟨hfree, hterms⟩ := freeBase_bounds hbase
  -- Either way the share is a quotient whose numerator is bounded by its divisor.
  suffices hquotient : ∀ {part whole : Float}, part.isFinite = true → whole.isFinite = true →
      0 < value whole → -(2 ^ 64 * value whole) ≤ value part → value part ≤ value whole →
      Within (-2 ^ 64) 1 (part / whole) ∧ (0 ≤ value part → 0 ≤ value (part / whole)) ∧
        (value part ≤ 0 → value (part / whole) ≤ 0) by
    rw [spreadValue, if_neg (by simp [hcapped])]
    split
    · rename_i hpos
      rw [lt_iff_value_lt value_zero.1 hfree.isFinite, value_zero.2] at hpos
      have hterm := hterms share hmem hcapped
      obtain ⟨hpart, hpartPos, hpartNeg⟩ := mul_freeMass_bounds hlimit hlength (hbase share hmem)
      obtain ⟨hwithin, hnonneg, hnonpos⟩ := hquotient hpart.isFinite hfree.isFinite hpos
        (by linarith [hpart.low_le]) (hpart.le_high.trans hterm)
      exact ⟨hwithin, fun h => hnonneg (hpartPos h), fun h => hnonpos (hpartNeg h)⟩
    · have hmass := freeMass_within hlimit hlength
      have hcount : freeCount shares < 2 ^ 64 := List.countP_le_length.trans_lt hlength
      have hsome : 0 < freeCount shares :=
        List.countP_pos_iff.mpr ⟨share, hmem, by simp [hcapped]⟩
      have hone : 1 ≤ value (Scalar.ofNat (freeCount shares)) := one_le_value_ofNat hcount hsome
      exact hquotient hmass.isFinite (ofNat_within hcount).isFinite (by linarith)
        (by linarith [hmass.low_le]) (hmass.le_high.trans hone)
  intro part whole hpart hwhole hpos hge hle
  have hgives := gives_div hpart hwhole hpos.ne'
  have hwithin := hgives.within (representable_two_pow (show 64 < 1024 by norm_num)).neg
    representable_one (by rw [le_div_iff₀ hpos]; linarith) ((div_le_one hpos).mpr hle)
  have hnearest := hgives.nearest hwithin.isFinite
  exact ⟨hwithin, fun h => hnearest.nonneg (div_nonneg h hpos.le),
    fun h => hnearest.nonpos (div_nonpos_of_nonpos_of_nonneg h hpos.le)⟩

/-- What the passes keep: base shares between zero and one, which each share has at first, and after
a pass the value that it gets when the shares are spread. -/
structure Passed (limit : Float) (shares : List (Share Float)) : Prop where
  base : ∀ share ∈ shares, Within 0 1 share.base
  value : (∀ share ∈ shares, share.capped = false ∧ share.value = share.base) ∨
    ∀ share ∈ shares, share.value = spreadValue limit shares share

theorem passed_capPass (hpassed : Passed limit shares) : Passed limit (capPass limit shares) where
  base := by
    have hbases : ∀ base ∈ (capPass limit shares).map (·.base), Within 0 1 base := by
      rw [map_base_capPass]
      intro base hmem
      obtain ⟨share, hshare, rfl⟩ := List.mem_map.mp hmem
      exact hpassed.base share hshare
    intro share hmem
    exact hbases _ (List.mem_map_of_mem hmem)
  value := .inr fun _ hmem => value_of_mem_spread hmem

/-- The capped shares are worth more than one together, and a share that is not capped pays for
it. -/
def Overdrawn (limit : Float) (shares : List (Share Float)) : Prop :=
  1 < cappedMass limit shares ∧ ∃ share ∈ shares, share.capped = false ∧ (share.value == 0) = false

theorem not_overdrawn_nil : ¬Overdrawn limit [] := by
  rintro ⟨_, share, hmem, _⟩
  exact List.not_mem_nil hmem

/-- Finite values of which none is negative, unless one case holds and one of them is. -/
structure SizesUnless (fails : Prop) (values : List Float) : Prop where
  isFinite : ∀ x ∈ values, x.isFinite = true
  isSize : ¬fails → ∀ x ∈ values, IsSize x
  negative : fails → ∃ x ∈ values, x < 0

theorem sizesUnless_of_isSize {fails : Prop} {values : List Float} (hsound : ¬fails)
    (hvalues : ∀ x ∈ values, IsSize x) : SizesUnless fails values where
  isFinite x hmem := (hvalues x hmem).isFinite
  isSize _ := hvalues
  negative hfails := absurd hfails hsound

theorem sizesUnless_first (hlimit : Limit limit) (hbase : ∀ share ∈ shares, Within 0 1 share.base)
    (hfirst : ∀ share ∈ shares, share.capped = false ∧ share.value = share.base) :
    SizesUnless (Overdrawn limit shares) (shares.map (·.value)) := by
  apply sizesUnless_of_isSize
  · rintro ⟨hmass, _⟩
    have hnone : shares.countP (·.capped) = 0 := by
      rw [List.countP_eq_zero]
      intro share hmem
      simp [(hfirst share hmem).1]
    exact not_one_lt_cappedMass hlimit hnone hmass
  · intro x hmem
    obtain ⟨share, hshare, rfl⟩ := List.mem_map.mp hmem
    rw [(hfirst share hshare).2]
    exact (hbase share hshare).isSize

theorem capped_or_bounds (hlimit : Limit limit) (hlength : shares.length < 2 ^ 64)
    (hbase : ∀ share ∈ shares, Within 0 1 share.base) {share : Share Float} (hmem : share ∈ shares)
    (hspread : share.value = spreadValue limit shares share) :
    share.value = limit ∨
      share.capped = false ∧ Within (-2 ^ 64) 1 share.value ∧
        (0 ≤ value (freeMass limit shares) → 0 ≤ value share.value) ∧
        (value (freeMass limit shares) ≤ 0 → value share.value ≤ 0) := by
  cases hcapped : share.capped with
  | true =>
      left
      rw [hspread, spreadValue, if_pos hcapped]
  | false =>
      right
      rw [hspread]
      exact ⟨rfl, spreadValue_bounds hlimit hlength hbase hmem hcapped⟩

theorem isSize_of_not_overdrawn (hlimit : Limit limit) (hlength : shares.length < 2 ^ 64)
    (hbase : ∀ share ∈ shares, Within 0 1 share.base) {share : Share Float} (hmem : share ∈ shares)
    (hspread : share.value = spreadValue limit shares share) (hsound : ¬Overdrawn limit shares) :
    IsSize share.value := by
  rcases capped_or_bounds hlimit hlength hbase hmem hspread with
    hcapped | ⟨hfree, hwithin, hnonneg, -⟩
  · rw [hcapped]
    exact hlimit.within.isSize
  · refine ⟨hwithin.isFinite, ?_⟩
    by_cases hmass : 1 < cappedMass limit shares
    · have hzero : (share.value == 0) = true := by
        by_contra hvalue
        exact hsound ⟨hmass, share, hmem, hfree, Bool.eq_false_iff.mpr hvalue⟩
      rw [beq_iff_value_eq hwithin.isFinite value_zero.1, value_zero.2] at hzero
      exact hzero.ge
    · exact hnonneg (freeMass_nonneg hlimit hlength hmass)

theorem sizesUnless_spread (hlimit : Limit limit) (hlength : shares.length < 2 ^ 64)
    (hbase : ∀ share ∈ shares, Within 0 1 share.base)
    (hspread : ∀ share ∈ shares, share.value = spreadValue limit shares share) :
    SizesUnless (Overdrawn limit shares) (shares.map (·.value)) := by
  refine ⟨?_, ?_, ?_⟩
  · intro x hmem
    obtain ⟨share, hshare, rfl⟩ := List.mem_map.mp hmem
    rcases capped_or_bounds hlimit hlength hbase hshare (hspread share hshare) with
      hcapped | ⟨-, hwithin, -, -⟩
    · rw [hcapped]
      exact hlimit.within.isFinite
    · exact hwithin.isFinite
  · intro hsound x hmem
    obtain ⟨share, hshare, rfl⟩ := List.mem_map.mp hmem
    exact isSize_of_not_overdrawn hlimit hlength hbase hshare (hspread share hshare) hsound
  · rintro ⟨hmass, share, hshare, hfree, hvalue⟩
    have hvalueEq := hspread share hshare
    obtain ⟨hwithin, -, hnonpos⟩ := spreadValue_bounds hlimit hlength hbase hshare hfree
    rw [← hvalueEq] at hwithin hnonpos
    refine ⟨share.value, List.mem_map_of_mem hshare, ?_⟩
    rw [lt_iff_value_lt hwithin.isFinite value_zero.1, value_zero.2]
    refine lt_of_le_of_ne (hnonpos (freeMass_nonpos hlimit hlength hmass)) ?_
    intro hzero
    have hequal := hzero.trans value_zero.2.symm
    rw [(beq_iff_value_eq hwithin.isFinite value_zero.1).mpr hequal] at hvalue
    cases hvalue

theorem sizesUnless_of_passed (hlimit : Limit limit) (hlength : shares.length < 2 ^ 64)
    (hpassed : Passed limit shares) :
    SizesUnless (Overdrawn limit shares) (shares.map (·.value)) := by
  rcases hpassed.value with hfirst | hspread
  · exact sizesUnless_first hlimit hpassed.base hfirst
  · exact sizesUnless_spread hlimit hlength hpassed.base hspread

end Passes

section Shares

variable {limit : Float} {weights : List Float}

theorem equalShares_isSize {count : ℕ} (hcount : count < 2 ^ 64) :
    ∀ share ∈ (equalShares count : List Float), IsSize share := by
  intro share hmem
  obtain ⟨hne, rfl⟩ := List.mem_replicate.mp hmem
  have hone := one_le_value_ofNat hcount (Nat.pos_of_ne_zero hne)
  refine (div_within ⟨value_one.1, ?_⟩ (ofNat_within hcount).isFinite (by linarith) ?_).isSize
  · exact zero_le_one.trans value_one.2.ge
  · exact value_one.2.le.trans hone

theorem passed_first {base : List Float} (hbase : ∀ share ∈ base, Within 0 1 share) :
    Passed limit (firstShares base) where
  base := by
    intro share hmem
    obtain ⟨part, hpart, rfl⟩ := List.mem_map.mp hmem
    exact hbase part hpart
  value := by
    left
    intro share hmem
    obtain ⟨part, hpart, rfl⟩ := List.mem_map.mp hmem
    exact ⟨rfl, rfl⟩

theorem boundedTotal_pos (hweights : ∀ weight ∈ weights, IsSize weight)
    (hsum : ((boundedTotal weights).2 == 0) = false) : 0 < value (boundedTotal weights).2 := by
  have htotalled := totalled_boundedTotal hweights
  refine lt_of_le_of_ne htotalled.nonneg fun hzero => ?_
  rw [(beq_iff_value_eq htotalled.isFinite value_zero.1).mpr
    (hzero.symm.trans value_zero.2.symm)] at hsum
  cases hsum

theorem baseShares_within (hweights : ∀ weight ∈ weights, IsSize weight)
    (hsum : ((boundedTotal weights).2 == 0) = false) :
    ∀ share ∈ (boundedTotal weights).1.map (· / (boundedTotal weights).2), Within 0 1 share := by
  have htotalled := totalled_boundedTotal hweights
  intro share hmem
  obtain ⟨weight, hweight, rfl⟩ := List.mem_map.mp hmem
  exact div_within (htotalled.isSize weight hweight) htotalled.isFinite
    (boundedTotal_pos hweights hsum) (htotalled.le weight hweight)

/-- Limited shares are finite, and none of them is negative unless the last pass leaves them
overdrawn. -/
theorem sizesUnless_cappedShares (hlimit : Limit limit) (hlength : weights.length < 2 ^ 64)
    (hweights : ∀ weight ∈ weights, IsSize weight) :
    SizesUnless (Overdrawn limit (lastShares limit weights)) (cappedShares limit weights) := by
  rcases cappedShares_cases limit weights with
    ⟨hequal, hnone⟩ | ⟨base, hbase, hsum, hshares, hlast⟩
  · rw [hequal, hnone]
    exact sizesUnless_of_isSize not_overdrawn_nil (equalShares_isSize hlength)
  · have hwithin : ∀ share ∈ base, Within 0 1 share := hbase ▸ baseShares_within hweights hsum
    have hcount : base.length = weights.length := by
      rw [hbase, List.length_map, length_boundedTotal]
    rw [hshares, hlast, applyLimit_eq_map_value fun _ _ => not_lt_of_double_le, hcount]
    apply sizesUnless_of_passed hlimit
    · rwa [length_capPasses, firstShares, List.length_map, hcount]
    · exact capPasses_keeps (fun _ hpassed _ => passed_capPass hpassed) _ (passed_first hwithin)

end Shares

end Apportion.Proofs.Weights.DoubleShares
