import Mathlib.Tactic.FieldSimp
import Apportion.Proofs.Number.RoundingErrors
import Apportion.Proofs.Weights.DoubleShares
import Apportion.Proofs.Weights.WaterFilling

namespace Apportion.Proofs.Weights.SpreadErrors

open Apportion.Number.Arithmetic
open Apportion.Weights.Normalization
open Apportion.Proofs.Number.DoubleRounding
open Apportion.Proofs.Number.Doubles
open Apportion.Proofs.Number.RoundingErrors
open Apportion.Proofs.Weights.CapPasses
open Apportion.Proofs.Weights.DoubleShares
open Apportion.Proofs.Weights.WaterFilling

/-- The free base shares are positive but so small that, on average, they have less than twenty bits
above the smallest double. -/
def Vanishing (shares : List (Share Float)) : Prop :=
  0 < value (freeBase shares) ∧
    value (freeBase shares) < freeCount shares * (2 : ℚ) ^ (-1055 : ℤ)

theorem value_ofNat {count : ℕ} (hcount : count < 2 ^ 53) :
    (Scalar.ofNat count : Float).isFinite = true ∧ value (Scalar.ofNat count) = count :=
  (gives_ofNat count).value_eq (representable_natCast hcount)

variable {limit : Float} {shares : List (Share Float)}

/-- The exact size of what the capped shares take. -/
def cappedPart (limit : Float) (shares : List (Share Float)) : ℚ :=
  value limit * shares.countP (·.capped)

theorem cappedPart_nonneg (hlimit : Limit limit) : 0 ≤ cappedPart limit shares :=
  mul_nonneg hlimit.pos.le (Nat.cast_nonneg _)

theorem freeMass_near (hlimit : Limit limit) (hlength : shares.length ≤ 2 ^ 20)
    (hpart : cappedPart limit shares ≤ 2) :
    |1 - cappedPart limit shares - value (freeMass limit shares)| ≤ 1 / 2 ^ 50 ∧
      |value (freeMass limit shares)| ≤ 1 := by
  have hword : shares.length < 2 ^ 64 := by omega
  have hcount : shares.countP (·.capped) ≤ shares.length := List.countP_le_length
  have hleast := leastError_le
  have hnonneg : 0 ≤ cappedPart limit shares := cappedPart_nonneg hlimit
  obtain ⟨hfinite, hvalue⟩ := value_ofNat (show shares.countP (·.capped) < 2 ^ 53 by omega)
  -- What the capped shares take, as it is worked out.
  have hmassGives : Gives (cappedPart limit shares) (cappedMass limit shares) := by
    have hgives := gives_mul hlimit.within.isFinite hfinite
    rwa [hvalue] at hgives
  have htwo : Representable 2 := by
    simpa using representable_two_pow (show 1 < 1024 by norm_num)
  obtain ⟨hmassFinite, hmassGe, hmassLe⟩ :=
    hmassGives.within representable_zero htwo hnonneg hpart
  have hmassError := abs_sub_le (hmassGives.nearest hmassFinite)
  rw [abs_of_nonneg hnonneg] at hmassError
  -- What they leave over.
  have hfreeGives : Gives (1 - value (cappedMass limit shares)) (freeMass limit shares) :=
    gives_freeMass hlimit hword
  obtain ⟨hfreeFinite, hfreeGe, hfreeLe⟩ :=
    hfreeGives.within representable_one.neg representable_one (by linarith) (by linarith)
  have hfreeError := abs_sub_le (hfreeGives.nearest hfreeFinite)
  have hrest : |1 - value (cappedMass limit shares)| ≤ 1 :=
    abs_le.mpr ⟨by linarith, by linarith⟩
  refine ⟨?_, abs_le.mpr ⟨hfreeGe, hfreeLe⟩⟩
  have hfreeSmall : |1 - value (cappedMass limit shares) - value (freeMass limit shares)| ≤
      1 / 2 ^ 53 + 1 / 2 ^ 100 := by linarith
  rw [abs_le] at hmassError hfreeSmall ⊢
  constructor <;> linarith

theorem mem_free {share : Share Float} :
    share ∈ shares.filter (!·.capped) ↔ share ∈ shares ∧ share.capped = false := by
  rw [List.mem_filter, Bool.not_eq_true']

def freeBases (shares : List (Share Float)) : List Float :=
  (shares.filter (!·.capped)).map (·.base)

theorem length_freeBases (shares : List (Share Float)) :
    (freeBases shares).length = freeCount shares := by
  rw [freeBases, List.length_map, freeCount, List.countP_eq_length_filter]

theorem freeCount_le (shares : List (Share Float)) : freeCount shares ≤ shares.length :=
  List.countP_le_length

def smallestNormal : Float :=
  Float.ofBits 0x0010000000000000

theorem value_smallestNormal :
    smallestNormal.isFinite = true ∧ value smallestNormal = (2 : ℚ) ^ (-1022 : ℤ) := by
  have hunpack : smallestNormal.toModel.unpack =
      .finite .positive (2 ^ 52) (-1074) (by norm_num) := rfl
  refine ⟨rfl, ?_⟩
  rw [value, hunpack, amount, signed, show (-1022 : ℤ) = (52 : ℕ) + -1074 by norm_num,
    zpow_add₀ (by norm_num), zpow_natCast]
  norm_num

theorem not_vanishing_of_normal (hlength : shares.length ≤ 2 ^ 20)
    (hfinite : (freeBase shares).isFinite = true) (hnormal : smallestNormal ≤ freeBase shares) :
    ¬Vanishing shares := by
  rintro ⟨-, hsmall⟩
  rw [le_iff_value_le value_smallestNormal.1 hfinite, value_smallestNormal.2] at hnormal
  have hcount : (freeCount shares : ℚ) ≤ 2 ^ 20 := by
    exact_mod_cast (freeCount_le shares).trans hlength
  have hbelow : (2 : ℚ) ^ (-1022 : ℤ) < 2 ^ 20 * (2 : ℚ) ^ (-1055 : ℤ) :=
    (hnormal.trans_lt hsmall).trans_le (mul_le_mul_of_nonneg_right hcount (by positivity))
  rw [← zpow_natCast, ← zpow_add₀ (by norm_num)] at hbelow
  exact absurd hbelow (not_lt.mpr (zpow_le_zpow_right₀ (by norm_num) (by norm_num)))

theorem freeBase_near (hlength : shares.length ≤ 2 ^ 20)
    (hbase : ∀ share ∈ shares, Within 0 1 share.base) :
    |exactSum (freeBases shares) - value (freeBase shares)| ≤ value (freeBase shares) / 2 ^ 33 := by
  have hsizes : ∀ base ∈ freeBases shares, IsSize base := by
    intro base hmem
    obtain ⟨share, hshare, rfl⟩ := List.mem_map.mp hmem
    exact (hbase share (mem_free.mp hshare).1).isSize
  have hcount : (freeBases shares).length ≤ 2 ^ 20 := by
    rw [length_freeBases]
    exact (freeCount_le shares).trans hlength
  exact total_relative_of_length hsizes (freeBase_bounds hbase).1.isFinite hcount

theorem freeBase_pos_iff (hbase : ∀ share ∈ shares, Within 0 1 share.base) :
    0 < freeBase shares ↔ 0 < value (freeBase shares) := by
  rw [lt_iff_value_lt value_zero.1 (freeBase_bounds hbase).1.isFinite, value_zero.2]

theorem spreadValue_free {share : Share Float} (hcapped : share.capped = false) :
    spreadValue limit shares share =
      if 0 < freeBase shares then share.base * freeMass limit shares / freeBase shares
      else freeMass limit shares / Scalar.ofNat (freeCount shares) :=
  if_neg (by simp [hcapped])

theorem proportional_near (hlimit : Limit limit) (hlength : shares.length ≤ 2 ^ 20)
    (hbase : ∀ share ∈ shares, Within 0 1 share.base)
    (hmass : |value (freeMass limit shares)| ≤ 1) (hpos : 0 < value (freeBase shares))
    {share : Share Float} (hmem : share ∈ shares) (hcapped : share.capped = false) :
    |value share.base * (value (freeMass limit shares) / value (freeBase shares)) -
        value (spreadValue limit shares share)| ≤
      value share.base * (3 / (2 ^ 53 * value (freeBase shares))) +
        (leastError / value (freeBase shares) * (1 + 1 / 2 ^ 53) + leastError) := by
  have hword : shares.length < 2 ^ 64 := by omega
  have hspread := (spreadValue_bounds hlimit hword hbase hmem hcapped).1.isFinite
  rw [spreadValue_free hcapped, if_pos ((freeBase_pos_iff hbase).mpr hpos)] at hspread ⊢
  have hshare := hbase share hmem
  have hproduct : (share.base * freeMass limit shares).isFinite = true :=
    (mul_freeMass_bounds hlimit hword hshare).1.isFinite
  have hmassFinite : (freeMass limit shares).isFinite = true :=
    (freeMass_within hlimit hword).isFinite
  have hwhole := (freeBase_bounds hbase).1.isFinite
  have hproductError := abs_sub_le ((gives_mul hshare.isFinite hmassFinite).nearest hproduct)
  have hquotientError := abs_sub_le ((gives_div hproduct hwhole hpos.ne').nearest hspread)
  have hnonneg := hshare.low_le
  have hleast := leastError_pos
  generalize value (share.base * freeMass limit shares / freeBase shares) = part at *
  generalize value (share.base * freeMass limit shares) = product at *
  generalize value share.base = base at *
  generalize value (freeMass limit shares) = mass at *
  generalize value (freeBase shares) = whole at *
  have hexact : |base * mass| ≤ base := by
    rw [abs_mul, abs_of_nonneg hnonneg]
    exact mul_le_of_le_one_right hnonneg hmass
  have hlost : |base * mass - product| ≤ base / 2 ^ 53 + leastError := by linarith
  have hproductLe : |product| ≤ 2 * base + leastError := by
    have htriangle := abs_sub_abs_le_abs_sub product (base * mass)
    rw [abs_sub_comm] at htriangle
    linarith
  have hdivided : |base * (mass / whole) - product / whole| ≤
      (base / 2 ^ 53 + leastError) / whole := by
    rw [← mul_div_assoc, ← sub_div, abs_div, abs_of_pos hpos]
    exact div_le_div_of_nonneg_right hlost hpos.le
  have hquotientLe : |product / whole| ≤ (2 * base + leastError) / whole := by
    rw [abs_div, abs_of_pos hpos]
    exact div_le_div_of_nonneg_right hproductLe hpos.le
  calc |base * (mass / whole) - part|
      ≤ |base * (mass / whole) - product / whole| + |product / whole - part| :=
        abs_sub_le _ _ _
    _ ≤ (base / 2 ^ 53 + leastError) / whole +
        ((2 * base + leastError) / whole / 2 ^ 53 + leastError) := by linarith
    _ = base * (3 / (2 ^ 53 * whole)) +
        (leastError / whole * (1 + 1 / 2 ^ 53) + leastError) := by
        field_simp
        ring

theorem even_near (hlimit : Limit limit) (hlength : shares.length ≤ 2 ^ 20)
    (hbase : ∀ share ∈ shares, Within 0 1 share.base) (hnone : ¬0 < value (freeBase shares))
    {share : Share Float} (hmem : share ∈ shares) (hcapped : share.capped = false) :
    |value (freeMass limit shares) / freeCount shares - value (spreadValue limit shares share)| ≤
      |value (freeMass limit shares) / freeCount shares| / 2 ^ 53 + leastError := by
  have hword : shares.length < 2 ^ 64 := by omega
  have hspread := (spreadValue_bounds hlimit hword hbase hmem hcapped).1.isFinite
  rw [spreadValue_free hcapped, if_neg (mt (freeBase_pos_iff hbase).mp hnone)] at hspread ⊢
  have hsome : 0 < freeCount shares := List.countP_pos_iff.mpr ⟨share, hmem, by simp [hcapped]⟩
  have hsmall : freeCount shares < 2 ^ 53 := by
    have hle := freeCount_le shares
    omega
  obtain ⟨hfinite, hvalue⟩ := value_ofNat hsmall
  have hdivisor : value (Scalar.ofNat (freeCount shares)) ≠ 0 := by
    rw [hvalue]
    exact_mod_cast hsome.ne'
  have hmassFinite : (freeMass limit shares).isFinite = true :=
    (freeMass_within hlimit hword).isFinite
  have hgives := gives_div hmassFinite hfinite hdivisor
  rw [hvalue] at hgives
  exact abs_sub_le (hgives.nearest hspread)

def freeValues (limit : Float) (shares : List (Share Float)) : List Float :=
  (shares.filter (!·.capped)).map (spreadValue limit shares)

theorem exactSum_freeValues (limit : Float) (shares : List (Share Float)) :
    exactSum (freeValues limit shares) =
      ((shares.filter (!·.capped)).map fun share =>
        value (spreadValue limit shares share)).sum := by
  rw [exactSum, freeValues, List.map_map]
  rfl

theorem length_free (shares : List (Share Float)) :
    ((shares.filter (!·.capped)).length : ℚ) = freeCount shares := by
  rw [freeCount, List.countP_eq_length_filter]

theorem sum_map_add_const {β : Type} (part : β → ℚ) (rest : ℚ) (elements : List β) :
    (elements.map fun x => part x + rest).sum =
      (elements.map part).sum + elements.length * rest := by
  rw [List.sum_map_add, List.map_const', List.sum_replicate, nsmul_eq_mul]

theorem freeValues_near_of_pos (hlimit : Limit limit) (hlength : shares.length ≤ 2 ^ 20)
    (hbase : ∀ share ∈ shares, Within 0 1 share.base)
    (hmass : |value (freeMass limit shares)| ≤ 1) (hpos : 0 < value (freeBase shares))
    (hsound : ¬Vanishing shares) :
    |value (freeMass limit shares) - exactSum (freeValues limit shares)| ≤
      1 / 2 ^ 20 + 1 / 2 ^ 32 := by
  have hterms := abs_sum_sub_sum_le fun share (hshare : share ∈ shares.filter (!·.capped)) =>
    proportional_near hlimit hlength hbase hmass hpos (mem_free.mp hshare).1 (mem_free.mp hshare).2
  have hbases : ((shares.filter (!·.capped)).map fun share => value share.base).sum =
      exactSum (freeBases shares) := by
    rw [exactSum, freeBases, List.map_map]
    rfl
  rw [sum_map_add_const, List.sum_map_mul_right, List.sum_map_mul_right, hbases, length_free,
    ← exactSum_freeValues] at hterms
  have hnear := freeBase_near hlength hbase
  -- The least errors, counted once for each free share, stay within one part in `2 ^ 20`.
  have hleast : freeCount shares * leastError ≤ value (freeBase shares) / 2 ^ 20 := by
    have hlarge := not_lt.mp fun hlt => hsound ⟨hpos, hlt⟩
    have hpower : (2 : ℚ) ^ (-1055 : ℤ) = leastError * 2 ^ 20 := by
      rw [leastError, ← zpow_natCast, ← zpow_add₀ (by norm_num)]
      norm_num
    rw [hpower] at hlarge
    linarith
  have htiny : freeCount shares * leastError ≤ 1 / 2 ^ 80 :=
    mul_leastError_le ((freeCount_le shares).trans hlength)
  generalize value (freeMass limit shares) = mass at *
  generalize exactSum (freeValues limit shares) = sum at *
  generalize exactSum (freeBases shares) = bases at *
  generalize value (freeBase shares) = whole at *
  generalize (freeCount shares : ℚ) = count at *
  have hratio : |1 - bases / whole| ≤ 1 / 2 ^ 33 :=
    abs_one_sub_div_le hpos (by rwa [mul_one_div])
  have hlost : count * leastError / whole ≤ 1 / 2 ^ 20 := by
    rw [div_le_iff₀ hpos]
    linarith
  have hrounded : |bases / whole * mass - sum| ≤ bases / whole * (3 / 2 ^ 53) +
      (count * leastError / whole * (1 + 1 / 2 ^ 53) + count * leastError) := by
    calc |bases / whole * mass - sum| = |bases * (mass / whole) - sum| := by
          rw [mul_div_assoc', div_mul_eq_mul_div]
      _ ≤ _ := hterms
      _ = _ := by
          field_simp
  have hmissed : |mass - bases / whole * mass| ≤ 1 / 2 ^ 33 := by
    calc |mass - bases / whole * mass| = |1 - bases / whole| * |mass| := by
          rw [← abs_mul]
          ring_nf
      _ ≤ 1 / 2 ^ 33 * 1 := mul_le_mul hratio hmass (abs_nonneg _) (by norm_num)
      _ = 1 / 2 ^ 33 := mul_one _
  generalize bases / whole = ratio at *
  generalize count * leastError / whole = lost at *
  generalize count * leastError = least at *
  have hratioLe := (abs_le.mp hratio).1
  calc |mass - sum| ≤ |mass - ratio * mass| + |ratio * mass - sum| := abs_sub_le _ _ _
    _ ≤ 1 / 2 ^ 20 + 1 / 2 ^ 32 := by linarith

theorem freeValues_near_of_not_pos (hlimit : Limit limit) (hlength : shares.length ≤ 2 ^ 20)
    (hbase : ∀ share ∈ shares, Within 0 1 share.base)
    (hmass : |value (freeMass limit shares)| ≤ 1) (hnone : ¬0 < value (freeBase shares))
    (hfree : 0 < freeCount shares) :
    |value (freeMass limit shares) - exactSum (freeValues limit shares)| ≤ 1 / 2 ^ 32 := by
  have hpositive : (0 : ℚ) < freeCount shares := by exact_mod_cast hfree
  have hterms := abs_sum_sub_sum_le fun share (hshare : share ∈ shares.filter (!·.capped)) =>
    even_near hlimit hlength hbase hnone (mem_free.mp hshare).1 (mem_free.mp hshare).2
  rw [List.map_const', List.map_const', List.sum_replicate, List.sum_replicate, nsmul_eq_mul,
    nsmul_eq_mul, length_free, ← exactSum_freeValues, mul_div_cancel₀ _ hpositive.ne', mul_add,
    abs_div, Nat.abs_cast, ← mul_div_assoc, mul_div_cancel₀ _ hpositive.ne'] at hterms
  have hleast : freeCount shares * leastError ≤ 1 / 2 ^ 80 :=
    mul_leastError_le ((freeCount_le shares).trans hlength)
  linarith

/-- The free values have one sign, so that their sizes add up to the size of their sum. -/
theorem exactSize_freeValues (hlimit : Limit limit) (hlength : shares.length ≤ 2 ^ 20)
    (hbase : ∀ share ∈ shares, Within 0 1 share.base) :
    exactSize (freeValues limit shares) = |exactSum (freeValues limit shares)| := by
  have hword : shares.length < 2 ^ 64 := by omega
  rcases le_total 0 (value (freeMass limit shares)) with hmass | hmass
  · have hvalues : ∀ x ∈ freeValues limit shares, 0 ≤ value x := by
      intro x hmem
      obtain ⟨share, hshare, rfl⟩ := List.mem_map.mp hmem
      obtain ⟨hshare, hcapped⟩ := mem_free.mp hshare
      exact (spreadValue_bounds hlimit hword hbase hshare hcapped).2.1 hmass
    have hsize := exactSize_of_nonneg hvalues
    rw [hsize, abs_of_nonneg (hsize ▸ exactSize_nonneg _)]
  · have hvalues : ∀ x ∈ freeValues limit shares, value x ≤ 0 := by
      intro x hmem
      obtain ⟨share, hshare, rfl⟩ := List.mem_map.mp hmem
      obtain ⟨hshare, hcapped⟩ := mem_free.mp hshare
      exact (spreadValue_bounds hlimit hword hbase hshare hcapped).2.2 hmass
    have hsize := exactSize_of_nonpos hvalues
    rw [hsize, abs_of_nonpos (by linarith [exactSize_nonneg (freeValues limit shares)])]

theorem sum_map_spreadValue (measure : Float → ℚ) (limit : Float) (shares : List (Share Float)) :
    (shares.map fun share => measure (spreadValue limit shares share)).sum =
      measure limit * shares.countP (·.capped) +
        ((freeValues limit shares).map measure).sum := by
  have hfree : (freeValues limit shares).map measure =
      (shares.filter (!·.capped)).map fun share => measure (spreadValue limit shares share) := by
    rw [freeValues, List.map_map]
    rfl
  rw [hfree, ← sum_ite_capped]
  congr 1
  refine List.map_congr_left fun share _ => ?_
  cases hcapped : share.capped with
  | true => rw [spreadValue, if_pos hcapped, if_pos rfl]
  | false => rfl

/-- How far the exact sum of limited shares may be from one. -/
def tolerance : ℚ :=
  1 / 2 ^ 20 + 1 / 2 ^ 31

/-- Values that add up to one within the tolerance, and that have room to be added up. -/
structure NearOne (values : List Float) : Prop where
  sum_near : |1 - exactSum values| ≤ tolerance
  size_le : exactSize values ≤ 3

theorem nearOne_spread (hlimit : Limit limit) (hlength : shares.length ≤ 2 ^ 20)
    (hbase : ∀ share ∈ shares, Within 0 1 share.base)
    (hpart : cappedPart limit shares ≤ 1 + tolerance) (hsound : ¬Vanishing shares)
    (hfree : 0 < freeCount shares) :
    NearOne (shares.map (spreadValue limit shares)) := by
  unfold tolerance at hpart
  obtain ⟨hmassNear, hmassLe⟩ := freeMass_near hlimit hlength (hpart.trans (by norm_num))
  have hnear : |value (freeMass limit shares) - exactSum (freeValues limit shares)| ≤
      1 / 2 ^ 20 + 1 / 2 ^ 32 := by
    by_cases hpos : 0 < value (freeBase shares)
    · exact freeValues_near_of_pos hlimit hlength hbase hmassLe hpos hsound
    · have hsmall := freeValues_near_of_not_pos hlimit hlength hbase hmassLe hpos hfree
      linarith
  have hsum : exactSum (shares.map (spreadValue limit shares)) =
      cappedPart limit shares + exactSum (freeValues limit shares) := by
    rw [exactSum, List.map_map]
    exact sum_map_spreadValue value limit shares
  have hsize : exactSize (shares.map (spreadValue limit shares)) =
      cappedPart limit shares + |exactSum (freeValues limit shares)| := by
    rw [exactSize, List.map_map, ← exactSize_freeValues hlimit hlength hbase]
    have hsplit := sum_map_spreadValue (fun x => |value x|) limit shares
    rwa [abs_of_nonneg hlimit.pos.le] at hsplit
  constructor
  · rw [hsum, tolerance]
    rw [abs_le] at hmassNear hnear ⊢
    constructor <;> linarith
  · rw [hsize]
    have hbound := abs_sub_abs_le_abs_sub (exactSum (freeValues limit shares))
      (value (freeMass limit shares))
    rw [abs_sub_comm] at hbound
    linarith

end Apportion.Proofs.Weights.SpreadErrors
