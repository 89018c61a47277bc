import Apportion.Number.Arithmetic
import Apportion.Proofs.Number.DoubleWords

namespace Apportion.Proofs.Number.Doubles

open Float.Model
open Float.Model.UnpackedFloat
open Apportion.Number.Arithmetic
open Apportion.Proofs.Number.DoubleGrid
open Apportion.Proofs.Number.DoubleRounding
open Apportion.Proofs.Number.DoubleOperations
open Apportion.Proofs.Number.DoubleWords

/-- The fraction that a finite double is. -/
def value (x : Float) : ℚ :=
  amount x.toModel.unpack

/-- The double is what rounding the exact result gives: the nearest point of the grid, or no finite
double where that point is too large for one. -/
def Gives (exact : ℚ) (result : Float) : Prop :=
  ∃ point, Nearest exact point ∧
    (|point| < 2 ^ 1024 ∧ result.isFinite = true ∧ value result = point ∨
      2 ^ 1024 ≤ |point| ∧ result.isFinite = false)

variable {x y : Float}

theorem canonical_of_isFinite (hfinite : x.isFinite = true) :
    IsCanonical x.toModel.unpack ∧ |value x| < 2 ^ 1024 :=
  canonical_unpack hfinite

theorem onGrid_value (hfinite : x.isFinite = true) : OnGrid (value x) :=
  onGrid_amount (canonical_of_isFinite hfinite).1

theorem isFinite_of_isCanonical {number : UnpackedFloat} (hcanonical : IsCanonical number) :
    number.isFinite = true := by
  obtain ⟨sign, rfl⟩ | ⟨sign, mantissa, exponent, hpos, rfl, -⟩ := hcanonical.zero_or_finite
  · rfl
  · rfl

theorem gives_of_roundedTo {exact : ℚ} {number : UnpackedFloat}
    (hrounded : RoundedTo exact number) : Gives exact (.ofModel (.pack number)) := by
  refine ⟨amount number, hrounded.nearest, ?_⟩
  rcases lt_or_ge |amount number| (2 ^ 1024) with hlt | hge
  · left
    have hsame : (Float.Model.pack number).unpack = number :=
      unpack_pack_of_lt hrounded.canonical hlt
    refine ⟨hlt, ?_, congrArg amount hsame⟩
    show (Float.Model.pack number).unpack.isFinite = true
    rw [hsame]
    exact isFinite_of_isCanonical hrounded.canonical
  · right
    obtain ⟨sign, hinfinite, -⟩ := unpack_pack_of_ge hrounded.canonical hge
    refine ⟨hge, ?_⟩
    show (Float.Model.pack number).unpack.isFinite = false
    rw [show (Float.Model.pack number).unpack = .infinity sign from hinfinite]
    rfl

theorem gives_add (hx : x.isFinite = true) (hy : y.isFinite = true) :
    Gives (value x + value y) (x + y) :=
  gives_of_roundedTo (add_nearest (canonical_of_isFinite hx).1 (canonical_of_isFinite hy).1)

theorem gives_sub (hx : x.isFinite = true) (hy : y.isFinite = true) :
    Gives (value x - value y) (x - y) :=
  gives_of_roundedTo (sub_nearest (canonical_of_isFinite hx).1 (canonical_of_isFinite hy).1)

theorem gives_mul (hx : x.isFinite = true) (hy : y.isFinite = true) :
    Gives (value x * value y) (x * y) :=
  gives_of_roundedTo (mul_nearest (canonical_of_isFinite hx).1 (canonical_of_isFinite hy).1)

theorem gives_div (hx : x.isFinite = true) (hy : y.isFinite = true) (hdivisor : value y ≠ 0) :
    Gives (value x / value y) (x / y) :=
  gives_of_roundedTo
    (div_nearest (canonical_of_isFinite hx).1 (canonical_of_isFinite hy).1 hdivisor)

theorem compare_value (hx : x.isFinite = true) (hy : y.isFinite = true) :
    x.toModel.unpack.compare y.toModel.unpack = some (compare (value x) (value y)) :=
  compare_amount (canonical_of_isFinite hx).1 (canonical_of_isFinite hy).1

theorem lt_iff_value_lt (hx : x.isFinite = true) (hy : y.isFinite = true) :
    x < y ↔ value x < value y := by
  have hmodel : x < y ↔ x.toModel.unpack.lt y.toModel.unpack = true := decide_eq_true_iff
  rw [hmodel, UnpackedFloat.lt, compare_value hx hy, ← compare_lt_iff_lt]
  cases compare (value x) (value y) <;> decide

theorem le_iff_value_le (hx : x.isFinite = true) (hy : y.isFinite = true) :
    x ≤ y ↔ value x ≤ value y := by
  have hmodel : x ≤ y ↔ x.toModel.unpack.le y.toModel.unpack = true := decide_eq_true_iff
  rw [hmodel, UnpackedFloat.le, compare_value hx hy, ← compare_le_iff_le]
  cases compare (value x) (value y) <;> decide

theorem beq_iff_value_eq (hx : x.isFinite = true) (hy : y.isFinite = true) :
    (x == y) = true ↔ value x = value y := by
  have hmodel : (x == y) = x.toModel.unpack.beq y.toModel.unpack := rfl
  have hequal : value x = value y ↔ compare (value x) (value y) = .eq := compare_eq_iff_eq.symm
  rw [hmodel, UnpackedFloat.beq, compare_value hx hy, hequal]
  cases compare (value x) (value y) <;> decide

theorem not_le_negative_infinity {number : UnpackedFloat} (hcanonical : IsCanonical number) :
    number.le (.infinity .negative) = false := by
  obtain ⟨sign, rfl⟩ | ⟨sign, mantissa, exponent, hpos, rfl, -⟩ := hcanonical.zero_or_finite
  · rfl
  · cases sign <;> rfl

theorem not_positive_infinity_le {number : UnpackedFloat} (hcanonical : IsCanonical number) :
    UnpackedFloat.le (.infinity .positive) number = false := by
  obtain ⟨sign, rfl⟩ | ⟨sign, mantissa, exponent, hpos, rfl, -⟩ := hcanonical.zero_or_finite
  · rfl
  · rfl

theorem le_of_double_lt (hlt : x < y) : x ≤ y := by
  have hmodel : x.toModel.unpack.lt y.toModel.unpack = true := decide_eq_true_iff.mp hlt
  refine decide_eq_true_iff.mpr ?_
  show x.toModel.unpack.le y.toModel.unpack = true
  unfold UnpackedFloat.lt at hmodel
  unfold UnpackedFloat.le
  cases hcompare : x.toModel.unpack.compare y.toModel.unpack with
  | none =>
      rw [hcompare] at hmodel
      cases hmodel
  | some order =>
      rw [hcompare] at hmodel
      cases order with
      | lt => rfl
      | eq => rfl
      | gt => cases hmodel

theorem compare_swap (left right : UnpackedFloat) :
    right.compare left = (left.compare right).map Ordering.swap := by
  cases left with
  | notANumber => cases right <;> rfl
  | infinity sign =>
      cases right with
      | notANumber => cases sign <;> rfl
      | infinity other => cases sign <;> cases other <;> rfl
      | zero other => cases sign <;> rfl
      | finite other mantissa exponent hpos => cases sign <;> cases other <;> rfl
  | zero sign =>
      cases right with
      | notANumber => rfl
      | infinity other => cases other <;> rfl
      | zero other => rfl
      | finite other mantissa exponent hpos => cases other <;> rfl
  | finite sign mantissa exponent hpos =>
      cases right with
      | notANumber => cases sign <;> rfl
      | infinity other => cases sign <;> cases other <;> rfl
      | zero other => cases sign <;> rfl
      | finite other mantissa' exponent' hpos' =>
          have hexponents : compare exponent' exponent = (compare exponent exponent').swap :=
            Std.OrientedCmp.eq_swap
          have hmantissas : compare mantissa' mantissa = (compare mantissa mantissa').swap :=
            Std.OrientedCmp.eq_swap
          have hsizes : (compare exponent' exponent).then (compare mantissa' mantissa) =
              ((compare exponent exponent').then (compare mantissa mantissa')).swap := by
            rw [Ordering.swap_then, hexponents, hmantissas]
          cases sign <;> cases other
          · exact congrArg (fun order => some order.swap) hsizes
          · rfl
          · rfl
          · exact congrArg some hsizes

theorem not_lt_of_double_le (hle : x ≤ y) : ¬y < x := by
  intro hlt
  have hleModel : x.toModel.unpack.le y.toModel.unpack = true := decide_eq_true_iff.mp hle
  have hltModel : y.toModel.unpack.lt x.toModel.unpack = true := decide_eq_true_iff.mp hlt
  rw [UnpackedFloat.lt, compare_swap x.toModel.unpack] at hltModel
  unfold UnpackedFloat.le at hleModel
  cases hcompare : x.toModel.unpack.compare y.toModel.unpack with
  | none =>
      rw [hcompare] at hleModel
      cases hleModel
  | some order =>
      rw [hcompare] at hleModel hltModel
      cases order with
      | lt => cases hltModel
      | eq => cases hltModel
      | gt => cases hleModel

theorem not_double_lt_self (x : Float) : ¬x < x :=
  fun hlt => not_lt_of_double_le (le_of_double_lt hlt) hlt

theorem isFinite_of_between {low high : Float} (hlow : low.isFinite = true)
    (hhigh : high.isFinite = true) (hge : low ≤ x) (hle : x ≤ high) : x.isFinite = true := by
  have hgeModel : low.toModel.unpack.le x.toModel.unpack = true := decide_eq_true_iff.mp hge
  have hleModel : x.toModel.unpack.le high.toModel.unpack = true := decide_eq_true_iff.mp hle
  show x.toModel.unpack.isFinite = true
  cases hx : x.toModel.unpack with
  | zero sign => rfl
  | finite sign mantissa exponent hpos => rfl
  | notANumber =>
      rw [hx] at hleModel
      cases hleModel
  | infinity sign =>
      cases sign with
      | negative =>
          rw [hx, not_le_negative_infinity (canonical_of_isFinite hlow).1] at hgeModel
          cases hgeModel
      | positive =>
          rw [hx, not_positive_infinity_le (canonical_of_isFinite hhigh).1] at hleModel
          cases hleModel

theorem isFinite_eq_false_iff :
    x.isFinite = false ↔ x.isNaN = true ∨ x.isInf = true := by
  change x.toModel.unpack.isFinite = false ↔
    x.toModel.unpack.isNaN = true ∨ x.toModel.unpack.isInf = true
  cases x.toModel.unpack <;>
    simp [UnpackedFloat.isFinite, UnpackedFloat.isNaN, UnpackedFloat.isInf]

theorem not_neg_of_isNaN (hnan : x.isNaN = true) : ¬x < 0 := by
  intro hneg
  replace hneg : x.toModel.unpack.lt (0 : Float).toModel.unpack = true :=
    decide_eq_true_iff.mp hneg
  replace hnan : x.toModel.unpack.isNaN = true := hnan
  cases hx : x.toModel.unpack with
  | notANumber =>
      rw [hx] at hneg
      cases hneg
  | zero sign =>
      rw [hx] at hnan
      cases hnan
  | infinity sign =>
      rw [hx] at hnan
      cases hnan
  | finite sign mantissa exponent hpos =>
      rw [hx] at hnan
      cases hnan

theorem pos_of_isInf (hinfinite : x.isInf = true) (hnot : ¬x < 0) : 0 < x := by
  have habove : 0 < x ↔
      (0 : Float).toModel.unpack.lt x.toModel.unpack = true := decide_eq_true_iff
  have hbelow : x < 0 ↔
      x.toModel.unpack.lt (0 : Float).toModel.unpack = true := decide_eq_true_iff
  replace hinfinite : x.toModel.unpack.isInf = true := hinfinite
  rw [hbelow] at hnot
  rw [habove]
  cases hx : x.toModel.unpack with
  | infinity sign =>
      cases sign with
      | positive => rfl
      | negative =>
          rw [hx] at hnot
          exact absurd rfl hnot
  | zero sign =>
      rw [hx] at hinfinite
      cases hinfinite
  | finite sign mantissa exponent hpos =>
      rw [hx] at hinfinite
      cases hinfinite
  | notANumber =>
      rw [hx] at hinfinite
      cases hinfinite

structure Representable (point : ℚ) : Prop where
  onGrid : OnGrid point
  abs_lt : |point| < 2 ^ 1024

theorem representable_value (hfinite : x.isFinite = true) : Representable (value x) :=
  ⟨onGrid_value hfinite, (canonical_of_isFinite hfinite).2⟩

theorem representable_two_pow {power : ℕ} (hpower : power < 1024) :
    Representable ((2 : ℚ) ^ power) where
  onGrid := by
    rw [← zpow_natCast]
    exact onGrid_two_zpow (by omega)
  abs_lt := by
    rw [abs_of_nonneg (by positivity)]
    exact pow_lt_pow_right₀ (by norm_num) hpower

theorem representable_one : Representable 1 := by
  have hpower := representable_two_pow (show 0 < 1024 by norm_num)
  rwa [pow_zero] at hpower

theorem representable_natCast {number : ℕ} (hbound : number < 2 ^ 53) :
    Representable number where
  onGrid := onGrid_natCast number hbound
  abs_lt := by
    rw [Nat.abs_cast]
    exact_mod_cast hbound.trans (Nat.pow_lt_pow_right (by norm_num) (by norm_num))

theorem representable_zero : Representable 0 := by
  simpa using representable_natCast (show 0 < 2 ^ 53 by norm_num)

theorem Representable.neg {point : ℚ} (hpoint : Representable point) : Representable (-point) where
  onGrid := onGrid_neg hpoint.onGrid
  abs_lt := by
    rw [abs_neg]
    exact hpoint.abs_lt

variable {exact : ℚ} {result : Float}

theorem Gives.nearest (hgives : Gives exact result) (hfinite : result.isFinite = true) :
    Nearest exact (value result) := by
  obtain ⟨point, hnearest, ⟨_, _, hvalue⟩ | ⟨_, hinfinite⟩⟩ := hgives
  · rwa [hvalue]
  · rw [hfinite] at hinfinite
    cases hinfinite

theorem Gives.value_eq (hgives : Gives exact result) (hexact : Representable exact) :
    result.isFinite = true ∧ value result = exact := by
  obtain ⟨point, hnearest, hpoint⟩ := hgives
  rw [hnearest.eq_of_onGrid hexact.onGrid] at hpoint
  rcases hpoint with ⟨_, hfinite, hvalue⟩ | ⟨hlarge, _⟩
  · exact ⟨hfinite, hvalue⟩
  · exact absurd hexact.abs_lt (not_lt.mpr hlarge)

structure Within (low high : ℚ) (x : Float) : Prop where
  isFinite : x.isFinite = true
  low_le : low ≤ value x
  le_high : value x ≤ high

theorem Gives.within {low high : ℚ} (hgives : Gives exact result) (hlow : Representable low)
    (hhigh : Representable high) (hge : low ≤ exact) (hle : exact ≤ high) :
    Within low high result := by
  obtain ⟨point, hnearest, hpoint⟩ := hgives
  have hpointGe := hnearest.ge_of_ge hlow.onGrid hge
  have hpointLe := hnearest.le_of_le hhigh.onGrid hle
  rcases hpoint with ⟨_, hfinite, hvalue⟩ | ⟨hlarge, _⟩
  · exact ⟨hfinite, hvalue ▸ hpointGe, hvalue ▸ hpointLe⟩
  · have hsmall : |point| < 2 ^ 1024 :=
      abs_lt.mpr ⟨(abs_lt.mp hlow.abs_lt).1.trans_le hpointGe,
        hpointLe.trans_lt (abs_lt.mp hhigh.abs_lt).2⟩
    exact absurd hsmall (not_lt.mpr hlarge)

theorem gives_toFloat {number : ℕ} (hbound : number < 2 ^ 64) :
    Gives number number.toUInt64.toFloat := by
  have hrounded := normalize_nearest number 0 .positive
  rw [zpow_zero, mul_one, Int.cast_natCast] at hrounded
  have hword : number.toUInt64.toNat = number := Nat.mod_eq_of_lt hbound
  have hmodel : number.toUInt64.toFloat = .ofModel
      (.pack (UnpackedFloat.normalize Format.binary64 number.toUInt64.toNat 0 .positive)) := rfl
  rw [hmodel, hword]
  exact gives_of_roundedTo hrounded

theorem value_oneBits :
    (Float.ofBits 0x3FF0000000000000).isFinite = true ∧
      value (Float.ofBits 0x3FF0000000000000) = 1 := by
  have hunpack : (Float.ofBits 0x3FF0000000000000).toModel.unpack =
      .finite .positive (2 ^ 52) (-52) (by norm_num) := rfl
  constructor
  · rfl
  · rw [value, hunpack, amount, signed]
    norm_num

theorem gives_ofNat_small {number : ℕ} (hsmall : number < 2 ^ 53) :
    Gives number (Float.ofNat number) := by
  have hmodel : Float.ofNat number = number.toUInt64.toFloat * Float.ofBits 0x3FF0000000000000 :=
    dif_pos ⟨hsmall, by decide⟩
  obtain ⟨hfinite, hvalue⟩ :=
    (gives_toFloat (hsmall.trans (by norm_num))).value_eq (representable_natCast hsmall)
  obtain ⟨hone, hvalueOne⟩ := value_oneBits
  have hgives := gives_mul hfinite hone
  rwa [hvalue, hvalueOne, mul_one, ← hmodel] at hgives

theorem exists_roundedTo_ofNat {number : ℕ} (hlarge : 2 ^ 53 ≤ number) :
    ∃ rounded, RoundedTo number rounded ∧ Float.ofNat number = .ofModel (.pack rounded) := by
  have hmodel : Float.ofNat number =
      .ofModel (.pack (UnpackedFloat.ofScientific Format.binary64 number 0)) :=
    dif_neg fun hboth => absurd hboth.1 (not_lt.mpr hlarge)
  have hscientific : UnpackedFloat.ofScientific Format.binary64 number 0 =
      roundWithAccuracy Format.binary64 .positive ((number <<< 53) * 1) (-53 + 0) .exact := by
    unfold UnpackedFloat.ofScientific
    have hnotSmall : ¬(0 : ℤ) < -((2 : ℤ) ^ Format.binary64.exponentBits + number.log2) := by
      have hpower : (2 : ℤ) ^ Format.binary64.exponentBits = 2048 := rfl
      omega
    rw [dif_neg (by omega), if_neg (by norm_num), if_neg hnotSmall, if_pos (by norm_num)]
    rfl
  have hholds : Holds (.ofMantissaAndAccuracy ((number <<< 53) * 1) .exact)
      ((number : ℚ) / (2 : ℚ) ^ (-53 + 0 : ℤ)) := by
    show (number : ℚ) / (2 : ℚ) ^ (-53 + 0 : ℤ) = (((number <<< 53) * 1 : ℕ) : ℚ)
    rw [Nat.shiftLeft_eq]
    push_cast
    norm_num
    ring
  have htarget : (-53 + 0 : ℤ) ≤ target ((number <<< 53) * 1) (-53 + 0) := by
    have hbits : 52 ≤ ((number <<< 53) * 1).log2 := by
      refine (Nat.le_log2 (by omega)).mpr ?_
      omega
    unfold target
    omega
  rw [hscientific] at hmodel
  exact ⟨_, roundWithAccuracy_nearest .positive hholds htarget, hmodel⟩

theorem gives_ofNat (number : ℕ) : Gives number (Float.ofNat number) := by
  rcases Nat.lt_or_ge number (2 ^ 53) with hsmall | hlarge
  · exact gives_ofNat_small hsmall
  · obtain ⟨rounded, hrounded, hmodel⟩ := exists_roundedTo_ofNat hlarge
    rw [hmodel]
    exact gives_of_roundedTo hrounded

theorem unpack_ofNat_of_not_isFinite {number : ℕ}
    (hinfinite : (Float.ofNat number).isFinite = false) :
    (Float.ofNat number).toModel.unpack = .infinity .positive := by
  have hlarge : 2 ^ 53 ≤ number := by
    by_contra hsmall
    rw [not_le] at hsmall
    rw [((gives_ofNat_small hsmall).value_eq (representable_natCast hsmall)).1] at hinfinite
    cases hinfinite
  obtain ⟨rounded, hrounded, hmodel⟩ := exists_roundedTo_ofNat hlarge
  rw [hmodel] at hinfinite ⊢
  replace hinfinite : (Float.Model.pack rounded).unpack.isFinite = false := hinfinite
  rcases lt_or_ge |amount rounded| (2 ^ 1024) with hlt | hge
  · have hsame : (Float.Model.pack rounded).unpack = rounded :=
      unpack_pack_of_lt hrounded.canonical hlt
    rw [hsame, isFinite_of_isCanonical hrounded.canonical] at hinfinite
    cases hinfinite
  · obtain ⟨sign, hunpack, hsign⟩ := unpack_pack_of_ge hrounded.canonical hge
    cases sign with
    | positive => exact hunpack
    | negative =>
        have hnonneg := hrounded.nearest.nonneg (Nat.cast_nonneg number)
        exact absurd (hsign rfl) (not_lt.mpr hnonneg)

theorem value_zero : (0 : Float).isFinite = true ∧ value 0 = 0 := by
  have hgives := gives_ofNat 0
  rw [Nat.cast_zero] at hgives
  exact hgives.value_eq representable_zero

theorem value_one : (1 : Float).isFinite = true ∧ value 1 = 1 := by
  have hgives := gives_ofNat 1
  rw [Nat.cast_one] at hgives
  exact hgives.value_eq representable_one

/-- Finite doubles that are the same fraction are the same word, unless the fraction is zero. -/
theorem eq_of_value_eq (hx : x.isFinite = true) (hy : y.isFinite = true)
    (hvalue : value x = value y) (hne : value x ≠ 0) : x = y := by
  obtain ⟨-, -, hsame | ⟨rfl, -⟩ | ⟨-, rfl⟩⟩ :=
    Float.beq_iff_ne_nan_and_eq.mp ((beq_iff_value_eq hx hy).mpr hvalue)
  · exact hsame
  · exact absurd value_zero.2 hne
  · exact absurd (hvalue.trans value_zero.2) hne

theorem double_div_self (hx : x.isFinite = true) (hne : value x ≠ 0) : x / x = 1 := by
  have hgives := gives_div hx hx hne
  rw [div_self hne] at hgives
  obtain ⟨hfinite, hone⟩ := hgives.value_eq representable_one
  exact eq_of_value_eq hfinite value_one.1 (hone.trans value_one.2.symm) (hone.trans_ne one_ne_zero)

/-- A finite double that is not below zero. -/
structure IsSize (x : Float) : Prop where
  isFinite : x.isFinite = true
  nonneg : 0 ≤ value x

theorem Within.isSize {high : ℚ} (hwithin : Within 0 high x) : IsSize x :=
  ⟨hwithin.isFinite, hwithin.low_le⟩

theorem isSize_iff : IsSize x ↔ x.isFinite = true ∧ ¬x < 0 := by
  constructor
  · rintro ⟨hfinite, hnonneg⟩
    rw [lt_iff_value_lt hfinite value_zero.1, value_zero.2]
    exact ⟨hfinite, not_lt.mpr hnonneg⟩
  · rintro ⟨hfinite, hnot⟩
    rw [lt_iff_value_lt hfinite value_zero.1, value_zero.2] at hnot
    exact ⟨hfinite, not_lt.mp hnot⟩

theorem within_zero_one_iff : Within 0 1 x ↔ 0 ≤ x ∧ x ≤ 1 := by
  constructor
  · rintro ⟨hfinite, hnonneg, hone⟩
    rw [le_iff_value_le value_zero.1 hfinite, value_zero.2, le_iff_value_le hfinite value_one.1,
      value_one.2]
    exact ⟨hnonneg, hone⟩
  · rintro ⟨hnonneg, hone⟩
    have hfinite := isFinite_of_between value_zero.1 value_one.1 hnonneg hone
    rw [le_iff_value_le value_zero.1 hfinite, value_zero.2] at hnonneg
    rw [le_iff_value_le hfinite value_one.1, value_one.2] at hone
    exact ⟨hfinite, hnonneg, hone⟩

theorem roundToInt_positive (mantissa : ℕ) (exponent : ℤ) :
    roundToInt .positive mantissa exponent = ⌊(mantissa : ℚ) * (2 : ℚ) ^ exponent⌋₊ := by
  obtain ⟨steps, hsteps⟩ : ∃ steps : ℕ, (decreaseExponent mantissa exponent 0).2 = -(steps : ℤ) :=
    Int.exists_eq_neg_ofNat (show exponent - ((exponent - 0).toNat : ℤ) ≤ 0 by omega)
  have hcut : roundToInt .positive mantissa exponent =
      ((decreaseExponent mantissa exponent 0).1 / 2 ^ steps : ℕ) := by
    show ((ExtendedMantissa.ofMantissaAndAccuracy (decreaseExponent mantissa exponent 0).1
      .exact >>> (0 - (decreaseExponent mantissa exponent 0).2).toNat).mantissa : ℤ) = _
    rw [mantissa_shiftRight, mantissa_ofMantissaAndAccuracy, hsteps, zero_sub, neg_neg,
      Int.toNat_natCast]
  rw [hcut, ← decreaseExponent_amount _ _ 0, hsteps, zpow_neg, zpow_natCast, ← div_eq_mul_inv,
    ← Nat.floor_div_eq_div (K := ℚ)]
  push_cast
  rfl

theorem truncate_of_isSize (hx : IsSize x) (hlt : value x < 2 ^ 64) :
    Scalar.truncate x = ⌊value x⌋₊ := by
  have hfloor : ⌊value x⌋₊ < UInt64.size := by
    rw [Nat.floor_lt hx.nonneg]
    exact_mod_cast hlt
  have hint : x.toModel.unpack.toInt 0 (UInt64.size - 1) = ⌊value x⌋₊ := by
    obtain ⟨hcanonical, -⟩ := canonical_of_isFinite hx.isFinite
    have hnonneg := hx.nonneg
    unfold value at hnonneg ⊢
    obtain ⟨sign, hunpack⟩ | ⟨sign, mantissa, exponent, hpos, hunpack, -⟩ :=
      hcanonical.zero_or_finite
    · rw [hunpack, amount_zero, Nat.floor_zero]
      rfl
    · rw [hunpack] at hnonneg ⊢
      cases sign with
      | positive => exact roundToInt_positive mantissa exponent
      | negative =>
          have hmantissa : (0 : ℚ) < mantissa := by exact_mod_cast hpos
          have hsize : 0 < (mantissa : ℚ) * (2 : ℚ) ^ exponent := by positivity
          have hneg : 0 ≤ -((mantissa : ℚ) * (2 : ℚ) ^ exponent) := hnonneg
          linarith
  show (UInt64.ofNatClamp (x.toModel.unpack.toInt 0 (UInt64.size - 1)).toNat).toNat = _
  rw [hint, Int.toNat_natCast, UInt64.ofNatClamp, dif_pos hfloor]
  rfl

end Apportion.Proofs.Number.Doubles
