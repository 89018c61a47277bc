import Mathlib
import Apportion.Proofs.Number.FormatRounding
import Apportion.Tensor.Casting

namespace Apportion.Proofs.Tensor.FloatCasts

open Apportion.Number.Binary
open Apportion.Tensor.Buffers
open Apportion.Tensor.Casting
open Apportion.Tensor.Elements
open Apportion.Proofs.Number.FormatRounding

def greatestExponent (format : BinaryFormat) : ℤ :=
  format.leastExponent + (2 ^ format.exponentBits - 3 : ℕ)

/-- A format with room for infinities, for words that are not numbers, and for even significands. -/
structure Roomy (format : BinaryFormat) : Prop where
  fractionBits_pos : 0 < format.fractionBits
  exponentBits_gt : 1 < format.exponentBits

/-- The number is larger than that of any finite word. -/
def Beyond (format : BinaryFormat) (significand : ℕ) (exponent : ℤ) : Prop :=
  ∀ word negative other place, format.decode word = .finite negative other place →
    (other : ℚ) * (2 : ℚ) ^ place < significand * (2 : ℚ) ^ exponent

/-- What a fraction is rounded to: the nearest number, or infinity where that number is too large
for the format. -/
inductive Rounded (format : BinaryFormat) (negative : Bool) (exact : ℚ) : BinaryValue → Prop
  | finite {significand : ℕ} {exponent : ℤ}
      (hrounds : RoundsTo format exact negative significand exponent) :
      Rounded format negative exact (.finite negative significand exponent)
  | infinite {significand : ℕ} {exponent : ℤ}
      (hrounds : RoundsTo format exact negative significand exponent)
      (hbeyond : Beyond format significand exponent) :
      Rounded format negative exact (.infinite negative)

/-- What a value becomes in a format. Numbers are rounded; what is not a number keeps its sign. -/
inductive Converted (format : BinaryFormat) : BinaryValue → BinaryValue → Prop
  | finite {negative : Bool} {significand : ℕ} {exponent : ℤ} {result : BinaryValue}
      (hrounded : Rounded format negative (amount negative significand exponent) result) :
      Converted format (.finite negative significand exponent) result
  | infinite (negative : Bool) : Converted format (.infinite negative) (.infinite negative)
  | undefined (negative : Bool) (payload other : ℕ) :
      Converted format (.undefined negative payload) (.undefined negative other)

/-- The values stand for one number, or for none. -/
inductive SameNumber : BinaryValue → BinaryValue → Prop
  | finite {negative : Bool} {significand other : ℕ} {exponent place : ℤ}
      (hamount : amount negative significand exponent = amount negative other place) :
      SameNumber (.finite negative significand exponent) (.finite negative other place)
  | infinite (negative : Bool) : SameNumber (.infinite negative) (.infinite negative)
  | undefined (negative : Bool) (payload other : ℕ) :
      SameNumber (.undefined negative payload) (.undefined negative other)

section Words

variable {format : BinaryFormat} {negative : Bool} {significand : ℕ} {exponent : ℤ} {word : ℕ}

theorem two_mul_signWeight (format : BinaryFormat) :
    format.signWeight * 2 = 2 ^ format.fractionBits * (2 ^ format.exponentBits * 2) := by
  rw [BinaryFormat.signWeight, Nat.pow_add]
  ring

theorem decode_mod (format : BinaryFormat) (word : ℕ) :
    format.decode (word % (format.signWeight * 2)) = format.decode word := by
  have hsign : word % (format.signWeight * 2) / format.signWeight % 2 =
      word / format.signWeight % 2 := by
    rw [Nat.mod_mul_right_div_self, Nat.mod_mod]
  have hbiased : word % (format.signWeight * 2) / 2 ^ format.fractionBits %
      2 ^ format.exponentBits =
        word / 2 ^ format.fractionBits % 2 ^ format.exponentBits := by
    rw [two_mul_signWeight, Nat.mod_mul_right_div_self, Nat.mod_mul_right_mod]
  have hfraction : word % (format.signWeight * 2) % 2 ^ format.fractionBits =
      word % 2 ^ format.fractionBits := by
    rw [two_mul_signWeight, Nat.mod_mul_right_mod]
  simp only [BinaryFormat.decode, hsign, hbiased, hfraction]

theorem four_le_two_pow {bits : ℕ} (hbits : 1 < bits) : 2 ^ 2 ≤ 2 ^ bits :=
  Nat.pow_le_pow_right (by decide) hbits

theorem kept_of_decode (hroomy : Roomy format)
    (hdecode : format.decode word = .finite negative significand exponent) :
    Kept format significand exponent ∧ exponent ≤ greatestExponent format := by
  have hfour := four_le_two_pow hroomy.exponentBits_gt
  have hscale : 0 < 2 ^ format.fractionBits := by positivity
  have hfraction : word % 2 ^ format.fractionBits < 2 ^ format.fractionBits := Nat.mod_lt _ hscale
  have hbiased : word / 2 ^ format.fractionBits % 2 ^ format.exponentBits <
      2 ^ format.exponentBits := Nat.mod_lt _ (by positivity)
  have hdouble : 2 ^ (format.fractionBits + 1) = 2 * 2 ^ format.fractionBits := Nat.pow_succ'
  rw [BinaryFormat.decode] at hdecode
  unfold greatestExponent
  split at hdecode
  · split at hdecode <;> cases hdecode
  split at hdecode
  · cases hdecode
    exact ⟨⟨by omega, le_rfl, .inr rfl⟩, by omega⟩
  · cases hdecode
    exact ⟨⟨by omega, by omega, .inl (by omega)⟩, by omega⟩

theorem beyond_of_infinity_le (hroomy : Roomy format) (hkept : Kept format significand exponent)
    (hlarge : format.infinity ≤ magnitude format significand exponent) :
    Beyond format significand exponent := by
  intro word negative other place hdecode
  obtain ⟨hother, hplace⟩ := kept_of_decode hroomy hdecode
  have hfour := four_le_two_pow hroomy.exponentBits_gt
  have hscale : 0 < 2 ^ format.fractionBits := by positivity
  have hsteps : 2 ^ format.exponentBits - 1 < (exponent - format.leastExponent).toNat + 2 := by
    refine Nat.lt_of_mul_lt_mul_right (a := 2 ^ format.fractionBits) (hlarge.trans_lt ?_)
    have hsignificand := hkept.significand_lt
    rw [Nat.pow_succ] at hsignificand
    rw [magnitude, Nat.add_mul]
    omega
  unfold greatestExponent at hplace
  have hfull : 2 ^ format.fractionBits ≤ significand := hkept.full.resolve_right (by omega)
  calc (other : ℚ) * (2 : ℚ) ^ place
      < 2 ^ format.fractionBits * (2 : ℚ) ^ exponent :=
        mul_zpow_lt_of_lt hother.significand_lt (by omega)
    _ ≤ significand * (2 : ℚ) ^ exponent :=
        mul_le_mul_of_nonneg_right (by exact_mod_cast hfull) (by positivity)

theorem amount_not (negative : Bool) (significand : ℕ) (exponent : ℤ) :
    amount (!negative) significand exponent = -amount negative significand exponent := by
  cases negative <;> simp [amount]

theorem size_eq_of_amount_eq {other : ℕ} {place : ℤ}
    (hamount : amount negative significand exponent = amount negative other place) :
    significand * (2 : ℚ) ^ exponent = other * (2 : ℚ) ^ place := by
  cases negative <;> simpa [amount] using hamount

theorem roundsTo_neg {exact : ℚ} (hrounds : RoundsTo format exact negative significand exponent) :
    RoundsTo format (-exact) (!negative) significand exponent := by
  have hgrid : ∀ {other : ℚ}, OnGrid format other → OnGrid format (-other) := by
    rintro _ ⟨sign, count, place, hcount, hplace, rfl⟩
    exact ⟨!sign, count, place, hcount, hplace, (amount_not _ _ _).symm⟩
  have hdistance : ∀ point other : ℚ, |-point - other| = |point - -other| := by
    intro point other
    rw [← abs_neg]
    ring_nf
  have hown : |-exact - amount (!negative) significand exponent| =
      |exact - amount negative significand exponent| := by
    rw [hdistance, amount_not, neg_neg]
  refine ⟨hrounds.kept, fun other hother => ?_, fun other hother hne hequal => ?_⟩
  · rw [hown, hdistance]
    exact hrounds.le _ (hgrid hother)
  · rw [hown, hdistance] at hequal
    refine hrounds.even _ (hgrid hother) (fun hsame => hne ?_) hequal
    rw [amount_not, ← hsame, neg_neg]

theorem roundsTo_self (hkept : Kept format significand exponent) :
    RoundsTo format (amount negative significand exponent) negative significand exponent := by
  refine ⟨hkept, fun other _ => ?_, fun other _ hne hequal => absurd ?_ hne⟩
  · rw [sub_self, abs_zero]
    exact abs_nonneg _
  · rw [sub_self, abs_zero] at hequal
    exact (sub_eq_zero.mp (abs_eq_zero.mp hequal.symm)).symm

theorem exists_roundsTo_nearest (hroomy : Roomy format) (significand : ℕ) (exponent : ℤ) :
    ∃ rounded place,
      RoundsTo format (amount false significand exponent) false rounded place ∧
        format.nearest (significand * 2 ^ exponent.toNat) (2 ^ (-exponent).toNat) =
          min (magnitude format rounded place) format.infinity := by
  rcases Nat.eq_zero_or_pos significand with rfl | hpos
  · have hzero : amount false 0 exponent = amount false 0 format.leastExponent := by
      simp [amount]
    have hkept : Kept format 0 format.leastExponent := ⟨by positivity, le_rfl, .inr rfl⟩
    refine ⟨0, format.leastExponent, hzero ▸ roundsTo_self hkept, ?_⟩
    simp [BinaryFormat.nearest, magnitude]
  · have hquotient : ((significand * 2 ^ exponent.toNat : ℕ) : ℚ) / (2 ^ (-exponent).toNat : ℕ) =
        amount false significand exponent := by
      rw [amount, if_neg (by decide), one_mul]
      exact_mod_cast (mul_zpow_eq_quotient significand 2 exponent).symm
    rw [← hquotient]
    exact roundsTo_nearest hroomy.fractionBits_pos (by positivity) (by positivity)

theorem rounded_ofFinite (hroomy : Roomy format) (negative : Bool) (significand : ℕ)
    (exponent : ℤ) :
    Rounded format negative (amount negative significand exponent)
      (format.decode (format.ofFinite negative significand exponent)) := by
  obtain ⟨rounded, place, hrounds, hnearest⟩ :=
    exists_roundsTo_nearest hroomy significand exponent
  have hsigned : RoundsTo format (amount negative significand exponent) negative rounded place := by
    cases negative with
    | false => exact hrounds
    | true =>
        have hneg := roundsTo_neg hrounds
        rw [← amount_not] at hneg
        exact hneg
  rw [BinaryFormat.ofFinite, hnearest]
  rcases lt_or_ge (magnitude format rounded place) format.infinity with hlt | hge
  · rw [min_eq_left hlt.le, decode_magnitude negative hrounds.kept hlt]
    exact .finite hsigned
  · rw [min_eq_right hge, decode_infinity]
    exact .infinite hsigned (beyond_of_infinity_le hroomy hrounds.kept hge)

theorem decode_quiet (hroomy : Roomy format) (negative : Bool) {rest : ℕ}
    (hrest : rest < 2 ^ (format.fractionBits - 1)) :
    format.decode (format.signed negative
        (format.infinity + 2 ^ (format.fractionBits - 1) + rest)) =
      .undefined negative (2 ^ (format.fractionBits - 1) + rest) := by
  have hscale : 0 < 2 ^ format.fractionBits := by positivity
  have hquiet : 0 < 2 ^ (format.fractionBits - 1) := by positivity
  have hpayload : 2 ^ (format.fractionBits - 1) + rest < 2 ^ format.fractionBits := by
    have hdouble : 2 * 2 ^ (format.fractionBits - 1) = 2 ^ format.fractionBits :=
      mul_pow_sub_one hroomy.fractionBits_pos.ne' 2
    omega
  have hsize : format.infinity + 2 ^ (format.fractionBits - 1) + rest =
      (2 ^ (format.fractionBits - 1) + rest) +
        2 ^ format.fractionBits * (2 ^ format.exponentBits - 1) := by
    rw [BinaryFormat.infinity]
    ring
  have hbounded : (2 ^ (format.fractionBits - 1) + rest) +
      2 ^ format.fractionBits * (2 ^ format.exponentBits - 1) < format.signWeight := by
    have hlast : format.signWeight =
        2 ^ format.fractionBits * (2 ^ format.exponentBits - 1) + 2 ^ format.fractionBits := by
      rw [← Nat.mul_succ, Nat.succ_eq_add_one, Nat.sub_add_cancel Nat.one_le_two_pow,
        BinaryFormat.signWeight, Nat.pow_add, Nat.mul_comm]
    omega
  rw [hsize, decode_signed negative hbounded, Nat.add_mul_div_left _ _ hscale,
    Nat.div_eq_of_lt hpayload, Nat.zero_add, if_pos rfl, Nat.add_mul_mod_self_left,
    Nat.mod_eq_of_lt hpayload, if_neg (by omega)]

theorem converted_convert (hroomy : Roomy format) (source : BinaryFormat) (word : ℕ) :
    Converted format (source.decode word) (format.decode (convert source format word)) := by
  rw [convert]
  cases source.decode word with
  | finite negative significand exponent =>
      exact .finite (rounded_ofFinite hroomy negative significand exponent)
  | infinite negative =>
      rw [decode_infinity]
      exact .infinite negative
  | undefined negative payload =>
      simp only
      rw [decode_quiet hroomy negative (Nat.mod_lt _ (by positivity))]
      exact .undefined _ _ _

structure Widens (source target : BinaryFormat) : Prop where
  precision : source.fractionBits ≤ target.fractionBits
  least : target.leastExponent ≤ source.leastExponent
  greatest : greatestExponent source ≤ greatestExponent target

variable {source target : BinaryFormat}

theorem exists_largest (hroomy : Roomy format) :
    ∃ word, format.decode word =
      .finite false (2 ^ (format.fractionBits + 1) - 1) (greatestExponent format) := by
  have hfour := four_le_two_pow hroomy.exponentBits_gt
  have hscale : 0 < 2 ^ format.fractionBits := by positivity
  have hdouble : 2 ^ (format.fractionBits + 1) = 2 * 2 ^ format.fractionBits := Nat.pow_succ'
  have hkept : Kept format (2 ^ (format.fractionBits + 1) - 1) (greatestExponent format) :=
    ⟨by omega, by unfold greatestExponent; omega, .inl (by omega)⟩
  refine ⟨_, decode_magnitude false hkept ?_⟩
  have hsteps : (greatestExponent format - format.leastExponent).toNat =
      2 ^ format.exponentBits - 3 := by
    unfold greatestExponent
    omega
  obtain ⟨rest, hrest⟩ := Nat.exists_eq_add_of_le (show 3 ≤ 2 ^ format.exponentBits by omega)
  rw [magnitude, hsteps, BinaryFormat.infinity, hrest, Nat.add_sub_cancel_left,
    show 3 + rest - 1 = 2 + rest by omega, Nat.add_mul]
  omega

theorem sameNumber_of_rounded (hsource : Roomy source) (htarget : Roomy target)
    (hwidens : Widens source target)
    (hdecode : source.decode word = .finite negative significand exponent) {result : BinaryValue}
    (hrounded : Rounded target negative (amount negative significand exponent) result) :
    SameNumber (.finite negative significand exponent) result := by
  obtain ⟨hkept, hgreatest⟩ := kept_of_decode hsource hdecode
  have hbound : significand < 2 ^ (target.fractionBits + 1) :=
    hkept.significand_lt.trans_le
      (Nat.pow_le_pow_right (by decide) (Nat.succ_le_succ hwidens.precision))
  have hgrid : OnGrid target (amount negative significand exponent) :=
    ⟨_, _, _, hbound, hwidens.least.trans hkept.least_le, rfl⟩
  have hexact : ∀ {rounded : ℕ} {place : ℤ},
      RoundsTo target (amount negative significand exponent) negative rounded place →
        amount negative significand exponent = amount negative rounded place := by
    intro rounded place hrounds
    have hzero := hrounds.le _ hgrid
    rw [sub_self, abs_zero] at hzero
    exact sub_eq_zero.mp (abs_nonpos_iff.mp hzero)
  cases hrounded with
  | finite hrounds => exact .finite (hexact hrounds)
  | infinite hrounds hbeyond =>
      -- The number itself is no larger than the largest finite word.
      obtain ⟨largest, hlargest⟩ := exists_largest htarget
      have hlarger := hbeyond largest _ _ _ hlargest
      rw [← size_eq_of_amount_eq (hexact hrounds)] at hlarger
      have hsignificand : significand ≤ 2 ^ (target.fractionBits + 1) - 1 := by omega
      have hpower : (2 : ℚ) ^ exponent ≤ (2 : ℚ) ^ greatestExponent target :=
        zpow_le_zpow_right₀ (by norm_num) (hgreatest.trans hwidens.greatest)
      exact absurd hlarger (not_lt.mpr (mul_le_mul (by exact_mod_cast hsignificand) hpower
        (by positivity) (by positivity)))

theorem sameNumber_of_converted (hsource : Roomy source) (htarget : Roomy target)
    (hwidens : Widens source target) {result : BinaryValue}
    (hconverted : Converted target (source.decode word) result) :
    SameNumber (source.decode word) result := by
  cases hdecode : source.decode word with
  | finite negative significand exponent =>
      rw [hdecode] at hconverted
      cases hconverted with
      | finite hrounded => exact sameNumber_of_rounded hsource htarget hwidens hdecode hrounded
  | infinite negative =>
      rw [hdecode] at hconverted
      cases hconverted
      exact .infinite negative
  | undefined negative payload =>
      rw [hdecode] at hconverted
      cases hconverted
      exact .undefined _ _ _

end Words

section Elements

variable {type : ElementType} {format : BinaryFormat}

/-- What a value stands for before it is rounded. -/
def exactValue : ElementValue → BinaryValue
  | .real word => double.decode word
  | .integer value => .finite (value < 0) value.natAbs 0
  | .truth value => .finite false value.toNat 0

/-- What is rounded when a value is converted to a floating-point type: the double of the value for
halves, and the value itself for the others. -/
def roundedFrom : ElementType → ElementValue → BinaryValue
  | .float16, value => double.decode (toDouble value)
  | _, value => exactValue value

theorem roomy_of_format? (hformat : type.format? = some format) : Roomy format := by
  cases type <;> cases hformat <;> exact ⟨by decide, by decide⟩

theorem converted_ofInt (hroomy : Roomy format) (value : Int) :
    Converted format (.finite (value < 0) value.natAbs 0) (format.decode (format.ofInt value)) :=
  .finite (rounded_ofFinite hroomy _ _ _)

theorem converted_truth (hroomy : Roomy format) (value : Bool) :
    Converted format (exactValue (.truth value))
      (format.decode (format.ofInt (if value then 1 else 0))) := by
  cases value with
  | true => exact converted_ofInt hroomy 1
  | false => exact converted_ofInt hroomy 0

theorem converted_toDouble (value : ElementValue) :
    Converted double (exactValue value) (double.decode (toDouble value)) := by
  have hroomy : Roomy double := ⟨by decide, by decide⟩
  cases value with
  | integer value => exact converted_ofInt hroomy value
  | truth value => exact converted_truth hroomy value
  | real word =>
      show Converted double (double.decode word) (double.decode word)
      cases hdecode : double.decode word with
      | finite negative significand exponent =>
          exact .finite (.finite (roundsTo_self (kept_of_decode hroomy hdecode).1))
      | infinite negative => exact .infinite negative
      | undefined negative payload => exact .undefined _ _ _

theorem converted_toSingle (value : ElementValue) :
    Converted single (exactValue value) (single.decode (toSingle value)) := by
  have hroomy : Roomy single := ⟨by decide, by decide⟩
  cases value with
  | integer value => exact converted_ofInt hroomy value
  | truth value => exact converted_truth hroomy value
  | real word => exact converted_convert hroomy double word

/-- A value that is converted to a floating-point type becomes the element nearest to it. -/
theorem converted_toElement (hformat : type.format? = some format) (value : ElementValue) :
    Converted format (roundedFrom type value)
      (format.decode (type.toWord (toElement type value))) := by
  have hroomy := roomy_of_format? hformat
  cases type with
  | float16 =>
      cases hformat
      show Converted half _ (half.decode (toHalf value % (half.signWeight * 2)))
      rw [decode_mod]
      exact converted_convert hroomy double _
  | float32 =>
      cases hformat
      show Converted single _ (single.decode (toSingle value % (single.signWeight * 2)))
      rw [decode_mod]
      exact converted_toSingle value
  | float64 =>
      cases hformat
      show Converted double _ (double.decode (toDouble value % (double.signWeight * 2)))
      rw [decode_mod]
      exact converted_toDouble value
  | _ => cases hformat

theorem forall₂_converted_cast (hformat : type.format? = some format) {buffer : Buffer}
    (hne : buffer.type ≠ type) :
    List.Forall₂ (fun element word => Converted format
        (roundedFrom type (ofElement buffer.type element)) (format.decode word))
      buffer.elements ((cast type buffer).elements.map (cast type buffer).type.toWord) := by
  have hcast : cast type buffer =
      ⟨type, buffer.elements.map fun element => toElement type (ofElement buffer.type element)⟩ :=
    if_neg hne
  rw [hcast, List.map_map, List.forall₂_map_right_iff, List.forall₂_same]
  exact fun element _ => converted_toElement hformat (ofElement buffer.type element)

/-- The double that an element is read as is the same number. -/
theorem sameNumber_ofElement (hformat : type.format? = some format) (element : type.Element) :
    SameNumber (format.decode (type.toWord element)) (exactValue (ofElement type element)) := by
  have hdouble : Roomy double := ⟨by decide, by decide⟩
  have hwiden : ∀ word, Widens format double →
      SameNumber (format.decode word) (double.decode (convert format double word)) :=
    fun word hwidens => sameNumber_of_converted (roomy_of_format? hformat) hdouble hwidens
      (converted_convert hdouble format word)
  cases type with
  | float16 =>
      cases hformat
      exact hwiden _ ⟨by decide, by decide, by decide⟩
  | float32 =>
      cases hformat
      exact hwiden _ ⟨by decide, by decide, by decide⟩
  | float64 =>
      cases hformat
      show SameNumber (double.decode element.toNat) (double.decode element.toNat)
      cases double.decode element.toNat with
      | finite negative significand exponent => exact .finite rfl
      | infinite negative => exact .infinite negative
      | undefined negative payload => exact .undefined _ _ _
  | _ => cases hformat

end Elements

end Apportion.Proofs.Tensor.FloatCasts
