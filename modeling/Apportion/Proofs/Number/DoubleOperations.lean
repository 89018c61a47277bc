import Apportion.Proofs.Number.DoubleRounding

namespace Apportion.Proofs.Number.DoubleOperations

open Float.Model
open Float.Model.UnpackedFloat
open Apportion.Proofs.Number.DoubleRounding

theorem signed_natCast_mul (sign : Sign) (mantissa : ℕ) (power : ℚ) :
    signed sign (mantissa * power) = (sign.apply mantissa : ℤ) * power := by
  cases sign with
  | negative =>
      show -(mantissa * power) = ((-(mantissa : ℤ) : ℤ) : ℚ) * power
      push_cast
      ring
  | positive => rfl

theorem log2_shiftLeft {mantissa : ℕ} (hmantissa : mantissa ≠ 0) (steps : ℕ) :
    (mantissa <<< steps).log2 = mantissa.log2 + steps := by
  have hshifted : mantissa <<< steps ≠ 0 := by
    rw [Nat.shiftLeft_eq]
    positivity
  rw [Nat.log2_eq_iff hshifted, Nat.shiftLeft_eq]
  constructor
  · rw [pow_add]
    exact Nat.mul_le_mul_right _ (Nat.log2_self_le hmantissa)
  · rw [show mantissa.log2 + steps + 1 = mantissa.log2 + 1 + steps by omega, pow_add]
    exact Nat.mul_lt_mul_of_pos_right Nat.lt_log2_self (by positivity)

theorem decreaseExponent_amount (mantissa : ℕ) (exponent least : ℤ) :
    ((decreaseExponent mantissa exponent least).1 : ℚ) *
      (2 : ℚ) ^ (decreaseExponent mantissa exponent least).2 = mantissa * (2 : ℚ) ^ exponent := by
  show ((mantissa <<< (exponent - least).toNat : ℕ) : ℚ) *
    (2 : ℚ) ^ (exponent - ((exponent - least).toNat : ℤ)) = _
  rw [Nat.shiftLeft_eq]
  push_cast
  rw [mul_assoc, ← zpow_natCast, ← zpow_add₀ (by norm_num)]
  congr 2
  omega

theorem round_nearest (sign : Sign) (mantissa : ℕ) (exponent : ℤ) (hmantissa : mantissa ≠ 0) :
    RoundedTo (signed sign (mantissa * (2 : ℚ) ^ exponent))
      (UnpackedFloat.round Format.binary64 sign mantissa exponent) := by
  have hexponent : (decreaseExponent mantissa exponent (target mantissa exponent)).2 ≤
      target (decreaseExponent mantissa exponent (target mantissa exponent)).1
        (decreaseExponent mantissa exponent (target mantissa exponent)).2 := by
    show exponent - ((exponent - target mantissa exponent).toNat : ℤ) ≤
      target (mantissa <<< (exponent - target mantissa exponent).toNat)
        (exponent - ((exponent - target mantissa exponent).toNat : ℤ))
    have haim : target mantissa exponent = max (mantissa.log2 + exponent - 52) (-1074) := rfl
    generalize target mantissa exponent = least at haim ⊢
    show _ ≤ max (((mantissa <<< (exponent - least).toNat).log2 : ℤ) + _ - 52) (-1074)
    rw [log2_shiftLeft hmantissa]
    push_cast
    omega
  have hholds : Holds
      (.ofMantissaAndAccuracy (decreaseExponent mantissa exponent (target mantissa exponent)).1
        .exact)
      (mantissa * (2 : ℚ) ^ exponent /
        (2 : ℚ) ^ (decreaseExponent mantissa exponent (target mantissa exponent)).2) := by
    rw [← decreaseExponent_amount mantissa exponent (target mantissa exponent),
      mul_div_cancel_right₀ _ (by positivity)]
    rfl
  rw [UnpackedFloat.round, targetExponent_eq_target]
  exact roundWithAccuracy_nearest sign hholds hexponent

theorem normalize_nearest (mantissa exponent : ℤ) (zeroSign : Sign) :
    RoundedTo (mantissa * (2 : ℚ) ^ exponent)
      (UnpackedFloat.normalize Format.binary64 mantissa exponent zeroSign) := by
  unfold UnpackedFloat.normalize
  rcases lt_trichotomy mantissa 0 with hneg | rfl | hpos
  · rw [Int.compare_eq_lt.mpr hneg]
    have hround := round_nearest .negative (-mantissa).toNat exponent (by omega)
    have hsize : (((-mantissa).toNat : ℕ) : ℚ) = -mantissa := by
      exact_mod_cast Int.toNat_of_nonneg (show 0 ≤ -mantissa by omega)
    rw [hsize] at hround
    simpa [signed] using hround
  · have hzero : compare (0 : ℤ) 0 = .eq := rfl
    rw [hzero, Int.cast_zero, zero_mul]
    exact roundedTo_zero zeroSign
  · rw [Int.compare_eq_gt.mpr hpos]
    have hround := round_nearest .positive mantissa.toNat exponent (by omega)
    have hsize : ((mantissa.toNat : ℕ) : ℚ) = mantissa := by
      exact_mod_cast Int.toNat_of_nonneg hpos.le
    rwa [hsize] at hround

theorem apply_decreaseExponent (sign : Sign) (mantissa : ℕ) {exponent least : ℤ}
    (hleast : least ≤ exponent) :
    ((sign.apply (decreaseExponent mantissa exponent least).1 : ℤ) : ℚ) * (2 : ℚ) ^ least =
      signed sign (mantissa * (2 : ℚ) ^ exponent) := by
  have hexponent : (decreaseExponent mantissa exponent least).2 = least := by
    show exponent - ((exponent - least).toNat : ℤ) = least
    omega
  rw [← decreaseExponent_amount mantissa exponent least, hexponent, signed_natCast_mul]

theorem add_nearest {left right : UnpackedFloat} (hleft : IsCanonical left)
    (hright : IsCanonical right) :
    RoundedTo (amount left + amount right) (UnpackedFloat.add Format.binary64 left right) := by
  obtain ⟨sign, rfl⟩ | ⟨sign, mantissa, exponent, hpos, rfl, -⟩ := hleft.zero_or_finite
  · rw [amount_zero, zero_add]
    obtain ⟨other, rfl⟩ | ⟨other, mantissa, exponent, hpos, rfl, -⟩ := hright.zero_or_finite
    · rw [UnpackedFloat.add]
      split
      · exact roundedTo_zero sign
      · exact roundedTo_zero .positive
    · exact roundedTo_amount hright
  · obtain ⟨other, rfl⟩ | ⟨other, mantissa', exponent', hpos', rfl, -⟩ := hright.zero_or_finite
    · rw [amount_zero, add_zero]
      exact roundedTo_amount hleft
    · have hrounded := normalize_nearest
        (sign.apply (decreaseExponent mantissa exponent (min exponent exponent')).1 +
          other.apply (decreaseExponent mantissa' exponent' (min exponent exponent')).1)
        (min exponent exponent') .positive
      push_cast at hrounded
      rwa [add_mul, apply_decreaseExponent sign mantissa (min_le_left _ _),
        apply_decreaseExponent other mantissa' (min_le_right _ _)] at hrounded

theorem amount_neg_sign (sign : Sign) (mantissa : ℕ) (exponent : ℤ) (hpos : 0 < mantissa) :
    amount (.finite (-sign) mantissa exponent hpos) =
      -amount (.finite sign mantissa exponent hpos) := by
  cases sign with
  | negative => exact (neg_neg _).symm
  | positive => rfl

theorem sub_nearest {left right : UnpackedFloat} (hleft : IsCanonical left)
    (hright : IsCanonical right) :
    RoundedTo (amount left - amount right) (UnpackedFloat.sub Format.binary64 left right) := by
  obtain ⟨sign, rfl⟩ | ⟨sign, mantissa, exponent, hpos, rfl, -⟩ := hleft.zero_or_finite
  · rw [amount_zero, zero_sub]
    obtain ⟨other, rfl⟩ | ⟨other, mantissa, exponent, hpos, rfl, -⟩ := hright.zero_or_finite
    · rw [amount_zero, neg_zero, UnpackedFloat.sub]
      split
      · exact roundedTo_zero sign
      · exact roundedTo_zero .positive
    · rw [← amount_neg_sign]
      exact roundedTo_amount
        (show IsCanonical (.finite (-other) mantissa exponent hpos) from hright)
  · obtain ⟨other, rfl⟩ | ⟨other, mantissa', exponent', hpos', rfl, -⟩ := hright.zero_or_finite
    · rw [amount_zero, sub_zero]
      exact roundedTo_amount hleft
    · have hrounded := normalize_nearest
        (sign.apply (decreaseExponent mantissa exponent (min exponent exponent')).1 -
          other.apply (decreaseExponent mantissa' exponent' (min exponent exponent')).1)
        (min exponent exponent') .positive
      push_cast at hrounded
      rwa [sub_mul, apply_decreaseExponent sign mantissa (min_le_left _ _),
        apply_decreaseExponent other mantissa' (min_le_right _ _)] at hrounded

theorem signed_mul (left right : Sign) (first second : ℚ) :
    signed (left * right) (first * second) = signed left first * signed right second := by
  cases left <;> cases right
  · exact (neg_mul_neg first second).symm
  · exact (neg_mul first second).symm
  · exact (mul_neg first second).symm
  · rfl

theorem signed_div (left right : Sign) (first second : ℚ) :
    signed (left / right) (first / second) = signed left first / signed right second := by
  cases left <;> cases right
  · exact (neg_div_neg_eq first second).symm
  · exact (neg_div second first).symm
  · exact (div_neg first).symm
  · rfl

theorem le_target_mul {mantissa mantissa' : ℕ} {exponent exponent' : ℤ}
    (hpos : 0 < mantissa) (hpos' : 0 < mantissa') (hcanonical : Canonical mantissa exponent)
    (hcanonical' : Canonical mantissa' exponent') :
    exponent + exponent' ≤ target (mantissa * mantissa') (exponent + exponent') := by
  have haim : target (mantissa * mantissa') (exponent + exponent') =
      max ((mantissa * mantissa').log2 + (exponent + exponent') - 52) (-1074) := rfl
  have hbits : 2 ^ 52 ≤ mantissa * mantissa' → 52 ≤ (mantissa * mantissa').log2 := fun hlarge =>
    (Nat.le_log2 (by positivity)).mpr hlarge
  rcases hcanonical.full with hfull | hleast
  · have := hbits (hfull.trans (Nat.le_mul_of_pos_right mantissa hpos'))
    omega
  · rcases hcanonical'.full with hfull' | hleast'
    · have := hbits (hfull'.trans (Nat.le_mul_of_pos_left mantissa' hpos))
      omega
    · omega

theorem mul_nearest {left right : UnpackedFloat} (hleft : IsCanonical left)
    (hright : IsCanonical right) :
    RoundedTo (amount left * amount right) (UnpackedFloat.mul Format.binary64 left right) := by
  obtain ⟨sign, rfl⟩ | ⟨sign, mantissa, exponent, hpos, rfl, hfinite⟩ := hleft.zero_or_finite
  · rw [amount_zero, zero_mul]
    obtain ⟨other, rfl⟩ | ⟨other, mantissa, exponent, hpos, rfl, -⟩ := hright.zero_or_finite
    · exact roundedTo_zero (sign * other)
    · exact roundedTo_zero (sign * other)
  · obtain ⟨other, rfl⟩ | ⟨other, mantissa', exponent', hpos', rfl, hfinite'⟩ :=
      hright.zero_or_finite
    · rw [amount_zero, mul_zero]
      exact roundedTo_zero (sign * other)
    · have hexact : amount (.finite sign mantissa exponent hpos) *
          amount (.finite other mantissa' exponent' hpos') =
            signed (sign * other) (((mantissa * mantissa' : ℕ) : ℚ) *
              (2 : ℚ) ^ (exponent + exponent')) := by
        rw [amount, amount, ← signed_mul, zpow_add₀ (by norm_num)]
        push_cast
        ring_nf
      have hholds : Holds (.ofMantissaAndAccuracy (mantissa * mantissa') .exact)
          (((mantissa * mantissa' : ℕ) : ℚ) * (2 : ℚ) ^ (exponent + exponent') /
            (2 : ℚ) ^ (exponent + exponent')) := by
        rw [mul_div_cancel_right₀ _ (by positivity)]
        rfl
      rw [hexact]
      exact roundWithAccuracy_nearest (sign * other) hholds
        (le_target_mul hpos hpos' hfinite hfinite')

theorem holds_accuracyOfFraction (whole : ℕ) {rest denominator : ℕ} (hlt : rest < denominator) :
    Holds (.ofMantissaAndAccuracy whole (accuracyOfFraction rest denominator))
      (whole + (rest : ℚ) / denominator) := by
  have hden : (0 : ℚ) < denominator := by exact_mod_cast (Nat.zero_le rest).trans_lt hlt
  have hrest : (rest : ℚ) < denominator := by exact_mod_cast hlt
  unfold accuracyOfFraction
  split
  · rename_i hnone
    show (whole : ℚ) + (rest : ℚ) / denominator = whole
    rw [hnone, Nat.cast_zero, zero_div, add_zero]
  · rename_i hsome
    have hrestPos : (0 : ℚ) < rest := by exact_mod_cast Nat.pos_of_ne_zero hsome
    have hfraction : 0 < (rest : ℚ) / denominator := div_pos hrestPos hden
    have hwhole : (rest : ℚ) / denominator < 1 := (div_lt_one hden).mpr hrest
    rcases Nat.lt_trichotomy (2 * rest) denominator with hlt | heq | hgt
    · have hdouble : (2 : ℚ) * rest < denominator := by exact_mod_cast hlt
      have hhalf : (rest : ℚ) / denominator < 1 / 2 := by
        rw [div_lt_div_iff₀ hden (by norm_num)]
        linarith
      rw [Nat.compare_eq_lt.mpr hlt]
      show (whole : ℚ) < whole + (rest : ℚ) / denominator ∧
        (whole : ℚ) + (rest : ℚ) / denominator < whole + 1 / 2
      constructor <;> linarith
    · have hdouble : (2 : ℚ) * rest = denominator := by exact_mod_cast heq
      have hhalf : (rest : ℚ) / denominator = 1 / 2 := by
        rw [div_eq_div_iff hden.ne' (by norm_num)]
        linarith
      rw [Nat.compare_eq_eq.mpr heq]
      show (whole : ℚ) + (rest : ℚ) / denominator = whole + 1 / 2
      rw [hhalf]
    · have hdouble : (denominator : ℚ) < 2 * rest := by exact_mod_cast hgt
      have hhalf : 1 / 2 < (rest : ℚ) / denominator := by
        rw [div_lt_div_iff₀ (by norm_num) hden]
        linarith
      rw [Nat.compare_eq_gt.mpr hgt]
      show (whole : ℚ) + 1 / 2 < whole + (rest : ℚ) / denominator ∧
        (whole : ℚ) + (rest : ℚ) / denominator < whole + 1
      constructor <;> linarith

theorem holds_quotient (numerator : ℕ) {denominator : ℕ} (hpos : 0 < denominator) :
    Holds (.ofMantissaAndAccuracy (numerator / denominator)
      (accuracyOfFraction (numerator % denominator) denominator))
      ((numerator : ℚ) / denominator) := by
  have hden : (denominator : ℚ) ≠ 0 := by exact_mod_cast hpos.ne'
  have hsplit : ((numerator / denominator : ℕ) : ℚ) * denominator +
      ((numerator % denominator : ℕ) : ℚ) = numerator := by
    exact_mod_cast Nat.div_add_mod' numerator denominator
  rw [show (numerator : ℚ) / denominator = ((numerator / denominator : ℕ) : ℚ) +
      ((numerator % denominator : ℕ) : ℚ) / denominator by
    rw [← hsplit, add_div, mul_div_cancel_right₀ _ hden]]
  exact holds_accuracyOfFraction _ (Nat.mod_lt numerator hpos)

def quotientExponent (mantissa : ℕ) (exponent : ℤ) (mantissa' : ℕ) (exponent' : ℤ) : ℤ :=
  min (exponent - exponent')
    (max ((mantissa.log2 + exponent) - (mantissa'.log2 + exponent') - 53) (-1074))

theorem divCore_eq (mantissa : ℕ) (exponent : ℤ) (mantissa' : ℕ) (exponent' : ℤ) :
    divCore Format.binary64 mantissa exponent mantissa' exponent' =
      let aim := quotientExponent mantissa exponent mantissa' exponent'
      let numerator := mantissa <<< (exponent - exponent' - aim).toNat
      (numerator / mantissa', aim, accuracyOfFraction (numerator % mantissa') mantissa') := by
  have haim : min (exponent - exponent') (Format.binary64.targetExponent
      (totalExponent mantissa exponent - totalExponent mantissa' exponent')) =
        quotientExponent mantissa exponent mantissa' exponent' := by
    show min _ (max ((mantissa.log2 : ℤ) + 1 + exponent - (mantissa'.log2 + 1 + exponent') - 53)
      (-1074)) = min _ (max _ _)
    congr 2
    omega
  rw [divCore, haim]

theorem le_target_div {mantissa mantissa' : ℕ} (exponent exponent' : ℤ) (hpos : 0 < mantissa)
    (hpos' : 0 < mantissa') :
    quotientExponent mantissa exponent mantissa' exponent' ≤
      target (mantissa <<< (exponent - exponent' -
          quotientExponent mantissa exponent mantissa' exponent').toNat / mantissa')
        (quotientExponent mantissa exponent mantissa' exponent') := by
  have haim : quotientExponent mantissa exponent mantissa' exponent' = min (exponent - exponent')
    (max ((mantissa.log2 + exponent) - (mantissa'.log2 + exponent') - 53) (-1074)) := rfl
  generalize quotientExponent mantissa exponent mantissa' exponent' = aim at haim ⊢
  generalize hsteps : (exponent - exponent' - aim).toNat = steps
  show aim ≤ max (((mantissa <<< steps / mantissa').log2 : ℤ) + aim - 52) (-1074)
  by_cases hleast : aim ≤ -1074
  · omega
  · -- Above the smallest exponent the quotient has at least 53 bits.
    have hbits : mantissa'.log2 + 1 + 52 ≤ mantissa.log2 + steps := by omega
    have hquotient : 2 ^ 52 ≤ mantissa <<< steps / mantissa' := by
      rw [Nat.le_div_iff_mul_le hpos', Nat.shiftLeft_eq]
      calc 2 ^ 52 * mantissa' ≤ 2 ^ 52 * 2 ^ (mantissa'.log2 + 1) :=
            Nat.mul_le_mul_left _ Nat.lt_log2_self.le
        _ = 2 ^ (mantissa'.log2 + 1 + 52) := by rw [← pow_add, add_comm]
        _ ≤ 2 ^ (mantissa.log2 + steps) := Nat.pow_le_pow_right (by norm_num) hbits
        _ = 2 ^ mantissa.log2 * 2 ^ steps := pow_add _ _ _
        _ ≤ mantissa * 2 ^ steps := Nat.mul_le_mul_right _ (Nat.log2_self_le hpos.ne')
    have hlog : 52 ≤ (mantissa <<< steps / mantissa').log2 :=
      (Nat.le_log2 (by omega)).mpr hquotient
    omega

theorem div_nearest {left right : UnpackedFloat} (hleft : IsCanonical left)
    (hright : IsCanonical right) (hdivisor : amount right ≠ 0) :
    RoundedTo (amount left / amount right) (UnpackedFloat.div Format.binary64 left right) := by
  obtain ⟨other, rfl⟩ | ⟨other, mantissa', exponent', hpos', rfl, -⟩ := hright.zero_or_finite
  · exact absurd rfl hdivisor
  · obtain ⟨sign, rfl⟩ | ⟨sign, mantissa, exponent, hpos, rfl, -⟩ := hleft.zero_or_finite
    · rw [amount_zero, zero_div]
      exact roundedTo_zero (sign / other)
    · generalize haim : quotientExponent mantissa exponent mantissa' exponent' = aim
      have hle : aim ≤ exponent - exponent' := haim ▸ min_le_left _ _
      have hsteps : ((exponent - exponent' - aim).toNat : ℤ) = exponent - exponent' - aim :=
        Int.toNat_of_nonneg (by omega)
      have hquotient := holds_quotient (mantissa <<< (exponent - exponent' - aim).toNat) hpos'
      have htarget := le_target_div exponent exponent' hpos hpos'
      rw [haim] at htarget
      have hexact : amount (.finite sign mantissa exponent hpos) /
          amount (.finite other mantissa' exponent' hpos') =
            signed (sign / other) (((mantissa <<< (exponent - exponent' - aim).toNat : ℕ) : ℚ) /
              mantissa' * (2 : ℚ) ^ aim) := by
        rw [amount, amount, ← signed_div, Nat.shiftLeft_eq]
        congr 1
        push_cast
        rw [← zpow_natCast, hsteps, zpow_sub₀ (by norm_num), zpow_sub₀ (by norm_num)]
        field_simp
      rw [← mul_div_cancel_right₀ ((_ : ℚ) / _) (show (2 : ℚ) ^ aim ≠ 0 by positivity)]
        at hquotient
      rw [hexact, UnpackedFloat.div, divCore_eq]
      simp only [haim]
      exact roundWithAccuracy_nearest (sign / other) hquotient htarget

end Apportion.Proofs.Number.DoubleOperations
