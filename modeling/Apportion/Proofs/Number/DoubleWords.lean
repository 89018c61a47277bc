import Apportion.Proofs.Number.DoubleOperations

namespace Apportion.Proofs.Number.DoubleWords

open Float.Model
open Float.Model.UnpackedFloat
open Apportion.Proofs.Number.DoubleRounding

theorem size_lt_of_exponent_lt {small large : ℕ} {low high : ℤ} (hsmall : Canonical small low)
    (hlarge : Canonical large high) (hlt : low < high) :
    (small : ℚ) * (2 : ℚ) ^ low < large * (2 : ℚ) ^ high := by
  have hfull : 2 ^ 52 ≤ large := by
    rcases hlarge.full with hfull | hleast
    · exact hfull
    · have := hsmall.least_le
      omega
  calc (small : ℚ) * (2 : ℚ) ^ low < 2 ^ 53 * (2 : ℚ) ^ low :=
        mul_lt_mul_of_pos_right (by exact_mod_cast hsmall.mantissa_lt) (by positivity)
    _ = 2 ^ 52 * (2 : ℚ) ^ (low + 1) := by
        rw [zpow_add_one₀ (by norm_num)]
        ring
    _ ≤ large * (2 : ℚ) ^ (low + 1) :=
        mul_le_mul_of_nonneg_right (by exact_mod_cast hfull) (by positivity)
    _ ≤ large * (2 : ℚ) ^ high :=
        mul_le_mul_of_nonneg_left (zpow_le_zpow_right₀ (by norm_num) hlt) (by positivity)

theorem compare_sizes {mantissa mantissa' : ℕ} {exponent exponent' : ℤ}
    (hcanonical : Canonical mantissa exponent) (hcanonical' : Canonical mantissa' exponent') :
    (compare exponent exponent').then (compare mantissa mantissa') =
      compare ((mantissa : ℚ) * (2 : ℚ) ^ exponent) (mantissa' * (2 : ℚ) ^ exponent') := by
  rcases lt_trichotomy exponent exponent' with hlt | rfl | hgt
  · rw [Int.compare_eq_lt.mpr hlt,
      compare_lt_iff_lt.mpr (size_lt_of_exponent_lt hcanonical hcanonical' hlt)]
    rfl
  · have hpower : (0 : ℚ) < 2 ^ exponent := by positivity
    rw [Int.compare_eq_eq.mpr rfl, Ordering.eq_then]
    rcases lt_trichotomy mantissa mantissa' with hlt | rfl | hgt
    · rw [Nat.compare_eq_lt.mpr hlt, eq_comm, compare_lt_iff_lt]
      exact mul_lt_mul_of_pos_right (by exact_mod_cast hlt) hpower
    · rw [Nat.compare_eq_eq.mpr rfl, eq_comm, compare_eq_iff_eq]
    · rw [Nat.compare_eq_gt.mpr hgt, eq_comm, compare_gt_iff_gt]
      exact mul_lt_mul_of_pos_right (by exact_mod_cast hgt) hpower
  · rw [Int.compare_eq_gt.mpr hgt,
      compare_gt_iff_gt.mpr (size_lt_of_exponent_lt hcanonical' hcanonical hgt)]
    rfl

theorem compare_neg_neg (left right : ℚ) :
    compare (-left) (-right) = (compare left right).swap := by
  rcases lt_trichotomy left right with hlt | rfl | hgt
  · rw [compare_gt_iff_gt.mpr (neg_lt_neg hlt), compare_lt_iff_lt.mpr hlt]
    rfl
  · rw [compare_eq_iff_eq.mpr rfl, compare_eq_iff_eq.mpr rfl]
    rfl
  · rw [compare_lt_iff_lt.mpr (neg_lt_neg hgt), compare_gt_iff_gt.mpr hgt]
    rfl

theorem compare_amount {left right : UnpackedFloat} (hleft : IsCanonical left)
    (hright : IsCanonical right) :
    left.compare right = some (compare (amount left) (amount right)) := by
  have hsize : ∀ {mantissa : ℕ} (exponent : ℤ), 0 < mantissa →
      (0 : ℚ) < mantissa * (2 : ℚ) ^ exponent := by
    intro mantissa exponent hpos
    positivity
  obtain ⟨sign, rfl⟩ | ⟨sign, mantissa, exponent, hpos, rfl, hfinite⟩ := hleft.zero_or_finite
  · obtain ⟨other, rfl⟩ | ⟨other, mantissa, exponent, hpos, rfl, -⟩ := hright.zero_or_finite
    · rw [amount_zero, amount_zero, compare_eq_iff_eq.mpr rfl]
      rfl
    · cases other with
      | negative =>
          show some Ordering.gt = some (compare (0 : ℚ) (-(mantissa * (2 : ℚ) ^ exponent)))
          rw [compare_gt_iff_gt.mpr (neg_lt_zero.mpr (hsize exponent hpos))]
      | positive =>
          show some Ordering.lt = some (compare (0 : ℚ) (mantissa * (2 : ℚ) ^ exponent))
          rw [compare_lt_iff_lt.mpr (hsize exponent hpos)]
  · obtain ⟨other, rfl⟩ | ⟨other, mantissa', exponent', hpos', rfl, hfinite'⟩ :=
      hright.zero_or_finite
    · cases sign with
      | negative =>
          show some Ordering.lt = some (compare (-(mantissa * (2 : ℚ) ^ exponent)) (0 : ℚ))
          rw [compare_lt_iff_lt.mpr (neg_lt_zero.mpr (hsize exponent hpos))]
      | positive =>
          show some Ordering.gt = some (compare (mantissa * (2 : ℚ) ^ exponent) (0 : ℚ))
          rw [compare_gt_iff_gt.mpr (hsize exponent hpos)]
    · have hsizes := compare_sizes hfinite hfinite'
      cases sign <;> cases other
      · show some ((compare exponent exponent').then (compare mantissa mantissa')).swap =
          some (compare (-(mantissa * (2 : ℚ) ^ exponent)) (-(mantissa' * (2 : ℚ) ^ exponent')))
        rw [hsizes, compare_neg_neg]
      · show some Ordering.lt =
          some (compare (-(mantissa * (2 : ℚ) ^ exponent)) (mantissa' * (2 : ℚ) ^ exponent'))
        rw [compare_lt_iff_lt.mpr ((neg_lt_zero.mpr (hsize exponent hpos)).trans
          (hsize exponent' hpos'))]
      · show some Ordering.gt =
          some (compare (mantissa * (2 : ℚ) ^ exponent) (-(mantissa' * (2 : ℚ) ^ exponent')))
        rw [compare_gt_iff_gt.mpr ((neg_lt_zero.mpr (hsize exponent' hpos')).trans
          (hsize exponent hpos))]
      · exact congrArg some hsizes

theorem toNat_one_append (mantissa : BitVec 52) :
    (1#1 ++ mantissa).toNat = 2 ^ 52 + mantissa.toNat := by
  rw [BitVec.toNat_append, ← Nat.shiftLeft_add_eq_or_of_lt mantissa.isLt]
  rfl

def ofFields (sign : Sign) (exponent : BitVec 11) (mantissa : BitVec 52) : UnpackedFloat :=
  if exponent = -1#11 then
    if mantissa = 0#52 then .infinity sign else .notANumber
  else if exponent = 0#11 then
    if h : mantissa = 0#52 then .zero sign
    else
      .finite sign mantissa.toNat (exponent.toNat - 1075 + 1)
        (Nat.pos_of_ne_zero fun hzero => h (BitVec.eq_of_toNat_eq (by simpa using hzero)))
  else
    .finite sign (1#1 ++ mantissa).toNat (exponent.toNat - 1075)
      (by rw [toNat_one_append]; positivity)

theorem unpack_eq_ofFields (word : BitVec 64) :
    UnpackedFloat.unpack Format.binary64 word =
      ofFields (Sign.ofBitVec (@unpackSign Format.binary64 word))
        (@unpackExponent Format.binary64 word) (@unpackMantissa Format.binary64 word) := rfl

theorem unpack_packComponents (sign : Sign) (exponent : BitVec 11) (mantissa : BitVec 52) :
    UnpackedFloat.unpack Format.binary64 (packComponents Format.binary64 sign exponent mantissa) =
      ofFields sign exponent mantissa := by
  rw [unpack_eq_ofFields, unpackSign_packComponents, Sign.ofBitVec_toBitVec,
    unpackExponent_packComponents, unpackMantissa_packComponents]

/-- The least size that doubles have no room for. -/
theorem exponent_le_iff {mantissa : ℕ} {exponent : ℤ} (hcanonical : Canonical mantissa exponent) :
    exponent ≤ 971 ↔ (mantissa : ℚ) * (2 : ℚ) ^ exponent < 2 ^ 1024 := by
  constructor
  · intro hle
    calc (mantissa : ℚ) * (2 : ℚ) ^ exponent < 2 ^ 53 * (2 : ℚ) ^ exponent :=
          mul_lt_mul_of_pos_right (by exact_mod_cast hcanonical.mantissa_lt) (by positivity)
      _ ≤ 2 ^ 53 * (2 : ℚ) ^ (971 : ℤ) :=
          mul_le_mul_of_nonneg_left (zpow_le_zpow_right₀ (by norm_num) hle) (by positivity)
      _ = 2 ^ 1024 := by rw [zpow_ofNat, ← pow_add]
  · intro hlt
    by_contra hgt
    have hfull : 2 ^ 52 ≤ mantissa := by
      rcases hcanonical.full with hfull | hleast
      · exact hfull
      · omega
    have hge : (2 : ℚ) ^ 1024 ≤ mantissa * (2 : ℚ) ^ exponent := by
      calc (2 : ℚ) ^ 1024 = 2 ^ 52 * (2 : ℚ) ^ (972 : ℤ) := by rw [zpow_ofNat, ← pow_add]
        _ ≤ 2 ^ 52 * (2 : ℚ) ^ exponent :=
            mul_le_mul_of_nonneg_left (zpow_le_zpow_right₀ (by norm_num) (by omega)) (by positivity)
        _ ≤ mantissa * (2 : ℚ) ^ exponent :=
            mul_le_mul_of_nonneg_right (by exact_mod_cast hfull) (by positivity)
    exact absurd hlt (not_lt.mpr hge)

theorem abs_amount_finite (sign : Sign) (mantissa : ℕ) (exponent : ℤ) (hpos : 0 < mantissa) :
    |amount (.finite sign mantissa exponent hpos)| = mantissa * (2 : ℚ) ^ exponent := by
  have hsize : (0 : ℚ) ≤ mantissa * (2 : ℚ) ^ exponent := by positivity
  cases sign with
  | negative =>
      show |-(mantissa * (2 : ℚ) ^ exponent)| = _
      rw [abs_neg, abs_of_nonneg hsize]
  | positive => exact abs_of_nonneg hsize

theorem canonical_unpack {word : BitVec 64}
    (hfinite : (UnpackedFloat.unpack Format.binary64 word).isFinite = true) :
    IsCanonical (UnpackedFloat.unpack Format.binary64 word) ∧
      |amount (UnpackedFloat.unpack Format.binary64 word)| < 2 ^ 1024 := by
  rw [unpack_eq_ofFields] at hfinite ⊢
  generalize Sign.ofBitVec (@unpackSign Format.binary64 word) = sign at hfinite ⊢
  revert hfinite
  generalize (@unpackExponent Format.binary64 word : BitVec 11) = exponent
  generalize (@unpackMantissa Format.binary64 word : BitVec 52) = mantissa
  intro hfinite
  unfold ofFields at hfinite ⊢
  split at hfinite
  · split at hfinite <;> exact absurd hfinite (by simp [UnpackedFloat.isFinite])
  · rename_i hbounded
    have hexponent : exponent.toNat ≤ 2046 := by
      have hne : exponent.toNat ≠ 2047 := fun heq => hbounded (BitVec.eq_of_toNat_eq heq)
      have hlt : exponent.toNat < 2048 := exponent.isLt
      omega
    have hmantissa : mantissa.toNat < 2 ^ 52 := mantissa.isLt
    rw [if_neg hbounded]
    split
    · rename_i hleast
      split
      · exact ⟨trivial, by norm_num [amount]⟩
      · have hcanonical : Canonical mantissa.toNat ((exponent.toNat : ℤ) - 1075 + 1) := by
          rw [hleast]
          exact ⟨by omega, by decide, .inr (by decide)⟩
        refine ⟨hcanonical, ?_⟩
        rw [abs_amount_finite, ← exponent_le_iff hcanonical, hleast]
        decide
    · rename_i hnormal
      have hsome : exponent.toNat ≠ 0 := fun heq => hnormal (BitVec.eq_of_toNat_eq heq)
      have hcanonical : Canonical (1#1 ++ mantissa).toNat ((exponent.toNat : ℤ) - 1075) := by
        rw [toNat_one_append]
        exact ⟨by omega, by omega, .inl (by omega)⟩
      refine ⟨hcanonical, ?_⟩
      rw [abs_amount_finite]
      exact (exponent_le_iff hcanonical).mp (by omega)

theorem finite_congr (sign : Sign) {mantissa mantissa' : ℕ} {exponent exponent' : ℤ}
    (hmantissa : mantissa = mantissa') (hexponent : exponent = exponent') (hpos : 0 < mantissa)
    (hpos' : 0 < mantissa') :
    UnpackedFloat.finite sign mantissa exponent hpos = .finite sign mantissa' exponent' hpos' := by
  subst hmantissa hexponent
  rfl

theorem ofFields_normal (sign : Sign) {mantissa : ℕ} {exponent : ℤ} (hpos : 0 < mantissa)
    (hfull : 2 ^ 52 ≤ mantissa) (hcanonical : Canonical mantissa exponent) (hle : exponent ≤ 971) :
    ofFields sign (BitVec.ofNat 11 (exponent + 1023 + 52).toNat) (BitVec.ofNat 52 mantissa) =
      .finite sign mantissa exponent hpos := by
  have hleast := hcanonical.least_le
  have hmantissa := hcanonical.mantissa_lt
  have hfield : (BitVec.ofNat 11 (exponent + 1023 + 52).toNat).toNat =
      (exponent + 1023 + 52).toNat := by
    rw [BitVec.toNat_ofNat, Nat.mod_eq_of_lt (by omega)]
  have hbounded : BitVec.ofNat 11 (exponent + 1023 + 52).toNat ≠ -1#11 := by
    intro heq
    have hlast : (exponent + 1023 + 52).toNat = 2047 := by
      rw [← hfield, heq]
      rfl
    omega
  have hnormal : BitVec.ofNat 11 (exponent + 1023 + 52).toNat ≠ 0#11 := by
    intro heq
    have hzero : (exponent + 1023 + 52).toNat = 0 := by
      rw [← hfield, heq]
      rfl
    omega
  unfold ofFields
  rw [if_neg hbounded, if_neg hnormal]
  apply finite_congr
  · rw [toNat_one_append, BitVec.toNat_ofNat]
    omega
  · rw [hfield]
    omega

theorem ofFields_subnormal (sign : Sign) {mantissa : ℕ} (hpos : 0 < mantissa)
    (hsmall : mantissa < 2 ^ 52) :
    ofFields sign 0#11 (BitVec.ofNat 52 mantissa) = .finite sign mantissa (-1074) hpos := by
  have hfield : (BitVec.ofNat 52 mantissa).toNat = mantissa := by
    rw [BitVec.toNat_ofNat, Nat.mod_eq_of_lt hsmall]
  have hsome : BitVec.ofNat 52 mantissa ≠ 0#52 := by
    intro heq
    have hzero : mantissa = 0 := by
      rw [← hfield, heq]
      rfl
    omega
  unfold ofFields
  rw [if_neg (by decide), if_pos rfl, dif_neg hsome]
  exact finite_congr sign hfield rfl _ _

theorem unpack_pack_of_lt {number : UnpackedFloat} (hcanonical : IsCanonical number)
    (hlt : |amount number| < 2 ^ 1024) :
    UnpackedFloat.unpack Format.binary64 (UnpackedFloat.pack Format.binary64 number) = number := by
  obtain ⟨sign, rfl⟩ | ⟨sign, mantissa, exponent, hpos, rfl, hfinite⟩ := hcanonical.zero_or_finite
  · exact unpack_packComponents sign 0#11 0#52
  · rw [abs_amount_finite, ← exponent_le_iff hfinite] at hlt
    have hmantissa := hfinite.mantissa_lt
    unfold UnpackedFloat.pack
    show UnpackedFloat.unpack Format.binary64
      (if 2048 ≤ (exponent + 1023 + 52).toNat + 1 then _
        else if mantissa.log2 + 1 = 53 then _ else _) = _
    rw [if_neg (by omega)]
    split
    · have hfull : 2 ^ 52 ≤ mantissa := (Nat.le_log2 hpos.ne').mp (by omega)
      refine (unpack_packComponents sign (BitVec.ofNat 11 (exponent + 1023 + 52).toNat)
        (BitVec.ofNat 52 mantissa)).trans ?_
      exact ofFields_normal sign hpos hfull hfinite hlt
    · rename_i hbits
      have hsmall : mantissa < 2 ^ 52 := by
        by_contra hlarge
        have hlog : 52 ≤ mantissa.log2 := (Nat.le_log2 hpos.ne').mpr (by omega)
        have hlog' : mantissa.log2 < 53 := (Nat.log2_lt hpos.ne').mpr hmantissa
        omega
      obtain rfl : exponent = -1074 := hfinite.full.resolve_left (by omega)
      refine (unpack_packComponents sign 0#11 (BitVec.ofNat 52 mantissa)).trans ?_
      exact ofFields_subnormal sign hpos hsmall

theorem unpack_pack_of_ge {number : UnpackedFloat} (hcanonical : IsCanonical number)
    (hge : 2 ^ 1024 ≤ |amount number|) :
    ∃ sign, UnpackedFloat.unpack Format.binary64 (UnpackedFloat.pack Format.binary64 number) =
      .infinity sign ∧ (sign = .negative → amount number < 0) := by
  obtain ⟨sign, rfl⟩ | ⟨sign, mantissa, exponent, hpos, rfl, hfinite⟩ := hcanonical.zero_or_finite
  · rw [amount_zero, abs_zero] at hge
    exact absurd hge (not_le.mpr (by positivity))
  · rw [abs_amount_finite, ← not_lt, ← exponent_le_iff hfinite] at hge
    refine ⟨sign, ?_, ?_⟩
    · unfold UnpackedFloat.pack
      show UnpackedFloat.unpack Format.binary64
        (if 2048 ≤ (exponent + 1023 + 52).toNat + 1 then _
          else if mantissa.log2 + 1 = 53 then _ else _) = _
      rw [if_pos (by omega)]
      exact unpack_packComponents sign (-1#11) 0#52
    · rintro rfl
      show -((mantissa : ℚ) * (2 : ℚ) ^ exponent) < 0
      rw [neg_lt_zero]
      positivity

end Apportion.Proofs.Number.DoubleWords
