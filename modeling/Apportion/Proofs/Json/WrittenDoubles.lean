import Mathlib
import Apportion.Json.Readers
import Apportion.Json.Writing
import Apportion.Proofs.Outcomes
import Apportion.Proofs.Json.WrittenNumbers
import Apportion.Proofs.Number.ReadDecimals

namespace Apportion.Proofs.Json.WrittenDoubles

open Apportion.Number.Binary
open Apportion.Number.Shortest
open Apportion.Number.DecimalText
open Apportion.Json.Scalars
open Apportion.Json.Readers
open Apportion.Json.Writing
open Apportion.Proofs.Outcomes
open Apportion.Proofs.Json.WrittenNumbers
open Apportion.Proofs.Number.DoubleRounding
open Apportion.Proofs.Number.FormatRounding
open Apportion.Proofs.Number.NearestWords
open Apportion.Proofs.Number.ReadDecimals
open Apportion.Proofs.Number.ShortestDecimals

/-- The end of a number behind its digits, which may be empty, moves the point by so many places. -/
structure MovesPoint (tail : List Char) (power : ℤ) : Prop where
  endsDigits : ∀ rest, EndsNumber rest → EndsDigits (tail ++ rest)
  reads : ∀ negative decimal rest, EndsNumber rest →
    readExponent negative decimal (tail ++ rest) =
      (readReal negative (decimal.shift power)).map (·, rest)

structure ReadsAs (text : List Char) (decimal : Decimal) : Prop where
  starts : ∃ first others, text = first :: others ∧ first.isDigit = true
  reads : ∀ negative rest, EndsNumber rest →
    readMagnitude negative (text ++ rest) = (readReal negative decimal).map (·, rest)

theorem shift_zero (decimal : Decimal) : decimal.shift 0 = decimal := by
  rw [Decimal.shift, add_zero]

theorem movesPoint_nil : MovesPoint [] 0 where
  endsDigits _ hrest := hrest.endsDigits
  reads negative decimal rest hrest := by
    rw [List.nil_append, shift_zero]
    cases rest with
    | nil => rfl
    | cons character rest =>
        obtain ⟨-, -, hlower, hupper⟩ := hrest character rfl
        simp [readExponent, hlower, hupper]

inductive SignForm : Bool → List Char → Prop
  | none : SignForm false []
  | plus : SignForm false ['+']
  | minus : SignForm true ['-']

theorem readExponent_marked (negative : Bool) (decimal : Decimal) {mark : Char}
    (hmark : mark = 'e' ∨ mark = 'E') {below : Bool} {sign size rest : List Char}
    (hsign : SignForm below sign) (hsize : ∀ character ∈ size, character.isDigit = true)
    (hsome : size ≠ []) (hrest : EndsNumber rest) :
    readExponent negative decimal (mark :: (sign ++ (size ++ rest))) =
      (readReal negative (decimal.shift
        (if below then -(Nat.ofDigitChars 10 size 0 : ℤ) else Nat.ofDigitChars 10 size 0))).map
          (·, rest) := by
  have htake := takeWhile_isDigit hsize hrest.endsDigits
  have hdrop := dropWhile_isDigit hsize hrest.endsDigits
  obtain ⟨first, others, rfl⟩ := List.exists_cons_of_ne_nil hsome
  have hfirst : first.isDigit = true := hsize first (by simp)
  have hplus : first ≠ '+' := ne_of_isDigit hfirst rfl
  have hminus : first ≠ '-' := ne_of_isDigit hfirst rfl
  rw [List.cons_append] at htake hdrop ⊢
  cases hsign with
  | none =>
      rw [List.nil_append, readExponent.eq_def]
      refine (if_pos hmark).trans ?_
      split
      rename_i below text hsigned
      obtain ⟨rfl, rfl⟩ : below = false ∧ text = first :: (others ++ rest) := by
        split at hsigned <;> simp_all
      simp only [hfirst, Bool.false_eq_true, if_true, if_false, htake, hdrop]
      cases readReal negative (decimal.shift _) <;> rfl
  | plus =>
      simp only [List.cons_append, List.nil_append, readExponent, hmark, hfirst,
        Bool.false_eq_true, if_true, if_false, htake, hdrop]
      cases readReal negative (decimal.shift _) <;> rfl
  | minus =>
      simp only [List.cons_append, List.nil_append, readExponent, hmark, hfirst, if_true, htake,
        hdrop]
      cases readReal negative (decimal.shift _) <;> rfl

theorem movesPoint_marked {mark : Char} (hmark : mark = 'e' ∨ mark = 'E') {below : Bool}
    {sign size : List Char} (hsign : SignForm below sign)
    (hsize : ∀ character ∈ size, character.isDigit = true) (hsome : size ≠ []) :
    MovesPoint (mark :: (sign ++ size))
      (if below then -(Nat.ofDigitChars 10 size 0 : ℤ) else Nat.ofDigitChars 10 size 0) where
  endsDigits rest _ := by
    rintro character ⟨⟩
    rcases hmark with rfl | rfl <;> rfl
  reads negative decimal rest hrest := by
    rw [List.cons_append, List.append_assoc]
    exact readExponent_marked negative decimal hmark hsign hsize hsome hrest

def exponentText (power : ℤ) : List Char :=
  'e' :: (if power < 0 then '-' else '+') :: Nat.toDigits 10 power.natAbs

theorem movesPoint_exponentText (power : ℤ) : MovesPoint (exponentText power) power := by
  have hall : ∀ character ∈ Nat.toDigits 10 power.natAbs, character.isDigit = true :=
    fun character hmem => isDigit_of_mem_digits hmem
  have hsize : Nat.ofDigitChars 10 (Nat.toDigits 10 power.natAbs) 0 = power.natAbs :=
    Nat.ofDigitChars_ten_toDigits
  unfold exponentText
  by_cases hpower : power < 0
  · have hmoves := movesPoint_marked (.inl rfl) .minus hall Nat.toDigits_ne_nil
    rw [hsize, if_pos rfl] at hmoves
    rw [if_pos hpower]
    rwa [show -(power.natAbs : ℤ) = power by omega] at hmoves
  · have hmoves := movesPoint_marked (.inl rfl) .plus hall Nat.toDigits_ne_nil
    rw [hsize, if_neg (by decide)] at hmoves
    rw [if_neg hpower]
    rwa [show (power.natAbs : ℤ) = power by omega] at hmoves

theorem readFraction_pointed (negative : Bool) (whole : List Char) {fraction tail rest : List Char}
    {power : ℤ} (hfraction : ∀ character ∈ fraction, character.isDigit = true)
    (hsome : fraction ≠ []) (htail : MovesPoint tail power) (hrest : EndsNumber rest) :
    readFraction negative whole ('.' :: (fraction ++ (tail ++ rest))) =
      (readReal negative ((packDigits whole fraction).shift power)).map (·, rest) := by
  have hends := htail.endsDigits rest hrest
  have hnonempty : ¬fraction.isEmpty = true := by simpa using hsome
  rw [readFraction, if_pos rfl, takeWhile_isDigit hfraction hends]
  simp only
  rw [if_neg hnonempty, dropWhile_isDigit hfraction hends, htail.reads _ _ _ hrest]

theorem readsAs_pointed {first : Char} {others fraction tail : List Char} {power : ℤ}
    (hwhole : ∀ character ∈ first :: others, character.isDigit = true)
    (hlead : first = '0' → others = [])
    (hfraction : ∀ character ∈ fraction, character.isDigit = true) (hsome : fraction ≠ [])
    (htail : MovesPoint tail power)
    (hfits : Nat.ofDigitChars 10 (first :: others ++ fraction) 0 < UInt64.size) :
    ReadsAs (first :: others ++ '.' :: (fraction ++ tail))
      ⟨Nat.ofDigitChars 10 (first :: others ++ fraction) 0, power - fraction.length⟩ where
  starts := ⟨first, _, rfl, hwhole first (by simp)⟩
  reads negative rest hrest := by
    have hpoint : EndsDigits ('.' :: (fraction ++ (tail ++ rest))) := by
      rintro character ⟨⟩
      rfl
    have hread := readMagnitude_whole negative hwhole hlead hpoint
    rw [readFraction_pointed negative _ hfraction hsome htail hrest, packDigits_of_lt hfits,
      Decimal.shift, neg_add_eq_sub] at hread
    simpa only [List.cons_append, List.append_assoc] using hread

theorem readsAs_digit {digit : Char} (hdigit : digit.isDigit = true) (power : ℤ)
    (hfits : Nat.ofDigitChars 10 [digit] 0 < UInt64.size) :
    ReadsAs (digit :: exponentText power) ⟨Nat.ofDigitChars 10 [digit] 0, power⟩ where
  starts := ⟨digit, _, rfl, hdigit⟩
  reads negative rest hrest := by
    have htail := movesPoint_exponentText power
    have hwhole : ∀ character ∈ [digit], character.isDigit = true := by simpa using hdigit
    have hpacked : (packDigits [digit] []).shift power =
        ⟨Nat.ofDigitChars 10 [digit] 0, power⟩ := by
      rw [packDigits_of_lt hfits, Decimal.shift]
      simp
    rw [← hpacked, ← htail.reads negative _ rest hrest]
    exact readMagnitude_whole negative hwhole (fun _ => rfl) (htail.endsDigits rest hrest)

theorem isDigit_of_mem_zeros {zeros : ℕ} {character : Char}
    (hmem : character ∈ List.replicate zeros '0') : character.isDigit = true := by
  rw [(List.mem_replicate.mp hmem).2]
  rfl

theorem isDigit_zero : ∀ character ∈ ['0'], character.isDigit = true :=
  List.forall_mem_singleton.mpr rfl

theorem toDigits_eq_cons_of_pos {count : ℕ} (hpos : 0 < count) :
    ∃ first others, Nat.toDigits 10 count = first :: others ∧ first ≠ '0' := by
  obtain ⟨first, others, hcons, -, -⟩ := toDigits_eq_cons count
  refine ⟨first, others, hcons, fun hzero => head?_toDigits hpos ?_⟩
  rw [hcons, hzero]
  rfl

theorem ofDigitChars_padded (count zeros : ℕ) :
    Nat.ofDigitChars 10 (Nat.toDigits 10 count ++ List.replicate zeros '0') 0 =
      count * 10 ^ zeros := by
  rw [Nat.ofDigitChars_append, Nat.ofDigitChars_ten_toDigits, Nat.ofDigitChars_replicate_zero,
    Nat.mul_comm]

theorem readsAs_padded {count : ℕ} (hpos : 0 < count) {zeros : ℕ}
    (hfits : count * 10 ^ (zeros + 1) < UInt64.size) :
    ReadsAs (Nat.toDigits 10 count ++ List.replicate zeros '0' ++ ['.', '0'])
      ⟨count * 10 ^ (zeros + 1), -1⟩ := by
  obtain ⟨first, others, hcons, hfirst⟩ := toDigits_eq_cons_of_pos hpos
  have hall : ∀ character ∈ first :: (others ++ List.replicate zeros '0'),
      character.isDigit = true := by
    intro character hmem
    rw [← List.cons_append, ← hcons, List.mem_append] at hmem
    exact hmem.elim isDigit_of_mem_digits isDigit_of_mem_zeros
  have hvalue : Nat.ofDigitChars 10 (first :: (others ++ List.replicate zeros '0') ++ ['0']) 0 =
      count * 10 ^ (zeros + 1) := by
    have hzeros : List.replicate zeros '0' ++ ['0'] = List.replicate (zeros + 1) '0' :=
      List.replicate_succ'.symm
    rw [← List.cons_append, ← hcons, List.append_assoc, hzeros, ofDigitChars_padded]
  have hread := readsAs_pointed hall (fun hlead => absurd hlead hfirst) isDigit_zero
    (List.cons_ne_nil '0' []) movesPoint_nil (hvalue ▸ hfits)
  rw [hvalue] at hread
  rw [hcons]
  exact hread

theorem readsAs_between {count places : ℕ} (hpos : 0 < count) (hfits : count < UInt64.size)
    (hsome : 0 < places) (hinside : places < (Nat.toDigits 10 count).length) :
    ReadsAs ((Nat.toDigits 10 count).take ((Nat.toDigits 10 count).length - places) ++
        '.' :: (Nat.toDigits 10 count).drop ((Nat.toDigits 10 count).length - places))
      ⟨count, -(places : ℤ)⟩ := by
  obtain ⟨first, others, hcons, hfirst⟩ := toDigits_eq_cons_of_pos hpos
  obtain ⟨whole, hwhole⟩ : ∃ whole, (Nat.toDigits 10 count).length - places = whole + 1 :=
    ⟨_, (Nat.succ_pred (by omega)).symm⟩
  have hall : ∀ character ∈ Nat.toDigits 10 count, character.isDigit = true :=
    fun character hmem => isDigit_of_mem_digits hmem
  have htake : (Nat.toDigits 10 count).take (whole + 1) = first :: others.take whole := by
    rw [hcons, List.take_succ_cons]
  have hlength : ((Nat.toDigits 10 count).drop (whole + 1)).length = places := by
    rw [List.length_drop]
    omega
  have hfraction : (Nat.toDigits 10 count).drop (whole + 1) ≠ [] :=
    List.ne_nil_of_length_pos (by omega)
  have hvalue : Nat.ofDigitChars 10
      (first :: others.take whole ++ (Nat.toDigits 10 count).drop (whole + 1)) 0 = count := by
    rw [← htake, List.take_append_drop, Nat.ofDigitChars_ten_toDigits]
  have hread := readsAs_pointed
    (fun character hmem => hall character (List.mem_of_mem_take (htake ▸ hmem)))
    (fun hlead => absurd hlead hfirst)
    (fun character hmem => hall character (List.mem_of_mem_drop hmem)) hfraction movesPoint_nil
    (hvalue.symm ▸ hfits)
  rw [hvalue, hlength, zero_sub, ← htake, List.append_nil] at hread
  rw [hwhole]
  exact hread

theorem readsAs_behind {count places : ℕ} (hfits : count < UInt64.size)
    (hbehind : (Nat.toDigits 10 count).length ≤ places) :
    ReadsAs ('0' :: '.' :: (List.replicate (places - (Nat.toDigits 10 count).length) '0' ++
        Nat.toDigits 10 count))
      ⟨count, -(places : ℤ)⟩ := by
  set fraction := List.replicate (places - (Nat.toDigits 10 count).length) '0' ++
    Nat.toDigits 10 count with hfraction
  have hall : ∀ character ∈ fraction, character.isDigit = true := by
    intro character hmem
    rw [hfraction, List.mem_append] at hmem
    exact hmem.elim isDigit_of_mem_zeros isDigit_of_mem_digits
  have hlength : fraction.length = places := by
    rw [hfraction, List.length_append, List.length_replicate]
    omega
  have hdigits : 0 < (Nat.toDigits 10 count).length := Nat.length_toDigits_pos
  have hvalue : Nat.ofDigitChars 10 (['0'] ++ fraction) 0 = count := by
    rw [hfraction, List.singleton_append, Nat.ofDigitChars_cons, Nat.ofDigitChars_append,
      Nat.ofDigitChars_replicate_zero]
    exact Nat.ofDigitChars_ten_toDigits
  have hread := readsAs_pointed isDigit_zero (fun _ => rfl) hall
    (List.ne_nil_of_length_pos (by omega)) movesPoint_nil (hvalue.symm ▸ hfits)
  rw [hlength, zero_sub, hvalue, List.append_nil] at hread
  exact hread

variable {decimal : Decimal}

theorem readsAs_whole (hpos : 0 < decimal.digits) (hwhole : 0 ≤ decimal.exponent)
    (hfits : decimal.digits * 10 ^ (decimal.exponent.toNat + 1) < UInt64.size) :
    ReadsAs (positional decimal ++ ['.', '0'])
      ⟨decimal.digits * 10 ^ (decimal.exponent.toNat + 1), -1⟩ := by
  have htext : positional decimal = Nat.toDigits 10 decimal.digits ++
      List.replicate decimal.exponent.toNat '0' := if_pos hwhole
  rw [htext]
  exact readsAs_padded hpos hfits

theorem readsAs_fraction (hpos : 0 < decimal.digits) (hfits : decimal.digits < UInt64.size)
    (hfraction : decimal.exponent < 0) : ReadsAs (positional decimal) decimal := by
  obtain ⟨places, hplaces⟩ := Int.eq_ofNat_of_zero_le (show 0 ≤ -decimal.exponent by omega)
  have hdecimal : decimal = ⟨decimal.digits, -(places : ℤ)⟩ := by
    rw [← hplaces, neg_neg]
  have hcount : (-decimal.exponent).toNat = places := by omega
  by_cases hinside : places < (Nat.toDigits 10 decimal.digits).length
  · have htext : positional decimal = _ :=
      (if_neg (by omega)).trans (if_pos (hcount.symm ▸ hinside))
    have hread := readsAs_between hpos hfits (by omega) hinside
    rw [← hdecimal] at hread
    rw [htext, hcount]
    exact hread
  · have htext : positional decimal = _ :=
      (if_neg (by omega)).trans (if_neg (hcount.symm ▸ hinside))
    have hread := readsAs_behind hfits (Nat.not_lt.mp hinside)
    rw [← hdecimal] at hread
    rw [htext, hcount]
    exact hread

theorem readsAs_scientific (hpos : 0 < decimal.digits) (hfits : decimal.digits < UInt64.size) :
    ReadsAs (scientific decimal) decimal := by
  obtain ⟨first, others, hcons, hfirst⟩ := toDigits_eq_cons_of_pos hpos
  have hall : ∀ character ∈ first :: others, character.isDigit = true := by
    rw [← hcons]
    exact fun character hmem => isDigit_of_mem_digits hmem
  have hvalue : Nat.ofDigitChars 10 (first :: others) 0 = decimal.digits := by
    rw [← hcons]
    exact Nat.ofDigitChars_ten_toDigits
  rw [scientific]
  simp only [digitChars, hcons]
  cases others with
  | nil =>
      have hread := readsAs_digit (hall first (by simp)) decimal.exponent (hvalue ▸ hfits)
      rw [hvalue] at hread
      have hpower : decimal.exponent + (([first] : List Char).length : ℤ) - 1 =
          decimal.exponent := by simp
      rw [hpower]
      exact hread
  | cons second rest =>
      have hleading : ∀ character ∈ [first], character.isDigit = true := by
        simpa using hall first (by simp)
      have hread := readsAs_pointed hleading (fun _ => rfl)
        (fun character hmem => hall character (List.mem_cons_of_mem first hmem))
        (List.cons_ne_nil second rest)
        (movesPoint_exponentText (decimal.exponent + (first :: second :: rest).length - 1))
        (hvalue.symm ▸ hfits)
      have hpower : decimal.exponent + ((first :: second :: rest).length : ℤ) - 1 -
          (second :: rest).length = decimal.exponent := by
        simp only [List.length_cons]
        omega
      rw [hpower, List.singleton_append, List.singleton_append, hvalue] at hread
      exact hread

/-- The decimal that the text of a double is read as. The digits take in the zeros that stand before
the point and the one behind it. -/
def spelledDecimal (significand : ℕ) (exponent : ℤ) : Decimal :=
  if significand = 0 then ⟨0, -1⟩
  else
    let decimal := shortest .even double significand exponent
    let point := decimal.exponent + (digitChars decimal.digits).length
    if (-5 < point ∧ point ≤ 16) ∧ 0 ≤ decimal.exponent then
      ⟨decimal.digits * 10 ^ (decimal.exponent.toNat + 1), -1⟩
    else decimal

variable {significand : ℕ} {exponent : ℤ}

theorem readsAs_jsonMagnitude (hcanonical : Canonical significand exponent) :
    ReadsAs (jsonMagnitude significand exponent) (spelledDecimal significand exponent) := by
  rcases Nat.eq_zero_or_pos significand with rfl | hpos
  · exact readsAs_pointed isDigit_zero (fun _ => rfl) isDigit_zero (List.cons_ne_nil '0' [])
      movesPoint_nil (by decide)
  have hdigits := digits_shortest_pos .even hcanonical hpos
  have hmost := (shortest_spec .even hcanonical hpos).1
  have hfits : (shortest .even double significand exponent).digits < UInt64.size :=
    hmost.trans_lt (by decide)
  rw [jsonMagnitude, spelledDecimal, if_neg hpos.ne', if_neg hpos.ne']
  simp only
  generalize shortest .even double significand exponent = decimal at *
  by_cases hpoint : -5 < decimal.exponent + (digitChars decimal.digits).length ∧
      decimal.exponent + (digitChars decimal.digits).length ≤ 16
  · rw [if_pos hpoint]
    by_cases hwhole : 0 ≤ decimal.exponent
    · rw [if_pos hwhole, if_pos ⟨hpoint, hwhole⟩]
      refine readsAs_whole hdigits hwhole ?_
      have hlength : decimal.digits < 10 ^ (digitChars decimal.digits).length :=
        (Nat.length_toDigits_le_iff (by decide) Nat.length_toDigits_pos).mp le_rfl
      calc decimal.digits * 10 ^ (decimal.exponent.toNat + 1)
          ≤ 10 ^ (digitChars decimal.digits).length * 10 ^ (decimal.exponent.toNat + 1) :=
            Nat.mul_le_mul_right _ hlength.le
        _ = 10 ^ ((digitChars decimal.digits).length + (decimal.exponent.toNat + 1)) :=
            (pow_add _ _ _).symm
        _ ≤ 10 ^ 17 := Nat.pow_le_pow_right (by decide) (by omega)
        _ < UInt64.size := by decide
    · rw [if_neg hwhole, if_neg fun hboth => hwhole hboth.2]
      exact readsAs_fraction hdigits hfits (not_le.mp hwhole)
  · rw [if_neg hpoint, if_neg fun hboth => hpoint hboth.1]
    exact readsAs_scientific hdigits hfits

theorem nearestWord_spelledDecimal (hcanonical : Canonical significand exponent)
    (hle : exponent ≤ 971) :
    nearestWord (spelledDecimal significand exponent) = magnitude double significand exponent := by
  rcases Nat.eq_zero_or_pos significand with rfl | hpos
  · obtain rfl : exponent = -1074 := hcanonical.full.resolve_left (by norm_num)
    decide
  have hamount : decimalAmount (spelledDecimal significand exponent) =
      decimalAmount (shortest .even double significand exponent) := by
    rw [spelledDecimal, if_neg hpos.ne']
    simp only
    split
    · rename_i hwhole
      rw [decimalAmount, decimalAmount, ← Int.toNat_of_nonneg hwhole.2, zpow_natCast,
        Int.toNat_natCast]
      push_cast
      rw [pow_succ]
      norm_num
      ring
    · rfl
  refine nearestWord_of_within hcanonical hpos hle ?_
  rw [hamount]
  exact (shortest_spec .even hcanonical hpos).2

def writtenDecimal (x : Float) : Decimal :=
  match double.decode x.toBits.toNat with
  | .finite _ significand exponent => spelledDecimal significand exponent
  | _ => ⟨0, 0⟩

theorem readReal_of_roundsNearest (negative : Bool) {decimal : Decimal}
    (hrounds : RoundsNearest decimal) (hfinite : nearestWord decimal < double.infinity) :
    readReal negative decimal =
      .ok (.real (UInt64.ofNat (double.signed negative (nearestWord decimal)))) := by
  obtain ⟨magnitude, hmagnitude, hbits⟩ := hrounds.exists_double hfinite
  rw [readReal, hmagnitude, ← hbits]

theorem startsNumber_of_isDigit {character : Char} (hdigit : character.isDigit = true) :
    startsNumber character = true := by
  simp [startsNumber, hdigit]

theorem isBlank_of_startsNumber {character : Char} (hstart : startsNumber character = true) :
    isBlank character = false := by
  simp only [startsNumber, Bool.or_eq_true, beq_iff_eq] at hstart
  rcases hstart with rfl | hdigit
  · decide
  · simp only [isBlank, Bool.or_eq_false_iff, beq_eq_false_iff_ne]
    exact ⟨⟨⟨ne_of_isDigit hdigit rfl, ne_of_isDigit hdigit rfl⟩, ne_of_isDigit hdigit rfl⟩,
      ne_of_isDigit hdigit rfl⟩

theorem readAnyNumber_cons {first : Char} (hstart : startsNumber first = true) (expected : String)
    (others : List Char) :
    readAnyNumber expected (first :: others) = readNumber (first :: others) := by
  have hfirst : firstCharacter (first :: others) = .ok (first, others) := by
    simp only [firstCharacter, skipBlanks, List.dropWhile_cons, isBlank_of_startsNumber hstart,
      Bool.false_eq_true, if_false]
  rw [readAnyNumber, hfirst, ok_bind]
  exact if_pos hstart

theorem readAnyNumber_signed {text : List Char} (htext : ReadsAs text decimal)
    (expected : String) (negative : Bool) (rest : List Char) :
    readAnyNumber expected ((if negative then '-' :: text else text) ++ rest) =
      readMagnitude negative (text ++ rest) := by
  obtain ⟨first, others, rfl, hfirst⟩ := htext.starts
  cases negative with
  | true => exact readAnyNumber_cons (by decide) expected _
  | false =>
      exact (readAnyNumber_cons (startsNumber_of_isDigit hfirst) expected _).trans
        (readNumber_digit hfirst _)

theorem toList_writeDouble {x : Float} (hfinite : x.isFinite = true) {negative : Bool}
    {significand : ℕ} {exponent : ℤ}
    (hdecode : double.decode x.toBits.toNat = .finite negative significand exponent) :
    (writeDouble x).toList =
      if negative then '-' :: jsonMagnitude significand exponent
      else jsonMagnitude significand exponent := by
  rw [writeDouble, if_pos hfinite, jsonText, wordText, hdecode]
  exact String.toList_ofList

theorem readDouble_writeDouble {x : Float} (hfinite : x.isFinite = true)
    (hrounds : RoundsNearest (writtenDecimal x)) {rest : List Char} (hrest : EndsNumber rest) :
    readDouble ((writeDouble x).toList ++ rest) = .ok (x, rest) := by
  obtain ⟨negative, significand, exponent, hdecode, hcanonical, hle, hword⟩ := decode_toBits hfinite
  have hwritten : writtenDecimal x = spelledDecimal significand exponent := by
    rw [writtenDecimal, hdecode]
  have htext := readsAs_jsonMagnitude hcanonical
  have hnearest := nearestWord_spelledDecimal hcanonical hle
  have hreal := readReal_of_roundsNearest negative (hwritten ▸ hrounds)
    (hnearest ▸ magnitude_lt_infinity hcanonical hle)
  rw [readDouble, toList_writeDouble hfinite hdecode, readAnyNumber_signed htext,
    htext.reads negative rest hrest, hreal, hnearest, hword, UInt64.ofNat_toNat]
  exact congrArg (fun double => Except.ok (double, rest)) (Float.ofBits_toBits x)

theorem readDouble_writeDouble_of_not_isFinite {x : Float} (hinfinite : x.isFinite = false)
    (rest : List Char) :
    readDouble ((writeDouble x).toList ++ rest) =
      .error (.content (.mismatch (.kind .nothing "f64"))) := by
  have htext : writeDouble x = "null" := by
    rw [writeDouble, hinfinite]
    rfl
  rw [htext]
  rfl

end Apportion.Proofs.Json.WrittenDoubles
