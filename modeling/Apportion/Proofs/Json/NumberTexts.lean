import Mathlib
import Apportion.Proofs.Json.SpacedTexts
import Apportion.Proofs.Json.WrittenDoubles

namespace Apportion.Proofs.Json.NumberTexts

open Apportion.Number.Binary
open Apportion.Number.Shortest
open Apportion.Number.DecimalReading
open Apportion.Json.Faults
open Apportion.Json.Scalars
open Apportion.Json.Readers
open Apportion.Proofs.Outcomes
open Apportion.Proofs.Number.ReadDecimals
open Apportion.Proofs.Json.WrittenNumbers
open Apportion.Proofs.Json.SpacedTexts
open Apportion.Proofs.Json.WrittenDoubles

/-- Digits before the point: at least one, and none behind a leading zero. -/
structure IsWhole (digits : List Char) : Prop where
  isDigit : ∀ character ∈ digits, character.isDigit = true
  leading : ∃ first others, digits = first :: others ∧ (first = '0' → others = [])

/-- The digits behind the point, and none if there is no point. -/
inductive FractionForm : List Char → List Char → Prop
  | none : FractionForm [] []
  | pointed {digits : List Char} (hdigits : ∀ character ∈ digits, character.isDigit = true)
      (hsome : digits ≠ []) : FractionForm digits ('.' :: digits)

inductive ExponentForm : ℤ → List Char → Prop
  | none : ExponentForm 0 []
  | marked {mark : Char} {below : Bool} {sign size : List Char} (hmark : mark = 'e' ∨ mark = 'E')
      (hsign : SignForm below sign) (hsize : ∀ character ∈ size, character.isDigit = true)
      (hsome : size ≠ []) :
      ExponentForm
        (if below then -(Nat.ofDigitChars 10 size 0 : ℤ) else Nat.ofDigitChars 10 size 0)
        (mark :: (sign ++ size))

def signText (negative : Bool) : List Char :=
  if negative then ['-'] else []

/-- The text is a number with this sign whose digits and exponent are taken for this decimal. -/
inductive NumberForm : Bool → Decimal → List Char → Prop
  | mk {negative : Bool} {whole fraction pointed tail : List Char} {power : ℤ}
      (hwhole : IsWhole whole) (hfraction : FractionForm fraction pointed)
      (hexponent : ExponentForm power tail) :
      NumberForm negative ((packDigits whole fraction).shift power)
        (signText negative ++ (whole ++ (pointed ++ tail)))

theorem ExponentForm.movesPoint {power : ℤ} {tail : List Char} (hform : ExponentForm power tail) :
    MovesPoint tail power := by
  cases hform with
  | none => exact movesPoint_nil
  | marked hmark hsign hsize hsome => exact movesPoint_marked hmark hsign hsize hsome

/-- The number that is read is this double with a sign. -/
def HasMagnitude (outcome : Except JsonError Number) (negative : Bool) (magnitude : Float) : Prop :=
  ∃ number, outcome = .ok number ∧
    number.word = UInt64.ofNat (double.signed negative magnitude.toBits.toNat)

theorem hasMagnitude_readReal (negative : Bool) {decimal : Decimal} {magnitude : Float}
    (hdecimal : doubleOfDecimal? decimal = some magnitude) :
    HasMagnitude (readReal negative decimal) negative magnitude := by
  refine ⟨.real (UInt64.ofNat (double.signed negative magnitude.toBits.toNat)), ?_, rfl⟩
  rw [readReal, hdecimal]

theorem word_integer (negative : Bool) {count : ℕ} (hbound : count < UInt64.size)
    (hpos : negative = true → 0 < count) {magnitude : Float}
    (hdecimal : doubleOfDecimal? ⟨count, 0⟩ = some magnitude) :
    (Number.integer (if negative then -(count : ℤ) else count)).word =
      UInt64.ofNat (double.signed negative magnitude.toBits.toNat) := by
  obtain ⟨x, hread, hbits⟩ := doubleOfDecimal?_whole hbound
  obtain rfl := Option.some.inj (hread.symm.trans hdecimal)
  rw [hbits, Number.word, BinaryFormat.ofInt, BinaryFormat.ofFinite]
  cases negative with
  | true => simp [hpos rfl]
  | false =>
      have hbelow : decide ((count : ℤ) < 0) = false := decide_eq_false (by omega)
      simp [hbelow]

theorem appendDigits_lt (digits : List Char) {significand : ℕ}
    (hbound : significand < UInt64.size) :
    (appendDigits significand digits).1 < UInt64.size := by
  induction digits generalizing significand with
  | nil => exact hbound
  | cons digit digits ih =>
      rw [appendDigits]
      split
      · rename_i hlonger
        exact ih hlonger
      · exact hbound

theorem hasMagnitude_readWhole (negative : Bool) {digits : List Char} {magnitude : Float}
    (hdecimal : doubleOfDecimal? (packDigits digits []) = some magnitude) :
    HasMagnitude (readWhole negative digits) negative magnitude := by
  have hreal := hasMagnitude_readReal negative hdecimal
  have hbound : (packDigits digits []).digits < UInt64.size :=
    appendDigits_lt digits (by decide)
  have hwhole : ∀ {count : ℕ}, packDigits digits [] = ⟨count, 0⟩ → count < UInt64.size →
      (negative = true → 0 < count) →
        HasMagnitude (.ok (.integer (if negative then -(count : ℤ) else count))) negative
          magnitude := fun hcount hsize hpos =>
    ⟨_, rfl, word_integer negative hsize hpos (hcount ▸ hdecimal)⟩
  rw [readWhole]
  split
  · rename_i hexponent
    have hcount : packDigits digits [] = ⟨(packDigits digits []).digits, 0⟩ := by
      rw [← hexponent]
    have hinteger := hwhole hcount hbound
    cases negative with
    | true =>
        simp only [if_true] at hinteger ⊢
        split
        · rename_i hrange
          exact hinteger fun _ => hrange.1
        · exact hreal
    | false => exact hinteger (by simp)
  · exact hreal

theorem hasMagnitude_readMagnitude (negative : Bool) {whole fraction pointed tail rest : List Char}
    {power : ℤ} (hwhole : IsWhole whole) (hfraction : FractionForm fraction pointed)
    (hexponent : ExponentForm power tail) (hrest : EndsNumber rest) {magnitude : Float}
    (hdecimal : doubleOfDecimal? ((packDigits whole fraction).shift power) = some magnitude) :
    ∃ outcome, readMagnitude negative (whole ++ (pointed ++ (tail ++ rest))) =
        outcome.map (·, rest) ∧
      HasMagnitude outcome negative magnitude := by
  obtain ⟨first, others, rfl, hlead⟩ := hwhole.leading
  have htail := hexponent.movesPoint
  cases hfraction with
  | pointed hdigits hsome =>
      have hpoint : EndsDigits ('.' :: (fraction ++ (tail ++ rest))) := by
        rintro character ⟨⟩
        rfl
      refine ⟨_, ?_, hasMagnitude_readReal negative hdecimal⟩
      exact (readMagnitude_whole negative hwhole.isDigit hlead hpoint).trans
        (readFraction_pointed negative _ hdigits hsome htail hrest)
  | none =>
      cases hexponent with
      | none =>
          rw [shift_zero] at hdecimal
          exact ⟨_, readMagnitude_digits negative hwhole.isDigit hlead hrest,
            hasMagnitude_readWhole negative hdecimal⟩
      | marked hmark hsign hsize hsome =>
          refine ⟨_, ?_, hasMagnitude_readReal negative hdecimal⟩
          rw [← htail.reads negative _ rest hrest]
          refine (readMagnitude_whole negative hwhole.isDigit hlead
            (htail.endsDigits rest hrest)).trans ?_
          rw [List.cons_append, readFraction, if_neg ?_, if_pos hmark]
          rcases hmark with rfl | rfl <;> decide

theorem IsWhole.startsNumber {whole : List Char} (hwhole : IsWhole whole) (rest : List Char) :
    ∃ first others, whole ++ rest = first :: others ∧ first.isDigit = true := by
  obtain ⟨first, others, rfl, -⟩ := hwhole.leading
  exact ⟨first, others ++ rest, rfl, hwhole.isDigit first (by simp)⟩

theorem readAnyNumber_spaced {blanks whole : List Char} (hblanks : Blank blanks)
    (hwhole : IsWhole whole) (expected : String) (negative : Bool) (rest : List Char) :
    readAnyNumber expected (blanks ++ (signText negative ++ (whole ++ rest))) =
      readMagnitude negative (whole ++ rest) := by
  have hskip : readAnyNumber expected (blanks ++ (signText negative ++ (whole ++ rest))) =
      readAnyNumber expected (signText negative ++ (whole ++ rest)) := by
    rw [readAnyNumber, firstCharacter_append hblanks, readAnyNumber]
  rw [hskip]
  cases negative with
  | true => exact readAnyNumber_cons (by decide) expected _
  | false =>
      obtain ⟨first, others, hcons, hfirst⟩ := hwhole.startsNumber rest
      rw [hcons]
      exact (readAnyNumber_cons (startsNumber_of_isDigit hfirst) expected _).trans
        (readNumber_digit hfirst _)

/-- The text is a number that is read as this double. -/
inductive DoubleForm : Float → List Char → Prop
  | mk {negative : Bool} {decimal : Decimal} {text : List Char} {magnitude : Float}
      (hform : NumberForm negative decimal text)
      (hdecimal : doubleOfDecimal? decimal = some magnitude) :
      DoubleForm (Float.ofBits (UInt64.ofNat (double.signed negative magnitude.toBits.toNat))) text

structure NaturalForm (value : ℕ) (text : List Char) : Prop where
  isWhole : IsWhole text
  value_eq : Nat.ofDigitChars 10 text 0 = value

theorem readDouble_form {value : Float} {blanks text rest : List Char} (hblanks : Blank blanks)
    (hform : DoubleForm value text) (hrest : EndsNumber rest) :
    readDouble (blanks ++ (text ++ rest)) = .ok (value, rest) := by
  obtain ⟨⟨hwhole, hfraction, hexponent⟩, hdecimal⟩ := hform
  obtain ⟨outcome, hread, number, rfl, hword⟩ :=
    hasMagnitude_readMagnitude _ hwhole hfraction hexponent hrest hdecimal
  simp only [List.append_assoc]
  rw [readDouble, readAnyNumber_spaced hblanks hwhole, hread]
  simp only [Except.map, ok_bind, pure_eq_ok, hword]

theorem readBelow_form {value bound : ℕ} (hbound : value < bound) (hword : value < UInt64.size)
    {blanks text rest : List Char} (hblanks : Blank blanks) (hform : NaturalForm value text)
    (hrest : EndsNumber rest) (expected : String) :
    readBelow bound expected (blanks ++ (text ++ rest)) = .ok (value, rest) := by
  obtain ⟨first, others, hcons, hlead⟩ := hform.isWhole.leading
  have hmagnitude : readMagnitude false (text ++ rest) = .ok (.integer value, rest) := by
    have hdigits := hform.isWhole.isDigit
    have hvalue := hform.value_eq
    rw [hcons] at hdigits hvalue ⊢
    refine (readMagnitude_digits false hdigits hlead hrest).trans ?_
    have hfits : Nat.ofDigitChars 10 (first :: others ++ []) 0 < UInt64.size := by
      rwa [List.append_nil, hvalue]
    rw [readWhole, packDigits_of_lt hfits, List.append_nil, hvalue]
    rfl
  have hread := readAnyNumber_spaced hblanks hform.isWhole expected false rest
  have hrange : 0 ≤ (value : ℤ) ∧ (value : ℤ) < bound := by omega
  rw [hmagnitude] at hread
  rw [readBelow]
  exact (congrArg (· >>= _) hread).trans (if_pos hrange)

end Apportion.Proofs.Json.NumberTexts
