import Apportion.Envelopes.Coercion
import Apportion.Proofs.Json.WrittenCollections
import Mathlib.Data.List.TakeWhile

namespace Apportion.Proofs.Envelopes.Numerals

open Apportion.Envelopes.Coercion
open Apportion.Text.Blank
open Apportion.Proofs.Json.WrittenNumbers
open Apportion.Proofs.Json.WrittenCollections

variable {text : List Char} {value : Nat}

def Blank (text : List Char) : Prop :=
  ∀ character ∈ text, isBlank character = true

structure Digits (text : List Char) (value : Nat) : Prop where
  nonempty : text ≠ []
  digits : ∀ character ∈ text, character.isDigit = true
  value_eq : value = Nat.ofDigitChars 10 text 0
  word : value < UInt64.size

inductive Numeral : List Char → Nat → Prop where
  | unsigned {text : List Char} {value : Nat} (hdigits : Digits text value) : Numeral text value
  | signed {text : List Char} {value : Nat} (hdigits : Digits text value) :
      Numeral ('+' :: text) value

/-- A numeral with nothing but blanks around it. -/
inductive Piece : List Char → Nat → Prop where
  | intro {leading core trailing : List Char} {value : Nat} (hleading : Blank leading)
      (hcore : Numeral core value) (htrailing : Blank trailing) :
      Piece (leading ++ (core ++ trailing)) value

/-- The parts of a text that commas set apart. -/
structure Separated (text : List Char) (parts : List (List Char)) : Prop where
  nonempty : parts ≠ []
  plain : ∀ part ∈ parts, ',' ∉ part
  joined : text = [','].intercalate parts

theorem all_isBlank_iff : text.all isBlank = true ↔ Blank text :=
  List.all_eq_true

theorem dropWhile_isBlank_append {core : List Char} (hsome : core ≠ [])
    (hplain : ∀ character ∈ core, isBlank character = false) (rest : List Char) :
    (core ++ rest).dropWhile isBlank = core ++ rest := by
  obtain ⟨first, others, rfl⟩ := List.exists_cons_of_ne_nil hsome
  rw [List.cons_append, List.dropWhile_cons, hplain first List.mem_cons_self]
  rfl

theorem trim_append {leading core trailing : List Char} (hleading : Blank leading)
    (hsome : core ≠ []) (hplain : ∀ character ∈ core, isBlank character = false)
    (htrailing : Blank trailing) : trim (leading ++ (core ++ trailing)) = core := by
  have hsomeReversed : core.reverse ≠ [] := List.reverse_ne_nil_iff.mpr hsome
  have hplainReversed : ∀ character ∈ core.reverse, isBlank character = false :=
    fun character hmem => hplain character (List.mem_reverse.mp hmem)
  have htrailingReversed : ∀ character ∈ trailing.reverse, isBlank character = true :=
    fun character hmem => htrailing character (List.mem_reverse.mp hmem)
  have hend := dropWhile_isBlank_append hsomeReversed hplainReversed []
  rw [List.append_nil] at hend
  rw [trim, List.dropWhile_append_of_pos hleading, dropWhile_isBlank_append hsome hplain,
    List.reverse_append, List.dropWhile_append_of_pos htrailingReversed, hend, List.reverse_reverse]

theorem exists_eq_append_trim (text : List Char) :
    ∃ leading trailing, text = leading ++ (trim text ++ trailing) ∧
      Blank leading ∧ Blank trailing := by
  let rest := text.dropWhile isBlank
  refine ⟨text.takeWhile isBlank, (rest.reverse.takeWhile isBlank).reverse, ?_, ?_, ?_⟩
  · have hrest : trim text ++ (rest.reverse.takeWhile isBlank).reverse = rest := by
      rw [trim, ← List.reverse_append, List.takeWhile_append_dropWhile, List.reverse_reverse]
    rw [hrest, List.takeWhile_append_dropWhile]
  · exact fun character hmem => List.mem_takeWhile_imp hmem
  · exact fun character hmem => List.mem_takeWhile_imp (List.mem_reverse.mp hmem)

theorem isBlank_of_isDigit {character : Char} (hdigit : character.isDigit = true) :
    isBlank character = false := by
  simp only [Char.isDigit, Bool.and_eq_true, decide_eq_true_eq, ge_iff_le,
    UInt32.le_iff_toNat_le] at hdigit
  have hrange : 48 ≤ character.toNat ∧ character.toNat ≤ 57 := hdigit
  simp only [isBlank, blankRanges, List.any_cons, List.any_nil, Bool.or_false, Bool.or_eq_false_iff,
    Bool.and_eq_false_iff, decide_eq_false_iff_not]
  omega

theorem Digits.toDigits {number : Nat} (hword : number < UInt64.size) :
    Digits (Nat.toDigits 10 number) number where
  nonempty := by
    obtain ⟨first, others, hcons, _⟩ := toDigits_eq_cons number
    exact hcons ▸ List.cons_ne_nil first others
  digits _ hmem := isDigit_of_mem_digits hmem
  value_eq := Nat.ofDigitChars_ten_toDigits.symm
  word := hword

theorem Numeral.ne_nil (hnumeral : Numeral text value) : text ≠ [] := by
  cases hnumeral with
  | unsigned hdigits => exact hdigits.nonempty
  | signed hdigits => exact List.cons_ne_nil _ _

theorem Numeral.sign_or_digit (hnumeral : Numeral text value) {character : Char}
    (hmem : character ∈ text) : character = '+' ∨ character.isDigit = true := by
  cases hnumeral with
  | unsigned hdigits => exact .inr (hdigits.digits character hmem)
  | signed hdigits => exact (List.mem_cons.mp hmem).imp_right (hdigits.digits character)

theorem Numeral.not_isBlank (hnumeral : Numeral text value) :
    ∀ character ∈ text, isBlank character = false := by
  intro character hmem
  rcases hnumeral.sign_or_digit hmem with rfl | hdigit
  · rfl
  · exact isBlank_of_isDigit hdigit

def digitsValue? (digits : List Char) : Option Nat :=
  if digits ≠ [] ∧ digits.all Char.isDigit = true then
    if Nat.ofDigitChars 10 digits 0 < UInt64.size then some (Nat.ofDigitChars 10 digits 0) else none
  else none

theorem digitsValue?_eq_some_iff : digitsValue? text = some value ↔ Digits text value := by
  simp only [digitsValue?, Option.ite_none_right_eq_some, Option.some_inj, List.all_eq_true]
  constructor
  · rintro ⟨⟨hsome, hdigits⟩, hword, rfl⟩
    exact ⟨hsome, hdigits, rfl, hword⟩
  · rintro ⟨hsome, hdigits, rfl, hword⟩
    exact ⟨⟨hsome, hdigits⟩, hword, rfl⟩

theorem number?_signed (digits : List Char) : number? ('+' :: digits) = digitsValue? digits := rfl

theorem number?_unsigned (hsign : ∀ digits, text ≠ '+' :: digits) :
    number? text = digitsValue? text := by
  rw [number?, digitsValue?]
  exact hsign

theorem number?_eq_some_iff : number? text = some value ↔ Numeral text value := by
  by_cases hsign : ∃ digits, text = '+' :: digits
  · obtain ⟨digits, rfl⟩ := hsign
    rw [number?_signed, digitsValue?_eq_some_iff]
    refine ⟨.signed, fun hnumeral => ?_⟩
    cases hnumeral with
    | unsigned hdigits => exact absurd (hdigits.digits '+' List.mem_cons_self) (by decide)
    | signed hdigits => exact hdigits
  · have hplain : ∀ digits, text ≠ '+' :: digits := fun digits heq => hsign ⟨digits, heq⟩
    rw [number?_unsigned hplain, digitsValue?_eq_some_iff]
    refine ⟨.unsigned, fun hnumeral => ?_⟩
    cases hnumeral with
    | unsigned hdigits => exact hdigits
    | signed hdigits => exact absurd rfl (hplain _)

theorem number?_trim_eq_some_iff : number? (trim text) = some value ↔ Piece text value := by
  rw [number?_eq_some_iff]
  constructor
  · intro hnumeral
    obtain ⟨leading, trailing, htext, hleading, htrailing⟩ := exists_eq_append_trim text
    have hpiece := Piece.intro hleading hnumeral htrailing
    rwa [← htext] at hpiece
  · rintro ⟨hleading, hnumeral, htrailing⟩
    rwa [trim_append hleading hnumeral.ne_nil hnumeral.not_isBlank htrailing]

theorem number?_trim_eq_none_iff :
    number? (trim text) = none ↔ ∀ value, ¬ Piece text value := by
  simp only [← number?_trim_eq_some_iff, Option.eq_none_iff_forall_ne_some, ne_eq]

theorem Piece.mem (hpiece : Piece text value) {character : Char}
    (hmem : character ∈ text) :
    isBlank character = true ∨ character = '+' ∨ character.isDigit = true := by
  obtain ⟨hleading, hnumeral, htrailing⟩ := hpiece
  rcases List.mem_append.mp hmem with hmem | hmem
  · exact .inl (hleading character hmem)
  · rcases List.mem_append.mp hmem with hmem | hmem
    · exact .inr (hnumeral.sign_or_digit hmem)
    · exact .inl (htrailing character hmem)

theorem Piece.not_blank (hpiece : Piece text value) :
    ∃ character ∈ text, isBlank character = false := by
  obtain ⟨_, hnumeral, _⟩ := hpiece
  obtain ⟨first, others, rfl⟩ := List.exists_cons_of_ne_nil hnumeral.ne_nil
  exact ⟨first, by simp, hnumeral.not_isBlank first List.mem_cons_self⟩

theorem pieces_eq_splitOn (text : List Char) : pieces text = text.splitOn ',' := by
  induction text with
  | nil => rfl
  | cons character text ih =>
      obtain ⟨piece, others, hothers⟩ :=
        List.exists_cons_of_ne_nil (List.splitOn_ne_nil ',' text)
      rw [pieces, ih, List.splitOn_cons_eq_if_modifyHead, hothers, List.modifyHead_cons]
      by_cases hcomma : character = ','
      · rw [if_pos hcomma, if_pos (beq_iff_eq.mpr hcomma)]
      · rw [if_neg hcomma, if_neg (by simpa using hcomma)]

theorem comma_notMem_of_mem_pieces :
    ∀ part ∈ pieces text, ',' ∉ part := by
  induction text with
  | nil => simp [pieces]
  | cons character text ih =>
      obtain ⟨first, others, hothers⟩ : ∃ first others, pieces text = first :: others :=
        List.exists_cons_of_ne_nil (pieces_eq_splitOn text ▸ List.splitOn_ne_nil ',' text)
      rw [hothers] at ih
      rw [pieces]
      by_cases hcomma : character = ','
      · rw [if_pos hcomma, hothers]
        exact List.forall_mem_cons.mpr ⟨List.not_mem_nil, ih⟩
      · obtain ⟨hfirst, hrest⟩ := List.forall_mem_cons.mp ih
        have hcons : ',' ∉ character :: first :=
          List.not_mem_cons_of_ne_of_not_mem (Ne.symm hcomma) hfirst
        rw [if_neg hcomma, hothers]
        exact List.forall_mem_cons.mpr ⟨hcons, hrest⟩

theorem pieces_eq_iff {parts : List (List Char)} :
    pieces text = parts ↔ Separated text parts := by
  constructor
  · rintro rfl
    refine ⟨?_, comma_notMem_of_mem_pieces, ?_⟩
    · exact pieces_eq_splitOn text ▸ List.splitOn_ne_nil ',' text
    · rw [pieces_eq_splitOn, List.intercalate_splitOn]
  · rintro ⟨hsome, hplain, rfl⟩
    rw [pieces_eq_splitOn, List.splitOn_intercalate ',' hplain hsome]

theorem mem_of_mem_intercalate {separator : Char} {parts : List (List Char)} {character : Char}
    (hmem : character ∈ [separator].intercalate parts) :
    character = separator ∨ ∃ part ∈ parts, character ∈ part := by
  cases parts with
  | nil => exact absurd hmem List.not_mem_nil
  | cons first others =>
      rw [intercalate_cons, List.mem_append, List.mem_flatMap] at hmem
      rcases hmem with hfirst | ⟨other, hother, hmem⟩
      · exact .inr ⟨first, List.mem_cons_self, hfirst⟩
      · rcases List.mem_cons.mp hmem with rfl | hmem
        · exact .inl rfl
        · exact .inr ⟨other, List.mem_cons_of_mem first hother, hmem⟩

theorem Piece.toDigits {leading : List Char} (hleading : Blank leading) {number : Nat}
    (hword : number < UInt64.size) : Piece (leading ++ Nat.toDigits 10 number) number := by
  have hpiece := Piece.intro hleading (.unsigned (Digits.toDigits hword))
    (List.forall_mem_nil fun character => isBlank character = true)
  rwa [List.append_nil] at hpiece

end Apportion.Proofs.Envelopes.Numerals
