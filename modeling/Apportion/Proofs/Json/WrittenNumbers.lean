import Apportion.Json.Scalars

namespace Apportion.Proofs.Json.WrittenNumbers

open Apportion.Json.Scalars

/-- A number that comes before this text does not go on in it. -/
def EndsNumber (rest : List Char) : Prop :=
  ∀ character ∈ rest.head?, character.isDigit = false ∧ character ≠ '.' ∧ character ≠ 'e' ∧
    character ≠ 'E'

def EndsDigits (rest : List Char) : Prop :=
  ∀ character ∈ rest.head?, character.isDigit = false

theorem EndsNumber.endsDigits {rest : List Char} (hrest : EndsNumber rest) : EndsDigits rest :=
  fun character hmem => (hrest character hmem).1

theorem takeWhile_isDigit {digits rest : List Char}
    (hdigits : ∀ character ∈ digits, character.isDigit = true) (hrest : EndsDigits rest) :
    (digits ++ rest).takeWhile Char.isDigit = digits := by
  rw [List.takeWhile_append_of_pos hdigits]
  cases rest with
  | nil => simp
  | cons character rest => simp [hrest character rfl]

theorem dropWhile_isDigit {digits rest : List Char}
    (hdigits : ∀ character ∈ digits, character.isDigit = true) (hrest : EndsDigits rest) :
    (digits ++ rest).dropWhile Char.isDigit = rest := by
  rw [List.dropWhile_append_of_pos hdigits]
  cases rest with
  | nil => rfl
  | cons character rest => simp [hrest character rfl]

theorem le_ofDigitChars (digits : List Char) (start : Nat) :
    start ≤ Nat.ofDigitChars 10 digits start := by
  induction digits generalizing start with
  | nil => exact Nat.le_refl start
  | cons digit digits ih =>
      rw [Nat.ofDigitChars_cons]
      exact Nat.le_trans (by omega) (ih _)

theorem appendDigits_of_lt {digits : List Char} {significand : Nat}
    (hfits : Nat.ofDigitChars 10 digits significand < UInt64.size) :
    appendDigits significand digits = (Nat.ofDigitChars 10 digits significand, []) := by
  induction digits generalizing significand with
  | nil => rfl
  | cons digit digits ih =>
      have hsplit : Nat.ofDigitChars 10 (digit :: digits) significand =
          Nat.ofDigitChars 10 digits (Nat.ofDigitChars 10 [digit] significand) := rfl
      rw [hsplit] at hfits ⊢
      have hfirst := Nat.lt_of_le_of_lt (le_ofDigitChars digits _) hfits
      rw [appendDigits, if_pos hfirst, ih hfits]

theorem packDigits_of_lt {whole fraction : List Char}
    (hfits : Nat.ofDigitChars 10 (whole ++ fraction) 0 < UInt64.size) :
    packDigits whole fraction =
      ⟨Nat.ofDigitChars 10 (whole ++ fraction) 0, -fraction.length⟩ := by
  rw [Nat.ofDigitChars_append] at hfits ⊢
  have hwhole := Nat.lt_of_le_of_lt (le_ofDigitChars fraction _) hfits
  simp only [packDigits, appendDigits_of_lt hwhole, appendDigits_of_lt hfits, List.length_nil]
  simp

theorem readFraction_ends (negative : Bool) (digits : List Char) {rest : List Char}
    (hrest : EndsNumber rest) :
    readFraction negative digits rest = (readWhole negative digits).map (·, rest) := by
  cases rest with
  | nil => rfl
  | cons character rest =>
      obtain ⟨_, hpoint, hlower, hupper⟩ := hrest character rfl
      rw [readFraction, if_neg hpoint, if_neg (by simp [hlower, hupper])]

theorem readMagnitude_whole (negative : Bool) {first : Char} {others rest : List Char}
    (hdigits : ∀ character ∈ first :: others, character.isDigit = true)
    (hlead : first = '0' → others = []) (hrest : EndsDigits rest) :
    readMagnitude negative (first :: (others ++ rest)) =
      readFraction negative (first :: others) rest := by
  have hothers : ∀ character ∈ others, character.isDigit = true :=
    fun character hmem => hdigits character (by simp [hmem])
  rw [readMagnitude]
  by_cases hzero : first = '0'
  · have hnone : ¬ (rest.head?.map Char.isDigit).getD false = true := by
      cases rest with
      | nil => simp
      | cons character rest => simp [hrest character rfl]
    rw [hlead hzero, List.nil_append, if_pos hzero, if_neg hnone, hzero]
  · rw [if_neg hzero, if_pos (hdigits first (by simp)), takeWhile_isDigit hothers hrest,
      dropWhile_isDigit hothers hrest]

theorem readMagnitude_digits (negative : Bool) {first : Char} {others rest : List Char}
    (hdigits : ∀ character ∈ first :: others, character.isDigit = true)
    (hlead : first = '0' → others = []) (hrest : EndsNumber rest) :
    readMagnitude negative (first :: (others ++ rest)) =
      (readWhole negative (first :: others)).map (·, rest) := by
  rw [readMagnitude_whole negative hdigits hlead hrest.endsDigits,
    readFraction_ends negative _ hrest]

theorem head?_toDigits {number : Nat} (hpos : 0 < number) :
    (Nat.toDigits 10 number).head? ≠ some '0' := by
  induction number using Nat.strongRecOn with
  | ind number ih =>
      by_cases hsmall : number < 10
      · rw [Nat.toDigits_of_lt_base hsmall]
        simpa using Nat.pos_iff_ne_zero.mp hpos
      · have hshorter := ih (number / 10) (by omega) (by omega)
        rw [Nat.toDigits_of_base_le (by decide) (by omega), List.head?_append]
        cases hdigits : Nat.toDigits 10 (number / 10) with
        | nil => exact absurd hdigits Nat.toDigits_ne_nil
        | cons first others =>
            rw [hdigits] at hshorter
            simpa using hshorter

theorem isDigit_of_mem_digits {number : Nat} {character : Char}
    (hmem : character ∈ Nat.toDigits 10 number) : character.isDigit = true :=
  Nat.isDigit_of_mem_toDigits (by decide) (by decide) hmem

theorem ne_of_isDigit {character other : Char} (hdigit : character.isDigit = true)
    (hother : other.isDigit = false) : character ≠ other := by
  rintro rfl
  rw [hdigit] at hother
  exact absurd hother (by decide)

theorem toDigits_eq_cons (number : Nat) : ∃ first others, Nat.toDigits 10 number = first :: others ∧
    first.isDigit = true ∧ (first = '0' → others = []) := by
  obtain ⟨first, others, hdigits⟩ :=
    List.exists_cons_of_ne_nil (Nat.toDigits_ne_nil (n := number) (b := 10))
  refine ⟨first, others, hdigits, isDigit_of_mem_digits (by rw [hdigits]; simp), ?_⟩
  rintro rfl
  rcases Nat.eq_zero_or_pos number with rfl | hpos
  · rw [Nat.toDigits_zero] at hdigits
    exact (List.cons.inj hdigits).2.symm
  · exact absurd (by rw [hdigits]; rfl) (head?_toDigits hpos)

theorem readNumber_digit {first : Char} (hfirst : first.isDigit = true) (rest : List Char) :
    readNumber (first :: rest) = readMagnitude false (first :: rest) := by
  have hsign : first ≠ '-' := ne_of_isDigit hfirst rfl
  rw [readNumber]
  rintro rest ⟨⟩
  exact hsign rfl

theorem readNumber_toDigits {number : Nat} (hbound : number < UInt64.size) {rest : List Char}
    (hrest : EndsNumber rest) :
    readNumber (Nat.toDigits 10 number ++ rest) = .ok (.integer number, rest) := by
  have hwhole : readWhole false (Nat.toDigits 10 number) = .ok (.integer number) := by
    have hdigits := Nat.ofDigitChars_ten_toDigits (n := number)
    have hfits : Nat.ofDigitChars 10 (Nat.toDigits 10 number ++ []) 0 < UInt64.size := by
      rwa [List.append_nil, hdigits]
    rw [readWhole, packDigits_of_lt hfits, List.append_nil, hdigits]
    rfl
  obtain ⟨first, others, hdigits, hfirst, hlead⟩ := toDigits_eq_cons number
  have hall : ∀ character ∈ first :: others, character.isDigit = true := by
    intro character hmem
    rw [← hdigits] at hmem
    exact isDigit_of_mem_digits hmem
  rw [hdigits, List.cons_append, readNumber_digit hfirst,
    readMagnitude_digits false hall hlead hrest, ← hdigits, hwhole]
  rfl

end Apportion.Proofs.Json.WrittenNumbers
