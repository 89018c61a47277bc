import Mathlib.Tactic.SplitIfs
import Apportion.Json.Readers
import Apportion.Json.Writing
import Apportion.Proofs.Outcomes

namespace Apportion.Proofs.Json.WrittenTexts

open Apportion.Json.Scalars
open Apportion.Json.Readers
open Apportion.Json.Writing
open Apportion.Proofs.Outcomes

theorem readCharacters_escaped {mark character : Char} (hescaped : escaped? mark = some character)
    (rest : List Char) :
    readCharacters ('\\' :: mark :: rest) = prepend character (readCharacters rest) := by
  have hmark : mark ≠ 'u' := by
    rintro rfl
    cases hescaped
  rw [readCharacters]
  · rw [hescaped]
  all_goals simp_all

theorem readCharacters_unit {a b c d : Char} {unit : Nat} (hunit : unit? a b c d = some unit)
    (hleading : isLeading unit = false) (htrailing : isTrailing unit = false) (rest : List Char) :
    readCharacters ('\\' :: 'u' :: a :: b :: c :: d :: rest) =
      prepend (Char.ofNat unit) (readCharacters rest) := by
  rw [readCharacters]
  simp only [hunit, htrailing, hleading, Bool.false_eq_true, if_false]

theorem readCharacters_plain {character : Char} (hquote : character ≠ '"')
    (hbackslash : character ≠ '\\') (hcontrol : ¬ character.toNat < 32) (rest : List Char) :
    readCharacters (character :: rest) = prepend character (readCharacters rest) := by
  have hblank : ¬ character < ' ' := hcontrol
  rw [readCharacters]
  · rw [if_neg hblank]
  all_goals simp_all

theorem hexValue?_digitChar {digit : Nat} (hdigit : digit < 16) :
    hexValue? (Nat.digitChar digit) = some digit := by
  have hall : ∀ digit : Fin 16, hexValue? (Nat.digitChar digit) = some digit.val := by decide
  exact hall ⟨digit, hdigit⟩

theorem unit?_digitChar {number : Nat} (hnumber : number < 256) :
    unit? '0' '0' (Nat.digitChar (number / 16)) (Nat.digitChar (number % 16)) = some number := by
  have hzero : hexValue? '0' = some 0 := by decide
  rw [unit?, hzero, hexValue?_digitChar (by omega), hexValue?_digitChar (by omega)]
  exact congrArg some (by omega)

theorem readCharacters_escape (character : Char) (rest : List Char) :
    readCharacters (escape character ++ rest) = prepend character (readCharacters rest) := by
  have hmarked : ∀ {mark : Char} {number : Nat}, escaped? mark = some (Char.ofNat number) →
      character.toNat = number →
      readCharacters (['\\', mark] ++ rest) = prepend character (readCharacters rest) := by
    intro mark number hescaped hnumber
    rw [← hnumber, Char.ofNat_toNat] at hescaped
    exact readCharacters_escaped hescaped rest
  unfold escape
  split_ifs with hquote hbackslash hnumber hnumber hnumber hnumber hnumber hcontrol
  · rw [hquote]
    exact readCharacters_escaped rfl rest
  · rw [hbackslash]
    exact readCharacters_escaped rfl rest
  · exact hmarked rfl hnumber
  · exact hmarked rfl hnumber
  · exact hmarked rfl hnumber
  · exact hmarked rfl hnumber
  · exact hmarked rfl hnumber
  · have hleading : isLeading character.toNat = false := by simp [isLeading]; omega
    have htrailing : isTrailing character.toNat = false := by simp [isTrailing]; omega
    have hread := readCharacters_unit (unit?_digitChar (show character.toNat < 256 by omega))
      hleading htrailing rest
    rwa [Char.ofNat_toNat] at hread
  · exact readCharacters_plain hquote hbackslash hcontrol rest

theorem readCharacters_written (characters rest : List Char) :
    readCharacters (characters.flatMap escape ++ '"' :: rest) = .ok (characters, rest) := by
  induction characters with
  | nil => rw [List.flatMap_nil, List.nil_append, readCharacters]
  | cons character characters ih =>
      rw [List.flatMap_cons, List.append_assoc, readCharacters_escape, ih]
      rfl

theorem readText_written (text : String) (rest : List Char) :
    readText (text.toList.flatMap escape ++ '"' :: rest) = .ok (text, rest) := by
  simp only [readText, readCharacters_written, ok_bind, String.ofList_toList, pure_eq_ok]

theorem toList_writeText (text : String) :
    (writeText text).toList = '"' :: (text.toList.flatMap escape ++ ['"']) := by
  rw [writeText, String.toList_ofList]
  rfl

theorem readString_written (expected text : String) (rest : List Char) :
    readString expected ((writeText text).toList ++ rest) = .ok (text, rest) := by
  have hfirst : firstCharacter ((writeText text).toList ++ rest) =
      .ok ('"', text.toList.flatMap escape ++ '"' :: rest) := by
    rw [toList_writeText, List.cons_append, List.append_assoc]
    rfl
  rw [readString, hfirst, ok_bind]
  exact readText_written text rest

end Apportion.Proofs.Json.WrittenTexts
