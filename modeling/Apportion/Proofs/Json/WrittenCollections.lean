import Apportion.Json.Values
import Apportion.Proofs.Json.WrittenNumbers
import Apportion.Proofs.Json.WrittenTexts

namespace Apportion.Proofs.Json.WrittenCollections

open Apportion.Json.Faults
open Apportion.Json.Scalars
open Apportion.Json.Readers
open Apportion.Json.Values
open Apportion.Json.Writing
open Apportion.Proofs.Outcomes
open Apportion.Proofs.Json.WrittenNumbers
open Apportion.Proofs.Json.WrittenTexts

variable {α β σ : Type}

def StartsElement (text : List Char) : Prop :=
  ∃ character rest, text = character :: rest ∧ isBlank character = false ∧ character ≠ ']'

def EndsElement (rest : List Char) : Prop :=
  ∃ others, rest = ',' :: others ∨ rest = ']' :: others

theorem skipBlanks_cons {character : Char} (hblank : isBlank character = false)
    (rest : List Char) : skipBlanks (character :: rest) = character :: rest := by
  rw [skipBlanks, List.dropWhile_cons, hblank]
  rfl

theorem nextElement_first {text : List Char} (hstart : StartsElement text) (rest : List Char) :
    nextElement true (text ++ rest) = .ok (true, text ++ rest) := by
  obtain ⟨character, others, rfl, hblank, hbracket⟩ := hstart
  simp only [nextElement, List.cons_append, skipBlanks_cons hblank, if_neg hbracket, if_true]

theorem nextElement_comma {text : List Char} (hstart : StartsElement text) (rest : List Char) :
    nextElement false (',' :: (text ++ rest)) = .ok (true, text ++ rest) := by
  obtain ⟨character, others, rfl, hblank, hbracket⟩ := hstart
  have hcomma : skipBlanks (',' :: (character :: others ++ rest)) =
      ',' :: (character :: others ++ rest) := skipBlanks_cons (by decide) _
  rw [nextElement, hcomma]
  simp only [List.cons_append, skipBlanks_cons hblank, if_neg hbracket]
  rfl

section

variable {read : Reader β} {write : α → List Char} {value : α → β}

theorem endsElement_others (write : α → List Char) (items : List α) (rest : List Char) :
    EndsElement (items.flatMap (fun item => ',' :: write item) ++ ']' :: rest) := by
  cases items with
  | nil => exact ⟨rest, .inr rfl⟩
  | cons item items => exact ⟨_, .inl rfl⟩

theorem readElements_others (items : List α)
    (hstart : ∀ item ∈ items, StartsElement (write item))
    (hread : ∀ item ∈ items, ∀ rest, EndsElement rest →
      read (write item ++ rest) = .ok (value item, rest))
    {steps : Nat} (hsteps : items.length < steps) (rest : List Char) :
    readElements read steps false
      (items.flatMap (fun item => ',' :: write item) ++ ']' :: rest) =
        .ok (items.map value, rest) := by
  induction items generalizing steps with
  | nil =>
      cases steps with
      | zero => exact absurd hsteps (Nat.not_lt_zero _)
      | succ steps => rfl
  | cons item items ih =>
      cases steps with
      | zero => exact absurd hsteps (Nat.not_lt_zero _)
      | succ steps =>
          have hothers := ih (fun other hmem => hstart other (by simp [hmem]))
            (fun other hmem => hread other (by simp [hmem])) (Nat.lt_of_succ_lt_succ hsteps)
          rw [List.flatMap_cons, List.append_assoc, List.cons_append, readElements,
            nextElement_comma (hstart item (by simp))]
          simp only [ok_bind, if_true, hread item (by simp) _ (endsElement_others write items rest),
            hothers, pure_eq_ok, List.map_cons]

theorem length_le_others (write : α → List Char) (items : List α) :
    items.length ≤ (items.flatMap (fun item => ',' :: write item)).length := by
  induction items with
  | nil => exact Nat.le_refl 0
  | cons item items ih =>
      rw [List.flatMap_cons, List.length_append, List.length_cons, List.length_cons]
      omega

theorem intercalate_cons (separator first : List Char) (others : List (List Char)) :
    separator.intercalate (first :: others) =
      first ++ others.flatMap fun other => separator ++ other := by
  induction others generalizing first with
  | nil => simp
  | cons other others ih =>
      rw [List.intercalate_cons_cons, ih, List.flatMap_cons, List.append_assoc, List.append_assoc]

theorem readList_written (items : List α)
    (hstart : ∀ item ∈ items, StartsElement (write item))
    (hread : ∀ item ∈ items, ∀ rest, EndsElement rest →
      read (write item ++ rest) = .ok (value item, rest)) (rest : List Char) :
    readList read ([','].intercalate (items.map write) ++ ']' :: rest) =
      .ok (items.map value, rest) := by
  cases items with
  | nil => rfl
  | cons first others =>
      have hfirst := hread first (by simp) _ (endsElement_others write others rest)
      have hsteps : others.length < (write first ++
          (others.flatMap (fun item => ',' :: write item) ++ ']' :: rest)).length := by
        have := length_le_others write others
        simp only [List.length_append, List.length_cons]
        omega
      have hothers := readElements_others others (fun other hmem => hstart other (by simp [hmem]))
        (fun other hmem => hread other (by simp [hmem])) hsteps rest
      rw [List.map_cons, intercalate_cons, List.flatMap_map, List.append_assoc]
      simp only [List.cons_append, List.nil_append]
      rw [readList, readElements, nextElement_first (hstart first (by simp))]
      simp only [ok_bind, if_true, hfirst, hothers, pure_eq_ok, List.map_cons]

end

theorem toList_bracketed (separator : String) (numbers : List Nat) :
    ("[" ++ separator.intercalate (numbers.map fun number => toString number) ++ "]").toList =
      '[' :: (separator.toList.intercalate (numbers.map (Nat.toDigits 10)) ++ [']']) := by
  have hdigits : (numbers.map fun number => toString number).map String.toList =
      numbers.map (Nat.toDigits 10) := by
    rw [List.map_map]
    exact List.map_congr_left fun number _ => Nat.toList_repr
  rw [String.toList_append, String.toList_append, String.toList_intercalate, hdigits]
  rfl

theorem toList_writeNaturals (numbers : List Nat) :
    (writeNaturals numbers).toList =
      '[' :: ([','].intercalate (numbers.map (Nat.toDigits 10)) ++ [']']) :=
  toList_bracketed "," numbers

theorem startsElement_toDigits (number : Nat) : StartsElement (Nat.toDigits 10 number) := by
  obtain ⟨first, others, hdigits, hfirst, _⟩ := toDigits_eq_cons number
  refine ⟨first, others, hdigits, ?_, ne_of_isDigit hfirst rfl⟩
  simp only [isBlank, Bool.or_eq_false_iff, beq_eq_false_iff_ne]
  exact ⟨⟨⟨ne_of_isDigit hfirst rfl, ne_of_isDigit hfirst rfl⟩, ne_of_isDigit hfirst rfl⟩,
    ne_of_isDigit hfirst rfl⟩

theorem endsNumber_of_endsElement {rest : List Char} (hrest : EndsElement rest) :
    EndsNumber rest := by
  obtain ⟨others, rfl | rfl⟩ := hrest
  · rintro character ⟨⟩
    decide
  · rintro character ⟨⟩
    decide

theorem readValue_digits (depth : Nat) {number : Nat} (hbound : number < UInt64.size)
    {rest : List Char} (hrest : EndsElement rest) :
    readValue depth (Nat.toDigits 10 number ++ rest) = .ok (.number (.integer number), rest) := by
  have hread := readNumber_toDigits hbound (endsNumber_of_endsElement hrest)
  obtain ⟨first, others, hdigits, hblank, _⟩ := startsElement_toDigits number
  have hfirst : first.isDigit = true := isDigit_of_mem_digits (by rw [hdigits]; simp)
  have hword : first ≠ 'n' ∧ first ≠ 't' ∧ first ≠ 'f' :=
    ⟨ne_of_isDigit hfirst rfl, ne_of_isDigit hfirst rfl, ne_of_isDigit hfirst rfl⟩
  have hnumber : startsNumber first = true := by simp [startsNumber, hfirst]
  rw [hdigits, List.cons_append] at hread ⊢
  unfold readValue
  simp only [firstCharacter, skipBlanks_cons hblank, ok_bind, if_neg hword.1, if_neg hword.2.1,
    if_neg hword.2.2, hnumber, if_true, hread, pure_eq_ok]

theorem readValue_writeNaturals (depth : Nat) {numbers : List Nat}
    (hbound : ∀ number ∈ numbers, number < UInt64.size) (rest : List Char) :
    readValue (depth + 1) ((writeNaturals numbers).toList ++ rest) =
      .ok (.list (numbers.map fun (number : Nat) => .number (.integer (number : Int))), rest) := by
  have hlist : readList (readValue depth)
      ([','].intercalate (numbers.map (Nat.toDigits 10)) ++ ']' :: rest) =
        .ok (numbers.map fun (number : Nat) => .number (.integer (number : Int)), rest) :=
    readList_written numbers (fun number _ => startsElement_toDigits number)
      (fun number hmem rest hrest => readValue_digits depth (hbound number hmem) hrest) rest
  have hfirst : firstCharacter ((writeNaturals numbers).toList ++ rest) =
      .ok ('[', [','].intercalate (numbers.map (Nat.toDigits 10)) ++ ']' :: rest) := by
    rw [toList_writeNaturals, List.cons_append, List.append_assoc]
    rfl
  unfold readValue
  rw [hfirst, ok_bind]
  change (readList (readValue depth) _ >>= _) = _
  rw [hlist]
  rfl

theorem readValue_writeText (depth : Nat) (text : String) (rest : List Char) :
    readValue depth ((writeText text).toList ++ rest) = .ok (.text text, rest) := by
  have hread := readText_written text rest
  have hfirst : firstCharacter ((writeText text).toList ++ rest) =
      .ok ('"', text.toList.flatMap escape ++ '"' :: rest) := by
    rw [toList_writeText, List.cons_append, List.append_assoc]
    rfl
  unfold readValue
  rw [hfirst, ok_bind]
  change (readText _ >>= _) = _
  rw [hread]
  rfl

def memberText (key : String) (value : List Char) : List Char :=
  (writeText key).toList ++ ':' :: value

theorem nextKey_first (key : String) (rest : List Char) :
    nextKey true ((writeText key).toList ++ rest) = .ok (some key, rest) := by
  have hread := readText_written key rest
  rw [toList_writeText, List.cons_append, List.append_assoc]
  change (readText _).map _ = _
  rw [List.singleton_append, hread]
  rfl

theorem nextKey_comma (key : String) (rest : List Char) :
    nextKey false (',' :: ((writeText key).toList ++ rest)) = .ok (some key, rest) := by
  have hread := readText_written key rest
  rw [toList_writeText, List.cons_append, List.append_assoc]
  change (readText _).map _ = _
  rw [List.singleton_append, hread]
  rfl

variable {readMember : σ → String → Reader σ}

theorem readMembers_first (steps : Nat) (state : σ) (key : String) (value rest : List Char) :
    readMembers readMember (steps + 1) true state (memberText key value ++ rest) =
      readMember state key (':' :: (value ++ rest)) >>= fun parts =>
        readMembers readMember steps false parts.1 parts.2 := by
  rw [memberText, List.append_assoc, readMembers, nextKey_first]
  rfl

theorem readMembers_comma (steps : Nat) (state : σ) (key : String) (value rest : List Char) :
    readMembers readMember (steps + 1) false state (',' :: (memberText key value ++ rest)) =
      readMember state key (':' :: (value ++ rest)) >>= fun parts =>
        readMembers readMember steps false parts.1 parts.2 := by
  rw [memberText, List.append_assoc, readMembers, nextKey_comma]
  rfl

theorem readMembers_end (steps : Nat) (isFirst : Bool) (state : σ) (rest : List Char) :
    readMembers readMember (steps + 1) isFirst state ('\x7d' :: rest) = .ok (state, rest) := rfl

theorem readField_first (name : String) (read : Reader α) (text : List Char) :
    readField name none read (':' :: text) = read text := rfl

theorem readRecord_object (expected : String) (fromObject fromList : Reader α)
    (text : List Char) :
    readRecord expected fromObject fromList ('\x7b' :: text) = fromObject text := rfl

end Apportion.Proofs.Json.WrittenCollections
