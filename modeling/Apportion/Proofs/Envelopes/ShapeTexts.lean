import Apportion.Proofs.Envelopes.Numerals
import Mathlib.Data.List.Forall2

namespace Apportion.Proofs.Envelopes.ShapeTexts

open Apportion.Envelopes.Coercion
open Apportion.Tensor.Shapes
open Apportion.Text.Blank
open Apportion.Proofs.Json.WrittenCollections
open Apportion.Proofs.Envelopes.Numerals

/-- The text between the first opening bracket and the first closing bracket behind it. -/
def Bracketed (text inner : List Char) : Prop :=
  ∃ before after, text = before ++ '[' :: (inner ++ ']' :: after) ∧ '[' ∉ before ∧ ']' ∉ inner

inductive Listed : List Char → Shape → Prop where
  | blank {inner : List Char} (hblank : Blank inner) : Listed inner []
  | pieces {inner : List Char} {parts : List (List Char)} {shape : Shape}
      (hparts : Separated inner parts) (hpieces : List.Forall₂ Piece parts shape) :
      Listed inner shape

def FirstOther (parts : List (List Char)) (part : List Char) : Prop :=
  ∃ before after, parts = before ++ part :: after ∧
    (∀ other ∈ before, ∃ value, Piece other value) ∧ ∀ value, ¬ Piece part value

inductive Refused (text : String) : CoercionError → Prop where
  | unbracketed (hnone : ∀ inner, ¬ Bracketed text.toList inner) : Refused text (.noList text)
  | otherPart {inner part : List Char} {parts : List (List Char)}
      (hinner : Bracketed text.toList inner) (hblank : ¬ Blank inner)
      (hparts : Separated inner parts) (hpart : FirstOther parts part) :
      Refused text (.noNumber (String.ofList (trim part)) text)

theorem bracketed?_append {before : List Char} (hbefore : '[' ∉ before) (rest : List Char) :
    bracketed? (before ++ '[' :: rest) =
      if rest.contains ']' then some (rest.takeWhile (· != ']')) else none := by
  have hplain : ∀ character ∈ before, (character != '[') = true :=
    fun character hmem => bne_iff_ne.mpr (ne_of_mem_of_not_mem hmem hbefore)
  rw [bracketed?, List.dropWhile_append_of_pos hplain]
  rfl

theorem bracketed?_of_bracketed {text inner : List Char} (hbracketed : Bracketed text inner) :
    bracketed? text = some inner := by
  obtain ⟨before, after, rfl, hbefore, hinner⟩ := hbracketed
  have hplain : ∀ character ∈ inner, (character != ']') = true :=
    fun character hmem => bne_iff_ne.mpr (ne_of_mem_of_not_mem hmem hinner)
  rw [bracketed?_append hbefore, List.takeWhile_append_of_pos hplain]
  simp

theorem bracketed?_eq_some_iff {text inner : List Char} :
    bracketed? text = some inner ↔ Bracketed text inner := by
  refine ⟨fun hsome => ?_, bracketed?_of_bracketed⟩
  by_cases hopen : '[' ∈ text
  · obtain ⟨before, rest, rfl, hbefore⟩ := List.eq_append_cons_of_mem hopen
    by_cases hclosing : ']' ∈ rest
    · obtain ⟨found, after, rfl, hplain⟩ := List.eq_append_cons_of_mem hclosing
      have hbracketed : Bracketed (before ++ '[' :: (found ++ ']' :: after)) found :=
        ⟨before, after, rfl, hbefore, hplain⟩
      rw [bracketed?_of_bracketed hbracketed, Option.some_inj] at hsome
      exact hsome ▸ hbracketed
    · rw [bracketed?_append hbefore] at hsome
      simp [hclosing] at hsome
  · have hnone : text.dropWhile (· != '[') = [] := by
      rw [List.dropWhile_eq_nil_iff]
      exact fun character hmem => bne_iff_ne.mpr (ne_of_mem_of_not_mem hmem hopen)
    rw [bracketed?, hnone] at hsome
    exact absurd hsome (by simp)

theorem coercePieces_eq_ok_iff {text : String} {parts : List (List Char)} {shape : Shape} :
    coercePieces text parts = .ok shape ↔ List.Forall₂ Piece parts shape := by
  induction parts generalizing shape with
  | nil => simp [coercePieces, eq_comm]
  | cons part parts ih =>
      rw [coercePieces, List.forall₂_cons_left_iff]
      cases hnumber : number? (trim part) with
      | none =>
          have hno := number?_trim_eq_none_iff.mp hnumber
          simp [hno]
      | some value =>
          have hpiece : ∀ {other}, Piece part other ↔ other = value := by
            intro other
            rw [← number?_trim_eq_some_iff, hnumber, Option.some_inj, eq_comm]
          cases hrest : coercePieces text parts with
          | error cause => simp [Except.map, hpiece, ← ih, hrest]
          | ok rest => simp [Except.map, hpiece, ← ih, hrest, eq_comm]

theorem firstOther_cons_of_piece {part other : List Char} {parts : List (List Char)} {value : Nat}
    (hpart : Piece part value) : FirstOther (part :: parts) other ↔ FirstOther parts other := by
  constructor
  · rintro ⟨before, after, hparts, hbefore, hother⟩
    cases before with
    | nil =>
        obtain ⟨rfl, _⟩ := List.cons_eq_cons.mp hparts
        exact absurd hpart (hother value)
    | cons first before =>
        obtain ⟨_, rfl⟩ := List.cons_eq_cons.mp hparts
        exact ⟨before, after, rfl, (List.forall_mem_cons.mp hbefore).2, hother⟩
  · rintro ⟨before, after, rfl, hbefore, hother⟩
    exact ⟨part :: before, after, rfl, List.forall_mem_cons.mpr ⟨⟨value, hpart⟩, hbefore⟩, hother⟩

theorem firstOther_cons_of_not_piece {part other : List Char} {parts : List (List Char)}
    (hpart : ∀ value, ¬ Piece part value) : FirstOther (part :: parts) other ↔ other = part := by
  constructor
  · rintro ⟨before, after, hparts, hbefore, _⟩
    cases before with
    | nil => exact (List.cons_eq_cons.mp hparts).1.symm
    | cons first before =>
        obtain ⟨rfl, _⟩ := List.cons_eq_cons.mp hparts
        obtain ⟨value, hfirst⟩ := hbefore part List.mem_cons_self
        exact absurd hfirst (hpart value)
  · rintro rfl
    exact ⟨[], parts, rfl, fun _ hmem => absurd hmem List.not_mem_nil, hpart⟩

theorem coercePieces_eq_error_iff {text : String} {parts : List (List Char)}
    {cause : CoercionError} :
    coercePieces text parts = .error cause ↔
      ∃ part, FirstOther parts part ∧ cause = .noNumber (String.ofList (trim part)) text := by
  induction parts with
  | nil => simp [coercePieces, FirstOther]
  | cons part parts ih =>
      rw [coercePieces]
      cases hnumber : number? (trim part) with
      | none =>
          simp only [firstOther_cons_of_not_piece (number?_trim_eq_none_iff.mp hnumber),
            exists_eq_left, Except.error.injEq]
          exact eq_comm
      | some value =>
          simp only [firstOther_cons_of_piece (number?_trim_eq_some_iff.mp hnumber), ← ih]
          cases coercePieces text parts with
          | error other => rfl
          | ok rest => simp [Except.map]

section

variable {parts : List (List Char)} {inner : List Char} {shape : Shape}

theorem exists_piece_of_mem (hpieces : List.Forall₂ Piece parts shape) :
    ∀ part ∈ parts, ∃ value, Piece part value := by
  induction hpieces with
  | nil => exact List.forall_mem_nil _
  | cons hpiece _ ih => exact List.forall_mem_cons.mpr ⟨⟨_, hpiece⟩, ih⟩

theorem separated_of_pieces (hsome : parts ≠ []) (hpieces : List.Forall₂ Piece parts shape) :
    Separated ([','].intercalate parts) parts where
  nonempty := hsome
  plain part hpart hmem := by
    obtain ⟨value, hpiece⟩ := exists_piece_of_mem hpieces part hpart
    exact absurd (hpiece.mem hmem) (by decide)
  joined := rfl

theorem not_blank_of_pieces (hparts : Separated inner parts)
    (hpieces : List.Forall₂ Piece parts shape) : ¬ Blank inner := by
  intro hblank
  obtain ⟨first, others, rfl⟩ := List.exists_cons_of_ne_nil hparts.nonempty
  obtain ⟨value, hpiece⟩ := exists_piece_of_mem hpieces first List.mem_cons_self
  obtain ⟨character, hmem, hplain⟩ := hpiece.not_blank
  have hinner : character ∈ inner := by
    rw [hparts.joined, intercalate_cons]
    exact List.mem_append_left _ hmem
  exact absurd (hblank character hinner) (by simp [hplain])

theorem Listed.closing_notMem (hlisted : Listed inner shape) : ']' ∉ inner := by
  intro hmem
  cases hlisted with
  | blank hblank => exact absurd (hblank ']' hmem) (by decide)
  | pieces hparts hpieces =>
      rw [hparts.joined] at hmem
      rcases mem_of_mem_intercalate hmem with hcomma | ⟨part, hpart, hmem⟩
      · exact absurd hcomma (by decide)
      · obtain ⟨value, hpiece⟩ := exists_piece_of_mem hpieces part hpart
        exact absurd (hpiece.mem hmem) (by decide)

theorem listed_iff_of_blank (hblank : Blank inner) : Listed inner shape ↔ shape = [] := by
  constructor
  · intro hlisted
    cases hlisted with
    | blank _ => rfl
    | pieces hparts hpieces => exact absurd hblank (not_blank_of_pieces hparts hpieces)
  · rintro rfl
    exact .blank hblank

theorem listed_iff_of_not_blank (hblank : ¬ Blank inner) :
    Listed inner shape ↔ List.Forall₂ Piece (pieces inner) shape := by
  constructor
  · intro hlisted
    cases hlisted with
    | blank hother => exact absurd hother hblank
    | pieces hparts hpieces => exact pieces_eq_iff.mpr hparts ▸ hpieces
  · exact .pieces (pieces_eq_iff.mp rfl)

theorem shapeOfText_eq_ok_iff {text : String} :
    shapeOfText text = .ok shape ↔ ∃ inner, Bracketed text.toList inner ∧ Listed inner shape := by
  simp only [← bracketed?_eq_some_iff]
  rw [shapeOfText]
  cases bracketed? text.toList with
  | none => simp
  | some inner =>
      simp only [Option.some_inj, exists_eq_left']
      by_cases hblank : Blank inner
      · rw [if_pos (all_isBlank_iff.mpr hblank), listed_iff_of_blank hblank,
          Except.ok.injEq, eq_comm]
      · rw [if_neg (mt all_isBlank_iff.mp hblank), listed_iff_of_not_blank hblank,
          coercePieces_eq_ok_iff]

theorem shapeOfText_eq_error_iff {text : String} {cause : CoercionError} :
    shapeOfText text = .error cause ↔ Refused text cause := by
  rw [shapeOfText]
  cases hfound : bracketed? text.toList with
  | none =>
      have hnone : ∀ inner, ¬ Bracketed text.toList inner := by
        simp [← bracketed?_eq_some_iff, hfound]
      constructor
      · rintro ⟨⟩
        exact .unbracketed hnone
      · rintro (_ | ⟨hinner, _, _, _⟩)
        · rfl
        · exact absurd hinner (hnone _)
  | some inner =>
      have hinner : ∀ {other}, Bracketed text.toList other ↔ inner = other := by
        simp [← bracketed?_eq_some_iff, hfound]
      dsimp only
      by_cases hblank : Blank inner
      · rw [if_pos (all_isBlank_iff.mpr hblank)]
        refine ⟨nofun, ?_⟩
        rintro (hnone | ⟨hother, hnot, _, _⟩)
        · exact absurd (hinner.mpr rfl) (hnone inner)
        · exact absurd (hinner.mp hother ▸ hblank) hnot
      · rw [if_neg (mt all_isBlank_iff.mp hblank), coercePieces_eq_error_iff]
        constructor
        · rintro ⟨part, hpart, rfl⟩
          exact .otherPart (hinner.mpr rfl) hblank (pieces_eq_iff.mp rfl) hpart
        · rintro (hnone | ⟨hother, _, hparts, hpart⟩)
          · exact absurd (hinner.mpr rfl) (hnone inner)
          · obtain rfl := hinner.mp hother
            exact ⟨_, pieces_eq_iff.mpr hparts ▸ hpart, rfl⟩

end

def IsShapeArgument (cause : CoercionError) : Prop :=
  cause.isUnsupported = false ∧ ∃ detail, cause.message = "Invalid value for `shape`: " ++ detail

theorem quoted_argument (quoted : String) :
    "Invalid value for `shape`: `" ++ quoted =
      "Invalid value for `shape`: " ++ ("`" ++ quoted) := by
  rw [← String.append_assoc]
  rfl

theorem isShapeArgument_noList (text : String) : IsShapeArgument (.noList text) := by
  have hmessage : (CoercionError.noList text).message =
      "Invalid value for `shape`: `" ++ text ++
        "` is not of the form \"[d0, d1, ...]\"" := rfl
  rw [String.append_assoc, quoted_argument] at hmessage
  exact ⟨rfl, _, hmessage⟩

theorem isShapeArgument_noNumber (piece text : String) :
    IsShapeArgument (.noNumber piece text) := by
  have hmessage : (CoercionError.noNumber piece text).message =
      "Invalid value for `shape`: `" ++ piece ++ "` in `" ++ text ++
        "` is not a non-negative integer" := rfl
  rw [String.append_assoc, String.append_assoc, String.append_assoc, quoted_argument] at hmessage
  exact ⟨rfl, _, hmessage⟩

theorem Refused.isShapeArgument {text : String} {cause : CoercionError}
    (hrefused : Refused text cause) : IsShapeArgument cause := by
  cases hrefused with
  | unbracketed _ => exact isShapeArgument_noList text
  | otherPart _ _ _ _ => exact isShapeArgument_noNumber _ text

theorem intercalate_spaced (first : List Char) (others : List (List Char)) :
    [',', ' '].intercalate (first :: others) =
      [','].intercalate (first :: others.map (' ' :: ·)) := by
  rw [intercalate_cons, intercalate_cons, List.flatMap_map]
  rfl

theorem forall₂_piece_spaced {others : List Nat} (hword : ∀ other ∈ others, other < UInt64.size) :
    List.Forall₂ Piece ((others.map (Nat.toDigits 10)).map (' ' :: ·)) others := by
  induction others with
  | nil => exact .nil
  | cons other others ih =>
      obtain ⟨hother, hrest⟩ := List.forall_mem_cons.mp hword
      have hspace : Blank [' '] := by simp [Blank, isBlank, blankRanges]
      exact .cons (Piece.toDigits hspace hother) (ih hrest)

theorem listed_spaced {shape : Shape} (hword : ∀ dimension ∈ shape, dimension < UInt64.size) :
    Listed ([',', ' '].intercalate (shape.map (Nat.toDigits 10))) shape := by
  cases shape with
  | nil => exact .blank (List.forall_mem_nil _)
  | cons first others =>
      obtain ⟨hfirst, hothers⟩ := List.forall_mem_cons.mp hword
      have hpieces := List.Forall₂.cons (Piece.toDigits (List.forall_mem_nil _) hfirst)
        (forall₂_piece_spaced hothers)
      rw [List.map_cons, intercalate_spaced]
      exact .pieces (separated_of_pieces (List.cons_ne_nil _ _) hpieces) hpieces

theorem shapeOfText_around (before : String) (hbefore : '[' ∉ before.toList) (after : String)
    {shape : Shape} (hword : ∀ dimension ∈ shape, dimension < UInt64.size) :
    shapeOfText (before ++ shape.text ++ after) = .ok shape := by
  have hlisted := listed_spaced hword
  have htext : shape.text.toList =
      '[' :: ([',', ' '].intercalate (shape.map (Nat.toDigits 10)) ++ [']']) :=
    toList_bracketed ", " shape
  rw [shapeOfText_eq_ok_iff]
  refine ⟨_, ⟨before.toList, after.toList, ?_, hbefore, hlisted.closing_notMem⟩, hlisted⟩
  rw [String.toList_append, String.toList_append, htext]
  simp

theorem shapeOfText_text {shape : Shape} (hword : ∀ dimension ∈ shape, dimension < UInt64.size) :
    shapeOfText shape.text = .ok shape := by
  have hread := shapeOfText_around "" List.not_mem_nil "" hword
  rwa [String.empty_append, String.append_empty] at hread

/-- What a text gives: the shape that is listed between its brackets, or the reason for refusal. -/
structure ReadsShape (text : String) : Prop where
  accepted : ∀ shape, coerceShape (.text text) = .ok shape ↔
    ∃ inner, Bracketed text.toList inner ∧ Listed inner shape
  refused : ∀ cause, coerceShape (.text text) = .error cause ↔ Refused text cause
  argument : ∀ cause, coerceShape (.text text) = .error cause → IsShapeArgument cause

/-- Texts of the grammar are accepted and all others are refused as arguments for `shape`. The text
of a shape is accepted whatever stands around it. -/
theorem coerceShape_text :
    (∀ text, ReadsShape text) ∧
      ∀ (before : String) (shape : Shape) (after : String), '[' ∉ before.toList →
        (∀ dimension ∈ shape, dimension < UInt64.size) →
          coerceShape (.text (before ++ shape.text ++ after)) = .ok shape := by
  constructor
  · intro text
    constructor
    · exact fun shape => shapeOfText_eq_ok_iff
    · exact fun cause => shapeOfText_eq_error_iff
    · exact fun cause hcause => (shapeOfText_eq_error_iff.mp hcause).isShapeArgument
  · intro before shape after hbefore hword
    exact shapeOfText_around before hbefore after hword

theorem coerceShape_text_surrounded :
    '[' ∉ "torch.Size(".toList ∧
      (∀ dimension ∈ [3, 18446744073709551615], dimension < UInt64.size) ∧
      coerceShape (.text ("torch.Size(" ++ Shape.text [3, 18446744073709551615] ++ ")[x]")) =
        .ok [3, 18446744073709551615] ∧
      Refused "[1, ]" (.noNumber "" "[1, ]") := by
  have hbefore : '[' ∉ "torch.Size(".toList := by decide
  have hword : ∀ dimension ∈ [3, 18446744073709551615], dimension < UInt64.size := by decide
  refine ⟨hbefore, hword, coerceShape_text.2 _ _ _ hbefore hword, ?_⟩
  exact ((coerceShape_text.1 "[1, ]").refused _).mp (by decide)

/-- Brackets outside the list do not matter, nor do blanks, signs and zeros around a number. -/
example : coerceShape (.text "]x[ +07,\u00a018446744073709551615]]") =
    .ok [7, 18446744073709551615] := by
  decide

end Apportion.Proofs.Envelopes.ShapeTexts
