import Mathlib.Data.List.Forall2
import Apportion.Proofs.Json.WrittenCollections

namespace Apportion.Proofs.Json.SpacedTexts

open Apportion.Json.Faults
open Apportion.Json.Scalars
open Apportion.Json.Readers
open Apportion.Proofs.Outcomes
open Apportion.Proofs.Json.WrittenNumbers
open Apportion.Proofs.Json.WrittenTexts
open Apportion.Proofs.Json.WrittenCollections

def Blank (text : List Char) : Prop :=
  ∀ character ∈ text, isBlank character = true

theorem blank_nil : Blank [] := by
  rintro character ⟨⟩

theorem skipBlanks_append {blanks : List Char} (hblanks : Blank blanks) (rest : List Char) :
    skipBlanks (blanks ++ rest) = skipBlanks rest :=
  List.dropWhile_append_of_pos hblanks

theorem firstCharacter_append {blanks : List Char} (hblanks : Blank blanks) (rest : List Char) :
    firstCharacter (blanks ++ rest) = firstCharacter rest := by
  rw [firstCharacter, skipBlanks_append hblanks, firstCharacter]

theorem endsNumber_cons {character : Char} (hends : character.isDigit = false ∧
      character ≠ '.' ∧ character ≠ 'e' ∧ character ≠ 'E') (rest : List Char) :
    EndsNumber (character :: rest) := by
  rintro other ⟨⟩
  exact hends

theorem endsNumber_append {blanks rest : List Char} (hblanks : Blank blanks)
    (hrest : EndsNumber rest) : EndsNumber (blanks ++ rest) := by
  cases blanks with
  | nil => exact hrest
  | cons blank blanks =>
      have hblank := hblanks blank (by simp)
      simp only [isBlank, Bool.or_eq_true, beq_iff_eq] at hblank
      rcases hblank with ((rfl | rfl) | rfl) | rfl <;>
        exact endsNumber_cons (by decide) _

structure Padded where
  before : List Char
  core : List Char
  behind : List Char
  blank_before : Blank before
  blank_behind : Blank behind

def Padded.text (padded : Padded) : List Char :=
  padded.before ++ (padded.core ++ padded.behind)

structure MemberText where
  key : Padded
  value : Padded

def MemberText.text (member : MemberText) : List Char :=
  member.key.text ++ ':' :: member.value.text

def following (items : List (List Char)) : List Char :=
  items.flatMap fun item => ',' :: item

theorem following_cons (item : List Char) (items : List (List Char)) :
    following (item :: items) = ',' :: (item ++ following items) := by
  rw [following, List.flatMap_cons, List.cons_append]
  rfl

theorem length_le_following (items : List (List Char)) :
    items.length ≤ (following items).length :=
  length_le_others id items

/-- What stands between the brackets around these items: commas between them, and only blanks if
there are none. -/
inductive Separated : List (List Char) → List Char → Prop
  | none {blanks : List Char} (hblanks : Blank blanks) : Separated [] blanks
  | some (first : List Char) (others : List (List Char)) :
      Separated (first :: others) (first ++ following others)

theorem endsNumber_following (items : List (List Char)) {rest : List Char}
    (hrest : EndsNumber rest) : EndsNumber (following items ++ rest) := by
  cases items with
  | nil => exact hrest
  | cons item items =>
      rw [following_cons]
      exact endsNumber_cons (by decide) _

theorem endsNumber_brace (rest : List Char) : EndsNumber ('\x7d' :: rest) :=
  endsNumber_cons (by decide) rest

def quoted (body : List Char) : List Char :=
  '"' :: (body ++ ['"'])

theorem quoted_append (body rest : List Char) :
    quoted body ++ rest = '"' :: (body ++ '"' :: rest) := by
  rw [quoted, List.cons_append, List.append_assoc]
  rfl

/-- The characters between the quotation marks of a text stand for these ones. -/
inductive Spells : List Char → List Char → Prop
  | nil : Spells [] []
  | plain {character : Char} {body characters : List Char} (hquote : character ≠ '"')
      (hbackslash : character ≠ '\\') (hcontrol : ¬character.toNat < 32)
      (hothers : Spells body characters) : Spells (character :: body) (character :: characters)
  | escaped {mark character : Char} {body characters : List Char}
      (hescaped : escaped? mark = some character) (hothers : Spells body characters) :
      Spells ('\\' :: mark :: body) (character :: characters)
  | unit {a b c d : Char} {unit : Nat} {body characters : List Char}
      (hunit : unit? a b c d = some unit) (hleading : isLeading unit = false)
      (htrailing : isTrailing unit = false) (hothers : Spells body characters) :
      Spells ('\\' :: 'u' :: a :: b :: c :: d :: body) (Char.ofNat unit :: characters)
  | pair {a b c d e f g h : Char} {leading trailing : Nat} {body characters : List Char}
      (hfirst : unit? a b c d = some leading) (hleading : isLeading leading = true)
      (hsecond : unit? e f g h = some trailing) (htrailing : isTrailing trailing = true)
      (hothers : Spells body characters) :
      Spells ('\\' :: 'u' :: a :: b :: c :: d :: '\\' :: 'u' :: e :: f :: g :: h :: body)
        (pairCharacter leading trailing :: characters)

theorem spells_of_plain {body rest characters : List Char}
    (hplain : ∀ character ∈ body, character ≠ '"' ∧ character ≠ '\\' ∧ ¬character.toNat < 32)
    (hrest : Spells rest characters) : Spells (body ++ rest) (body ++ characters) := by
  induction body with
  | nil => exact hrest
  | cons character body ih =>
      obtain ⟨hquote, hbackslash, hcontrol⟩ := hplain character (by simp)
      exact .plain hquote hbackslash hcontrol (ih fun other hmem => hplain other (by simp [hmem]))

theorem readCharacters_pair {a b c d e f g h : Char} {leading trailing : Nat}
    (hfirst : unit? a b c d = some leading) (hleading : isLeading leading = true)
    (hsecond : unit? e f g h = some trailing) (htrailing : isTrailing trailing = true)
    (rest : List Char) :
    readCharacters
        ('\\' :: 'u' :: a :: b :: c :: d :: '\\' :: 'u' :: e :: f :: g :: h :: rest) =
      prepend (pairCharacter leading trailing) (readCharacters rest) := by
  have hnone : isTrailing leading = false := by
    simp only [isLeading, isTrailing, Bool.and_eq_true, decide_eq_true_eq, Bool.and_eq_false_iff,
      decide_eq_false_iff_not] at hleading ⊢
    omega
  rw [readCharacters]
  simp only [hfirst, hnone, hleading, hsecond, htrailing, Bool.false_eq_true, if_false, if_true]

theorem readCharacters_spelled {body characters : List Char} (hspells : Spells body characters)
    (rest : List Char) : readCharacters (body ++ '"' :: rest) = .ok (characters, rest) := by
  induction hspells with
  | nil => rw [List.nil_append, readCharacters]
  | plain hquote hbackslash hcontrol _ ih =>
      rw [List.cons_append, readCharacters_plain hquote hbackslash hcontrol, ih]
      rfl
  | escaped hescaped _ ih =>
      simp only [List.cons_append]
      rw [readCharacters_escaped hescaped, ih]
      rfl
  | unit hunit hleading htrailing _ ih =>
      simp only [List.cons_append]
      rw [readCharacters_unit hunit hleading htrailing, ih]
      rfl
  | pair hfirst hleading hsecond htrailing _ ih =>
      simp only [List.cons_append]
      rw [readCharacters_pair hfirst hleading hsecond htrailing, ih]
      rfl

inductive TextForm : String → List Char → Prop
  | mk {text : String} {body : List Char} (hspells : Spells body text.toList) :
      TextForm text (quoted body)

theorem readText_spelled {text : String} {body : List Char} (hspells : Spells body text.toList)
    (rest : List Char) : readText (body ++ '"' :: rest) = .ok (text, rest) := by
  simp only [readText, readCharacters_spelled hspells, ok_bind, String.ofList_toList, pure_eq_ok]

theorem nextKey_first_spaced {name : String} {before key : List Char} (hbefore : Blank before)
    (hkey : TextForm name key) (rest : List Char) :
    nextKey true (before ++ (key ++ rest)) = .ok (some name, rest) := by
  cases hkey with
  | mk hspells =>
      rw [nextKey]
      simp only
      rw [skipBlanks_append hbefore, quoted_append, skipBlanks_cons (by decide)]
      change (readText _).map _ = _
      rw [readText_spelled hspells]
      rfl

theorem nextKey_comma_spaced {name : String} {behind before key : List Char}
    (hbehind : Blank behind) (hbefore : Blank before) (hkey : TextForm name key)
    (rest : List Char) :
    nextKey false (behind ++ ',' :: (before ++ (key ++ rest))) = .ok (some name, rest) := by
  cases hkey with
  | mk hspells =>
      rw [nextKey]
      simp only
      rw [skipBlanks_append hbehind, skipBlanks_cons (by decide)]
      simp only
      rw [skipBlanks_append hbefore, quoted_append, skipBlanks_cons (by decide)]
      change (readText _).map _ = _
      rw [readText_spelled hspells]
      rfl

theorem nextKey_end {blanks : List Char} (hblanks : Blank blanks) (isFirst : Bool)
    (rest : List Char) :
    nextKey isFirst (blanks ++ '\x7d' :: rest) = .ok (none, rest) := by
  rw [nextKey]
  simp only
  rw [skipBlanks_append hblanks, skipBlanks_cons (by decide)]
  rfl

section

variable {σ γ : Type} {readMember : σ → String → Reader σ}

/-- The member is read by this step, whatever has been read before. -/
def MemberReads (readMember : σ → String → Reader σ) (step : σ → Except JsonError σ)
    (member : MemberText) : Prop :=
  ∃ name, TextForm name member.key.core ∧ ∀ state rest, EndsNumber rest →
    readMember state name
        (member.key.behind ++ ':' :: (member.value.before ++ (member.value.core ++ rest))) =
      (step state).map (·, rest)

variable {give : σ → γ → Except JsonError σ} {given : List γ} {members : List MemberText}

theorem readMembers_following
    (hmembers : List.Forall₂ (fun given => MemberReads readMember (give · given)) given members)
    {tail : List Char} (htail : EndsNumber tail) {blanks : List Char} (hblanks : Blank blanks) :
    ∃ others, Blank others ∧ ∀ steps state,
      readMembers readMember (given.length + steps) false state
          (blanks ++ (following (members.map MemberText.text) ++ tail)) =
        given.foldlM give state >>= fun state =>
          readMembers readMember steps false state (others ++ tail) := by
  induction hmembers generalizing blanks with
  | nil =>
      refine ⟨blanks, hblanks, fun steps state => ?_⟩
      rw [List.length_nil, Nat.zero_add]
      rfl
  | @cons first member given members hmember _ ih =>
      obtain ⟨others, hothers, hread⟩ := ih member.value.blank_behind
      obtain ⟨name, hkey, hfirst⟩ := hmember
      refine ⟨others, hothers, fun steps state => ?_⟩
      have hstep := hfirst state _ (endsNumber_append member.value.blank_behind
        (endsNumber_following (members.map MemberText.text) htail))
      have hcount : (first :: given).length + steps = given.length + steps + 1 := by
        rw [List.length_cons]
        omega
      rw [hcount, List.map_cons, following_cons, MemberText.text, Padded.text, Padded.text]
      simp only [List.cons_append, List.append_assoc]
      rw [readMembers, nextKey_comma_spaced hblanks member.key.blank_before hkey, ok_bind]
      simp only
      rw [hstep, List.foldlM_cons]
      simp only
      cases give state first with
      | error cause => rfl
      | ok next => exact hread steps next

theorem readMembers_first_spaced {member : MemberText} {name : String}
    (hkey : TextForm name member.key.core) (steps : Nat) (state : σ) (rest : List Char) :
    readMembers readMember (steps + 1) true state (member.text ++ rest) =
      readMembers readMember (steps + 1) false state (',' :: (member.text ++ rest)) := by
  have hcomma := nextKey_comma_spaced blank_nil member.key.blank_before hkey
  rw [MemberText.text, Padded.text]
  simp only [List.append_assoc]
  rw [readMembers, nextKey_first_spaced member.key.blank_before hkey, readMembers]
  exact congrArg (· >>= _) (hcomma _).symm

theorem readObject_following {first : γ} {member : MemberText}
    (hmember : MemberReads readMember (give · first) member)
    (hmembers : List.Forall₂ (fun given => MemberReads readMember (give · given)) given members)
    {tail : List Char} (htail : EndsNumber tail) (hsome : tail ≠ []) (state : σ) :
    ∃ others steps, Blank others ∧
      readObject readMember state
          (member.text ++ following (members.map MemberText.text) ++ tail) =
        (first :: given).foldlM give state >>= fun state =>
          readMembers readMember (steps + 1) false state (others ++ tail) := by
  obtain ⟨others, hothers, hread⟩ := readMembers_following (.cons hmember hmembers) htail blank_nil
  obtain ⟨name, hkey, -⟩ := hmember
  have hlength := length_le_following (members.map MemberText.text)
  have hrest := List.length_pos_of_ne_nil hsome
  rw [List.length_map, ← hmembers.length_eq] at hlength
  obtain ⟨steps, hsteps⟩ : ∃ steps, (member.text ++
      following (members.map MemberText.text) ++ tail).length =
        given.length + 1 + steps := by
    refine Nat.exists_eq_add_of_le ?_
    simp only [List.length_append]
    omega
  refine ⟨others, steps, hothers, ?_⟩
  rw [readObject, hsteps, List.append_assoc, readMembers_first_spaced hkey]
  have hcount : given.length + 1 + steps + 1 = (first :: given).length + (steps + 1) := rfl
  rw [hcount, ← hread (steps + 1) state, List.map_cons, following_cons]
  simp only [List.nil_append, List.cons_append, List.append_assoc]

theorem readObject_separated
    (hmembers : List.Forall₂ (fun given => MemberReads readMember (give · given)) given members)
    {inside : List Char} (hinside : Separated (members.map MemberText.text) inside) (state : σ)
    (rest : List Char) :
    readObject readMember state (inside ++ '\x7d' :: rest) =
      (given.foldlM give state).map (·, rest) := by
  cases hmembers with
  | nil =>
      cases hinside with
      | none hblanks =>
          rw [readObject, readMembers, nextKey_end hblanks]
          rfl
  | @cons first member given members hmember hothers =>
      cases hinside
      obtain ⟨blanks, steps, hblanks, hread⟩ := readObject_following hmember hothers
        (endsNumber_brace rest) (List.cons_ne_nil _ rest) state
      rw [hread]
      cases (first :: given).foldlM give state with
      | error cause => rfl
      | ok next =>
          rw [ok_bind, readMembers, nextKey_end hblanks]
          rfl

theorem readObject_refused
    (hmembers : List.Forall₂ (fun given => MemberReads readMember (give · given)) given members)
    (hsome : members ≠ []) {inside : List Char}
    (hinside : Separated (members.map MemberText.text) inside) {state next : σ}
    (hgiven : given.foldlM give state = .ok next) {name : String} {before key rest : List Char}
    (hbefore : Blank before) (hkey : TextForm name key) {cause : JsonError}
    (hrefused : readMember next name rest = .error cause) :
    readObject readMember state (inside ++ ',' :: (before ++ (key ++ rest))) = .error cause := by
  cases hmembers with
  | nil => exact absurd rfl hsome
  | @cons first member given members hmember hothers =>
      cases hinside
      have htail : EndsNumber (',' :: (before ++ (key ++ rest))) :=
        endsNumber_cons (by decide) _
      obtain ⟨blanks, steps, hblanks, hread⟩ :=
        readObject_following hmember hothers htail (List.cons_ne_nil _ _) state
      rw [hread, hgiven, ok_bind, readMembers, nextKey_comma_spaced hblanks hbefore hkey, ok_bind]
      simp only
      rw [hrefused]
      rfl

end

end Apportion.Proofs.Json.SpacedTexts
