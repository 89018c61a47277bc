import Apportion.Json.Skipping
import Apportion.Proofs.Json.NumberTexts

/-!
Values that nothing is read from. Every value of the grammar is passed over up to its own end,
however deep it is nested and whatever encloses it: behind it stands what encloses it, or the rest
of the text. Numbers may be of any size, and the halves of a pair of escapes may stand alone.
-/

namespace Apportion.Proofs.Json.PassedValues

open Apportion.Number.Shortest
open Apportion.Json.Faults
open Apportion.Json.Scalars
open Apportion.Json.Skipping
open Apportion.Proofs.Json.WrittenNumbers
open Apportion.Proofs.Json.WrittenCollections
open Apportion.Proofs.Json.WrittenDoubles
open Apportion.Proofs.Json.SpacedTexts
open Apportion.Proofs.Json.NumberTexts

/-- What may stand between the quotation marks of a text that is passed over. -/
inductive IsBody : List Char → Prop
  | nil : IsBody []
  | plain {character : Char} {body : List Char} (hquote : character ≠ '"')
      (hbackslash : character ≠ '\\') (hcontrol : ¬character < ' ') (hothers : IsBody body) :
      IsBody (character :: body)
  | escaped {mark : Char} {body : List Char} (hmark : (escaped? mark).isSome = true)
      (hothers : IsBody body) : IsBody ('\\' :: mark :: body)
  | unit {a b c d : Char} {body : List Char}
      (hdigits : ∀ digit ∈ [a, b, c, d], (hexValue? digit).isSome = true)
      (hothers : IsBody body) : IsBody ('\\' :: 'u' :: a :: b :: c :: d :: body)

theorem isBody_of_plain {body : List Char}
    (hplain : ∀ character ∈ body, character ≠ '"' ∧ character ≠ '\\' ∧ ¬character < ' ') :
    IsBody body := by
  induction body with
  | nil => exact .nil
  | cons character body ih =>
      obtain ⟨hquote, hbackslash, hcontrol⟩ := hplain character (by simp)
      exact .plain hquote hbackslash hcontrol (ih fun other hmem => hplain other (by simp [hmem]))

def words : List (List Char) :=
  [['n', 'u', 'l', 'l'], ['t', 'r', 'u', 'e'], ['f', 'a', 'l', 's', 'e']]

inductive IsValue : List Char → Prop
  | word {text : List Char} (hword : text ∈ words) : IsValue text
  | number {negative : Bool} {decimal : Decimal} {text : List Char}
      (hnumber : NumberForm negative decimal text) : IsValue text
  | text {body : List Char} (hbody : IsBody body) : IsValue (quoted body)
  | list {items : List Padded} {inside : List Char}
      (hinside : Separated (items.map Padded.text) inside)
      (hitems : ∀ item ∈ items, IsValue item.core) : IsValue ('[' :: (inside ++ [']']))
  | object {members : List MemberText} {inside : List Char}
      (hinside : Separated (members.map MemberText.text) inside)
      (hkeys : ∀ member ∈ members, ∃ body, IsBody body ∧ member.key.core = quoted body)
      (hvalues : ∀ member ∈ members, IsValue member.value.core) :
      IsValue ('\x7b' :: (inside ++ ['\x7d']))

/-- What is met behind a value inside these frames. -/
def behind (frames : List Frame) (rest : List Char) : Except JsonError (List Char) :=
  if frames.isEmpty then .ok rest else follow .afterValue frames rest

/-- The text is passed over as a value, whatever encloses it. -/
def Passes (text : List Char) : Prop :=
  ∀ frames rest, EndsNumber rest → follow .value frames (text ++ rest) = behind frames rest

section

variable {place next : Place} {frames outer : List Frame} {character : Char} {rest : List Char}

theorem follow_go (hstep : step place frames character rest = .ok (.go next outer)) :
    follow place frames (character :: rest) = follow next outer rest := by
  rw [follow, hstep]

theorem follow_close (hstep : step place frames character rest = .ok (close outer)) :
    follow place frames (character :: rest) = behind outer rest := by
  rw [follow, hstep]
  cases outer <;> rfl

theorem follow_run {accepts : Char → Bool}
    (hstay : ∀ frames character rest, accepts character = true →
      step place frames character rest = .ok (.go place frames))
    {run : List Char} (hrun : ∀ character ∈ run, accepts character = true) (frames : List Frame)
    (rest : List Char) : follow place frames (run ++ rest) = follow place frames rest := by
  induction run with
  | nil => rfl
  | cons character run ih =>
      exact (follow_go (hstay frames character _ (hrun character (by simp)))).trans
        (ih fun other hmem => hrun other (by simp [hmem]))

end

theorem follow_blank {place : Place} {blanks : List Char} (hblanks : Blank blanks)
    (hplace : place ∈ [.value, .firstElement, .afterValue, .firstKey, .key, .colon])
    (frames : List Frame) (rest : List Char) :
    follow place frames (blanks ++ rest) = follow place frames rest := by
  refine follow_run (fun frames character rest hblank => ?_) hblanks frames rest
  simp only [List.mem_cons, List.not_mem_nil, or_false] at hplace
  rcases hplace with rfl | rfl | rfl | rfl | rfl | rfl <;> exact if_pos hblank

theorem follow_digits {place : Place} {digits : List Char}
    (hdigits : ∀ character ∈ digits, character.isDigit = true)
    (hplace : place ∈ [.whole, .fraction, .exponentDigits]) (frames : List Frame)
    (rest : List Char) : follow place frames (digits ++ rest) = follow place frames rest := by
  refine follow_run (fun frames character rest hdigit => ?_) hdigits frames rest
  simp only [List.mem_cons, List.not_mem_nil, or_false] at hplace
  rcases hplace with rfl | rfl | rfl <;> exact if_pos hdigit

theorem follow_word {letters : List Char} (hsome : letters ≠ []) (frames : List Frame)
    (rest : List Char) : follow (.word letters) frames (letters ++ rest) = behind frames rest := by
  induction letters with
  | nil => exact absurd rfl hsome
  | cons letter letters ih =>
      cases letters with
      | nil => exact follow_close (by simp [step])
      | cons other letters =>
          exact (follow_go (by simp [step])).trans (ih (List.cons_ne_nil other letters))

theorem passes_word {text : List Char} (hword : text ∈ words) : Passes text := by
  intro frames rest _
  simp only [words, List.mem_cons, List.not_mem_nil, or_false] at hword
  rcases hword with rfl | rfl | rfl
  · exact (follow_go rfl).trans (follow_word (List.cons_ne_nil 'u' _) frames rest)
  · exact (follow_go rfl).trans (follow_word (List.cons_ne_nil 'r' _) frames rest)
  · exact (follow_go rfl).trans (follow_word (List.cons_ne_nil 'a' _) frames rest)

theorem follow_numberEnd {place : Place}
    (hplace : place ∈ [.zero, .whole, .fraction, .exponentDigits]) (frames : List Frame)
    {rest : List Char} (hrest : EndsNumber rest) :
    follow place frames rest = behind frames rest := by
  simp only [List.mem_cons, List.not_mem_nil, or_false] at hplace
  cases rest with
  | nil => rcases hplace with rfl | rfl | rfl | rfl <;> cases frames <;> rfl
  | cons character rest =>
      obtain ⟨hdigit, hpoint, hlower, hupper⟩ := hrest character rfl
      have hstep : step place frames character rest = followNumber frames character := by
        rcases hplace with rfl | rfl | rfl | rfl <;>
          simp [step, followWhole, followDigits, hdigit, hpoint, hlower, hupper]
      rw [follow, hstep]
      cases frames with
      | nil => rfl
      | cons frame frames => rfl

theorem follow_exponent {place : Place} (hplace : place ∈ [.zero, .whole, .fraction])
    {power : ℤ} {tail rest : List Char} (htail : ExponentForm power tail) (hrest : EndsNumber rest)
    (frames : List Frame) : follow place frames (tail ++ rest) = behind frames rest := by
  simp only [List.mem_cons, List.not_mem_nil, or_false] at hplace
  cases htail with
  | none =>
      refine follow_numberEnd ?_ frames hrest
      rcases hplace with rfl | rfl | rfl <;> decide
  | @marked mark below sign size hmark hsign hsize hsome =>
      obtain ⟨first, others, rfl⟩ := List.exists_cons_of_ne_nil hsome
      have hfirst : first.isDigit = true := hsize first (by simp)
      have hplus : first ≠ '+' := ne_of_isDigit hfirst rfl
      have hminus : first ≠ '-' := ne_of_isDigit hfirst rfl
      have hmarked : ∀ rest, step place frames mark rest = .ok (.go .exponent frames) := by
        intro rest
        rcases hplace with rfl | rfl | rfl <;> rcases hmark with rfl | rfl <;> rfl
      have hothers : follow .exponentDigits frames (others ++ rest) = behind frames rest :=
        (follow_digits (fun other hmem => hsize other (by simp [hmem])) (by decide) frames
          rest).trans (follow_numberEnd (by decide) frames hrest)
      have hsigned : follow .exponentSign frames (first :: (others ++ rest)) =
          behind frames rest := by
        have hstep : step .exponentSign frames first (others ++ rest) =
            .ok (.go .exponentDigits frames) := if_pos hfirst
        exact (follow_go hstep).trans hothers
      rw [List.cons_append, List.append_assoc, follow_go (hmarked _)]
      cases hsign with
      | none => exact (follow_go (by simp [step, hplus, hminus, hfirst])).trans hothers
      | plus => exact (follow_go rfl).trans hsigned
      | minus => exact (follow_go rfl).trans hsigned

theorem follow_fraction {place : Place} (hplace : place ∈ [.zero, .whole])
    {fraction pointed tail rest : List Char} {power : ℤ} (hfraction : FractionForm fraction pointed)
    (htail : ExponentForm power tail) (hrest : EndsNumber rest) (frames : List Frame) :
    follow place frames (pointed ++ (tail ++ rest)) = behind frames rest := by
  simp only [List.mem_cons, List.not_mem_nil, or_false] at hplace
  cases hfraction with
  | none =>
      refine follow_exponent ?_ htail hrest frames
      rcases hplace with rfl | rfl <;> decide
  | pointed hdigits hsome =>
      obtain ⟨first, others, rfl⟩ := List.exists_cons_of_ne_nil hsome
      have hpoint : ∀ rest, step place frames '.' rest = .ok (.go .point frames) := by
        intro rest
        rcases hplace with rfl | rfl <;> rfl
      have hfirst : step .point frames first (others ++ (tail ++ rest)) =
          .ok (.go .fraction frames) := if_pos (hdigits first (by simp))
      rw [List.cons_append, follow_go (hpoint _), List.cons_append, follow_go hfirst,
        follow_digits (fun other hmem => hdigits other (by simp [hmem])) (by decide)]
      exact follow_exponent (by decide) htail hrest frames

theorem follow_whole {place : Place} (hplace : place ∈ [.value, .sign]) {whole : List Char}
    (hwhole : IsWhole whole) (frames : List Frame) (rest : List Char) :
    ∃ next ∈ [Place.zero, Place.whole],
      follow place frames (whole ++ rest) = follow next frames rest := by
  simp only [List.mem_cons, List.not_mem_nil, or_false] at hplace
  obtain ⟨first, others, rfl, hlead⟩ := hwhole.leading
  by_cases hzero : first = '0'
  · refine ⟨.zero, by decide, ?_⟩
    rw [hlead hzero, hzero]
    rcases hplace with rfl | rfl <;> exact follow_go rfl
  · have hfirst := hwhole.isDigit first (by simp)
    have hstep : ∀ rest, step place frames first rest = .ok (.go .whole frames) := by
      intro rest
      have hother : ∀ {other : Char}, other.isDigit = false → first ≠ other :=
        fun hdigit => ne_of_isDigit hfirst hdigit
      rcases hplace with rfl | rfl
      · have hblank := isBlank_of_startsNumber (startsNumber_of_isDigit hfirst)
        have hword : first ≠ 'n' ∧ first ≠ 't' ∧ first ≠ 'f' ∧ first ≠ '-' :=
          ⟨hother rfl, hother rfl, hother rfl, hother rfl⟩
        simp [step, startValue, hfirst, hzero, hblank, hword]
      · simp [step, hfirst, hzero]
    refine ⟨.whole, by decide, ?_⟩
    rw [List.cons_append, follow_go (hstep _)]
    exact follow_digits (fun other hmem => hwhole.isDigit other (by simp [hmem])) (by decide)
      frames rest

theorem passes_number {negative : Bool} {decimal : Decimal} {text : List Char}
    (hnumber : NumberForm negative decimal text) : Passes text := by
  intro frames rest hrest
  cases hnumber with
  | @mk whole fraction pointed tail power hwhole hfraction hexponent =>
      rw [List.append_assoc, List.append_assoc, List.append_assoc]
      have hbehind : ∀ place ∈ [Place.value, Place.sign],
          follow place frames (whole ++ (pointed ++ (tail ++ rest))) = behind frames rest := by
        intro place hplace
        obtain ⟨next, hnext, hfollow⟩ :=
          follow_whole hplace hwhole frames (pointed ++ (tail ++ rest))
        rw [hfollow]
        exact follow_fraction hnext hfraction hexponent hrest frames
      cases negative with
      | true => exact (follow_go rfl).trans (hbehind .sign (by decide))
      | false => exact hbehind .value (by decide)

def behindText (isKey : Bool) (frames : List Frame) (rest : List Char) :
    Except JsonError (List Char) :=
  if isKey then follow .colon frames rest else behind frames rest

theorem four_le_utf8ByteSize (a b c d : Char) :
    ¬(String.ofList [a, b, c, d]).utf8ByteSize < 4 := by
  have ha := a.utf8Size_pos
  have hb := b.utf8Size_pos
  have hc := c.utf8Size_pos
  have hd := d.utf8Size_pos
  rw [String.utf8ByteSize_ofList]
  simp only [String.utf8Len_cons, String.utf8Len_nil]
  omega

theorem follow_unit {digits : List Char}
    (hdigits : ∀ digit ∈ digits, (hexValue? digit).isSome = true) (hsome : digits ≠ [])
    (isKey : Bool) (frames : List Frame) (rest : List Char) :
    follow (.unit isKey digits.length) frames (digits ++ rest) =
      follow (.text isKey) frames rest := by
  induction digits with
  | nil => exact absurd rfl hsome
  | cons digit digits ih =>
      have hdigit : hexValue? digit ≠ none :=
        Option.isSome_iff_ne_none.mp (hdigits digit (by simp))
      cases digits with
      | nil => exact follow_go (by simp [step, hdigit])
      | cons other digits =>
          exact (follow_go (by simp [step, hdigit])).trans
            (ih (fun digit hmem => hdigits digit (by simp [hmem])) (List.cons_ne_nil other digits))

theorem follow_body {body : List Char} (hbody : IsBody body) (isKey : Bool) (frames : List Frame)
    (rest : List Char) :
    follow (.text isKey) frames (body ++ '"' :: rest) = behindText isKey frames rest := by
  induction hbody with
  | nil =>
      cases isKey with
      | true => exact follow_go rfl
      | false => exact follow_close rfl
  | plain hquote hbackslash hcontrol _ ih =>
      exact (follow_go (by simp [step, hquote, hbackslash, hcontrol])).trans ih
  | @escaped mark body hmark _ ih =>
      have hunit : mark ≠ 'u' := by
        rintro rfl
        exact absurd hmark (by decide)
      exact (follow_go rfl).trans ((follow_go (by simp [step, stepEscape, hunit, hmark])).trans ih)
  | @unit a b c d body hdigits _ ih =>
      have hescape : step (.escape isKey) frames 'u' (a :: b :: c :: d :: (body ++ '"' :: rest)) =
          .ok (.go (.unit isKey 4) frames) := if_neg (four_le_utf8ByteSize a b c d)
      exact (follow_go rfl).trans ((follow_go hescape).trans
        ((follow_unit hdigits (List.cons_ne_nil a _) isKey frames _).trans ih))

theorem passes_text {body : List Char} (hbody : IsBody body) : Passes (quoted body) := by
  intro frames rest _
  rw [quoted_append]
  exact (follow_go rfl).trans (follow_body hbody false frames rest)

/-- An element or a member is passed over from this place on, inside such a frame. -/
def PassesFrom (place : Place) (frame : Frame) (item : List Char) : Prop :=
  ∀ frames rest, EndsNumber rest →
    follow place (frame :: frames) (item ++ rest) = follow .afterValue (frame :: frames) rest

section

variable {frame : Frame} {first next : Place} {closing : Char} {items : List (List Char)}

theorem follow_following
    (hcomma : ∀ frames rest, step .afterValue (frame :: frames) ',' rest =
      .ok (.go next (frame :: frames)))
    (hclosing : ∀ frames rest, step .afterValue (frame :: frames) closing rest =
      .ok (close frames))
    (hends : ∀ rest, EndsNumber (closing :: rest))
    (hitems : ∀ item ∈ items, PassesFrom next frame item) (frames : List Frame)
    (rest : List Char) :
    follow .afterValue (frame :: frames) (following items ++ closing :: rest) =
      behind frames rest := by
  induction items with
  | nil => exact follow_close (hclosing frames rest)
  | cons item items ih =>
      have hends := endsNumber_following items (hends rest)
      rw [following_cons, List.cons_append, List.append_assoc, follow_go (hcomma frames _),
        hitems item (by simp) frames _ hends]
      exact ih fun other hmem => hitems other (by simp [hmem])

theorem follow_separated (hfirst : first ∈ [.firstElement, .firstKey])
    (hempty : ∀ frames rest, step first (frame :: frames) closing rest = .ok (close frames))
    (hcomma : ∀ frames rest, step .afterValue (frame :: frames) ',' rest =
      .ok (.go next (frame :: frames)))
    (hclosing : ∀ frames rest, step .afterValue (frame :: frames) closing rest =
      .ok (close frames))
    (hends : ∀ rest, EndsNumber (closing :: rest))
    (hitems : ∀ item ∈ items, PassesFrom first frame item ∧ PassesFrom next frame item)
    {inside : List Char} (hinside : Separated items inside) (frames : List Frame)
    (rest : List Char) :
    follow first (frame :: frames) (inside ++ closing :: rest) = behind frames rest := by
  cases hinside with
  | none hblanks =>
      rw [follow_blank hblanks (by rcases List.mem_pair.mp hfirst with rfl | rfl <;> decide)]
      exact follow_close (hempty frames rest)
  | some item others =>
      have hends' := endsNumber_following others (hends rest)
      rw [List.append_assoc, (hitems item (by simp)).1 frames _ hends']
      exact follow_following hcomma hclosing hends
        (fun other hmem => (hitems other (by simp [hmem])).2) frames rest

end

theorem passesFrom_value {item : Padded} (hvalue : Passes item.core) (frame : Frame) :
    PassesFrom .value frame item.text := by
  intro frames rest hrest
  rw [Padded.text, List.append_assoc, List.append_assoc,
    follow_blank item.blank_before (by decide),
    hvalue _ _ (endsNumber_append item.blank_behind hrest)]
  exact follow_blank item.blank_behind (by decide) (frame :: frames) rest

theorem passesFrom_firstElement {item : Padded} (hvalue : Passes item.core)
    (hstart : StartsElement item.core) (frame : Frame) :
    PassesFrom .firstElement frame item.text := by
  intro frames rest hrest
  have hpasses := passesFrom_value hvalue frame frames rest hrest
  rw [Padded.text, List.append_assoc, follow_blank item.blank_before (by decide)] at hpasses ⊢
  rw [← hpasses]
  -- Behind the blanks the two places take the first character of a value alike.
  obtain ⟨character, others, hcore, hblank, hbracket⟩ := hstart
  rw [hcore, List.append_assoc, List.cons_append, follow, follow]
  simp [step, hblank, hbracket]

theorem passesFrom_key {member : MemberText} {body : List Char} (hbody : IsBody body)
    (hkey : member.key.core = quoted body) (hvalue : Passes member.value.core) {place : Place}
    (hplace : place ∈ [.firstKey, .key]) (frame : Frame) :
    PassesFrom place frame member.text := by
  intro frames rest hrest
  have hquote : ∀ rest, step place (frame :: frames) '"' rest =
      .ok (.go (.text true) (frame :: frames)) := by
    intro rest
    rcases List.mem_pair.mp hplace with rfl | rfl <;> rfl
  have hblank : place ∈ [.value, .firstElement, .afterValue, .firstKey, .key, .colon] := by
    rcases List.mem_pair.mp hplace with rfl | rfl <;> decide
  rw [MemberText.text, Padded.text, hkey]
  simp only [List.append_assoc]
  rw [follow_blank member.key.blank_before hblank, quoted_append, follow_go (hquote _),
    follow_body hbody]
  refine (follow_blank member.key.blank_behind (by decide) _ _).trans ((follow_go rfl).trans ?_)
  exact passesFrom_value hvalue frame frames rest hrest

theorem endsNumber_bracket (rest : List Char) : EndsNumber (']' :: rest) :=
  endsNumber_cons (by decide) rest

theorem passes_list {items : List Padded} {inside : List Char}
    (hinside : Separated (items.map Padded.text) inside)
    (hitems : ∀ item ∈ items, Passes item.core ∧ StartsElement item.core) :
    Passes ('[' :: (inside ++ [']'])) := by
  intro frames rest _
  have hall : ∀ text ∈ items.map Padded.text,
      PassesFrom .firstElement .list text ∧ PassesFrom .value .list text := by
    intro text hmem
    obtain ⟨item, hitem, rfl⟩ := List.mem_map.mp hmem
    obtain ⟨hvalue, hstart⟩ := hitems item hitem
    exact ⟨passesFrom_firstElement hvalue hstart .list, passesFrom_value hvalue .list⟩
  rw [List.cons_append, List.append_assoc]
  exact (follow_go rfl).trans (follow_separated (by decide) (fun _ _ => rfl) (fun _ _ => rfl)
    (fun _ _ => rfl) endsNumber_bracket hall hinside frames rest)

theorem passes_object {members : List MemberText} {inside : List Char}
    (hinside : Separated (members.map MemberText.text) inside)
    (hkeys : ∀ member ∈ members, ∃ body, IsBody body ∧ member.key.core = quoted body)
    (hvalues : ∀ member ∈ members, Passes member.value.core) :
    Passes ('\x7b' :: (inside ++ ['\x7d'])) := by
  intro frames rest _
  have hall : ∀ text ∈ members.map MemberText.text,
      PassesFrom .firstKey .object text ∧ PassesFrom .key .object text := by
    intro text hmem
    obtain ⟨member, hmember, rfl⟩ := List.mem_map.mp hmem
    obtain ⟨body, hbody, hkey⟩ := hkeys member hmember
    have hvalue := hvalues member hmember
    exact ⟨passesFrom_key hbody hkey hvalue (by decide) .object,
      passesFrom_key hbody hkey hvalue (by decide) .object⟩
  rw [List.cons_append, List.append_assoc]
  exact (follow_go rfl).trans (follow_separated (by decide) (fun _ _ => rfl) (fun _ _ => rfl)
    (fun _ _ => rfl) endsNumber_brace hall hinside frames rest)

theorem startsElement_of_numberForm {negative : Bool} {decimal : Decimal} {text : List Char}
    (hnumber : NumberForm negative decimal text) : StartsElement text := by
  cases hnumber with
  | @mk whole fraction pointed tail power hwhole =>
      cases negative with
      | true => exact ⟨_, _, rfl, by decide, by decide⟩
      | false =>
          obtain ⟨first, others, hcons, hfirst⟩ := hwhole.startsNumber (pointed ++ tail)
          exact ⟨first, others, hcons,
            isBlank_of_startsNumber (startsNumber_of_isDigit hfirst), ne_of_isDigit hfirst rfl⟩

theorem startsElement_of_isValue {text : List Char} (hvalue : IsValue text) :
    StartsElement text := by
  cases hvalue with
  | word hword =>
      simp only [words, List.mem_cons, List.not_mem_nil, or_false] at hword
      rcases hword with rfl | rfl | rfl <;> exact ⟨_, _, rfl, by decide, by decide⟩
  | number hnumber =>
      exact startsElement_of_numberForm hnumber
  | text hbody => exact ⟨_, _, rfl, by decide, by decide⟩
  | list hinside hitems => exact ⟨_, _, rfl, by decide, by decide⟩
  | object hinside hkeys hvalues => exact ⟨_, _, rfl, by decide, by decide⟩

/-- Every value of the grammar is passed over up to its end. -/
theorem passes_of_isValue {text : List Char} (hvalue : IsValue text) : Passes text := by
  induction hvalue with
  | word hword => exact passes_word hword
  | number hnumber => exact passes_number hnumber
  | text hbody => exact passes_text hbody
  | list hinside hitems ih =>
      exact passes_list hinside fun item hmem =>
        ⟨ih item hmem, startsElement_of_isValue (hitems item hmem)⟩
  | object hinside hkeys _ ih => exact passes_object hinside hkeys ih

theorem skipValue_of_isValue {blanks text rest : List Char} (hblanks : Blank blanks)
    (hvalue : IsValue text) (hrest : EndsNumber rest) :
    skipValue (blanks ++ (text ++ rest)) = .ok rest := by
  rw [skipValue, follow_blank hblanks (by decide)]
  exact passes_of_isValue hvalue [] rest hrest

end Apportion.Proofs.Json.PassedValues
