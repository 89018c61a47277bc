import Mathlib
import Apportion.Proofs.Json.PassedValues
import Apportion.Proofs.Weights.PolicyRoundTrip

namespace Apportion.Proofs.Weights.PartialPolicies

open Apportion.Bytes
open Apportion.Number.DecimalReading
open Apportion.Json.Faults
open Apportion.Json.Scalars
open Apportion.Json.Readers
open Apportion.Weights.Policies
open Apportion.Weights.PolicyDocument
open Apportion.Weights.PolicyFile
open Apportion.Proofs.Outcomes
open Apportion.Proofs.Json.WrittenNumbers
open Apportion.Proofs.Json.WrittenCollections
open Apportion.Proofs.Json.SpacedTexts
open Apportion.Proofs.Json.NumberTexts
open Apportion.Proofs.Json.PassedValues
open Apportion.Proofs.Weights.PolicyRoundTrip

inductive Given where
  | minimumCount (value : UInt64)
  | limit (value : Float)
  | quantile (value : Float)
  | emissionBits (value : UInt8)
  | nothing

namespace Given

def field? : Given → Option String
  | .minimumCount _ => some "min_allowed_weights"
  | .limit _ => some "max_weight_limit"
  | .quantile _ => some "exclude_quantile"
  | .emissionBits _ => some "max_emission_bits"
  | .nothing => none

def replace (policy : Policy Float) : Given → Policy Float
  | .minimumCount value => { policy with minimumCount := value }
  | .limit value => { policy with limit := value }
  | .quantile value => { policy with quantile := value }
  | .emissionBits value => { policy with emissionBits := value }
  | .nothing => policy

def record (fields : Fields) : Given → Fields
  | .minimumCount value => { fields with minimumCount? := some value }
  | .limit value => { fields with limit? := some value }
  | .quantile value => { fields with quantile? := some value }
  | .emissionBits value => { fields with emissionBits? := some value }
  | .nothing => fields

def heldBy (fields : Fields) : Given → Bool
  | .minimumCount _ => fields.minimumCount?.isSome
  | .limit _ => fields.limit?.isSome
  | .quantile _ => fields.quantile?.isSome
  | .emissionBits _ => fields.emissionBits?.isSome
  | .nothing => false

end Given

def fieldNames : List String :=
  ["min_allowed_weights", "max_weight_limit", "exclude_quantile", "max_emission_bits"]

/-- The name and the value of a member that gives this: a number that its field admits or, under
another name, any value at all. -/
inductive GivenForm : Given → String → List Char → Prop
  | minimumCount {value : UInt64} {text : List Char} (hform : NaturalForm value.toNat text) :
      GivenForm (.minimumCount value) "min_allowed_weights" text
  | limit {value : Float} {text : List Char} (hform : DoubleForm value text) :
      GivenForm (.limit value) "max_weight_limit" text
  | quantile {value : Float} {text : List Char} (hform : DoubleForm value text) :
      GivenForm (.quantile value) "exclude_quantile" text
  | emissionBits {value : UInt8} {text : List Char} (hform : NaturalForm value.toNat text) :
      GivenForm (.emissionBits value) "max_emission_bits" text
  | nothing {name : String} {text : List Char} (hname : name ∉ fieldNames)
      (hvalue : IsValue text) : GivenForm .nothing name text

def MemberForm (given : Given) (member : MemberText) : Prop :=
  ∃ name, TextForm name member.key.core ∧ GivenForm given name member.value.core

/-- The text is an object whose members give these, in their order. -/
inductive DocumentForm (givens : List Given) : List Char → Prop
  | mk {before inside behind : List Char} {members : List MemberText} (hbefore : Blank before)
      (hmembers : List.Forall₂ MemberForm givens members)
      (hinside : Separated (members.map MemberText.text) inside) (hbehind : Blank behind) :
      DocumentForm givens (before ++ '\x7b' :: (inside ++ '\x7d' :: behind))

/-- Behind members that give these, the text goes on with a key of this name and with anything. -/
inductive GoesOn (givens : List Given) (name : String) : List Char → Prop
  | mk {before inside key rest : List Char} {padding : List Char} {members : List MemberText}
      (hbefore : Blank before) (hmembers : List.Forall₂ MemberForm givens members)
      (hinside : Separated (members.map MemberText.text) inside) (hpadding : Blank padding)
      (hkey : TextForm name key) :
      GoesOn givens name (before ++ '\x7b' :: (inside ++ ',' :: (padding ++ (key ++ rest))))

def givenFields (givens : List Given) : List String :=
  givens.filterMap Given.field?

def Distinct (givens : List Given) : Prop :=
  (givenFields givens).Nodup

instance (givens : List Given) : Decidable (Distinct givens) :=
  inferInstanceAs (Decidable (List.Nodup _))

/-- The standard policy with the given fields in place of its own. -/
def replaced (givens : List Given) : Policy Float :=
  givens.foldl Given.replace standardPolicy

def give (fields : Fields) (given : Given) : Except JsonError Fields :=
  match given.field? with
  | none => .ok fields
  | some name =>
      if given.heldBy fields then .error (.content (.duplicateField name))
      else .ok (given.record fields)

theorem skipColon_spaced {blanks : List Char} (hblanks : Blank blanks) (rest : List Char) :
    skipColon (blanks ++ ':' :: rest) = .ok rest := by
  rw [skipColon, skipBlanks_append hblanks, skipBlanks_cons (by decide)]
  rfl

theorem readField_spaced {α : Type} {name : String} {before : Option α} {read : Reader α}
    {value : α} {blanks text rest : List Char} (hblanks : Blank blanks)
    (hread : read text = .ok (value, rest)) (next : α → Fields) :
    (readField name before read (blanks ++ ':' :: text) >>= fun parts =>
        .ok (next parts.1, parts.2)) =
      (if before.isSome then .error (.content (.duplicateField name))
        else .ok (next value) : Except JsonError Fields).map (·, rest) := by
  rw [readField]
  cases before with
  | some other => rfl
  | none =>
      simp only [Option.isSome_none, Bool.false_eq_true, if_false, ok_bind,
        skipColon_spaced hblanks, hread]
      rfl

theorem readCount_form {value : UInt64} {blanks text rest : List Char} (hblanks : Blank blanks)
    (hform : NaturalForm value.toNat text) (hrest : EndsNumber rest) :
    readCount (blanks ++ (text ++ rest)) = .ok (value, rest) := by
  rw [readCount, readBelow_form value.toNat_lt value.toNat_lt hblanks hform hrest]
  exact congrArg (fun count => Except.ok (count, rest)) UInt64.ofNat_toNat

theorem readBits_form {value : UInt8} {blanks text rest : List Char} (hblanks : Blank blanks)
    (hform : NaturalForm value.toNat text) (hrest : EndsNumber rest) :
    readBits (blanks ++ (text ++ rest)) = .ok (value, rest) := by
  have hvalue : value.toNat < UInt8.size := value.toNat_lt
  rw [readBits, readBelow_form hvalue (hvalue.trans (by decide)) hblanks hform hrest]
  exact congrArg (fun bits => Except.ok (bits, rest)) UInt8.ofNat_toNat

theorem memberReads_of_memberForm {given : Given} {member : MemberText}
    (hmember : MemberForm given member) : MemberReads readMember (give · given) member := by
  obtain ⟨name, hkey, hgiven⟩ := hmember
  refine ⟨name, hkey, fun fields rest hrest => ?_⟩
  have hblanks := member.key.blank_behind
  have hbefore := member.value.blank_before
  generalize member.value.core = text at hgiven ⊢
  cases hgiven with
  | minimumCount hform =>
      rw [readMember, if_pos rfl]
      exact readField_spaced hblanks (readCount_form hbefore hform hrest)
        fun value => { fields with minimumCount? := some value }
  | limit hform =>
      rw [readMember, if_neg (by decide), if_pos rfl]
      exact readField_spaced hblanks (readDouble_form hbefore hform hrest)
        fun value => { fields with limit? := some value }
  | quantile hform =>
      rw [readMember, if_neg (by decide), if_neg (by decide), if_pos rfl]
      exact readField_spaced hblanks (readDouble_form hbefore hform hrest)
        fun value => { fields with quantile? := some value }
  | emissionBits hform =>
      rw [readMember, if_neg (by decide), if_neg (by decide), if_neg (by decide), if_pos rfl]
      exact readField_spaced hblanks (readBits_form hbefore hform hrest)
        fun value => { fields with emissionBits? := some value }
  | nothing hname hvalue =>
      simp only [fieldNames, List.mem_cons, List.not_mem_nil, or_false, not_or] at hname
      obtain ⟨hcount, hlimit, hquantile, hbits⟩ := hname
      have hskip : skipMember (member.key.behind ++ ':' ::
          (member.value.before ++ (text ++ rest))) = .ok rest := by
        rw [skipMember, skipColon_spaced hblanks, ok_bind]
        exact skipValue_of_isValue hbefore hvalue hrest
      rw [readMember, if_neg hcount, if_neg hlimit, if_neg hquantile, if_neg hbits, hskip]
      rfl

theorem readMember_heldBy {fields : Fields} {given : Given} {name : String}
    (hfield : given.field? = some name) (hheld : given.heldBy fields = true) (text : List Char) :
    readMember fields name text = .error (.content (.duplicateField name)) := by
  have hagain : ∀ {α : Type} {before : Option α} (read : Reader α), before.isSome = true →
      readField name before read text = .error (.content (.duplicateField name)) := by
    intro α before read hbefore
    rw [readField, if_pos hbefore]
    rfl
  cases given with
  | minimumCount value =>
      cases hfield
      rw [readMember, if_pos rfl, hagain readCount hheld]
      rfl
  | limit value =>
      cases hfield
      rw [readMember, if_neg (by decide), if_pos rfl, hagain readDouble hheld]
      rfl
  | quantile value =>
      cases hfield
      rw [readMember, if_neg (by decide), if_neg (by decide), if_pos rfl, hagain readDouble hheld]
      rfl
  | emissionBits value =>
      cases hfield
      rw [readMember, if_neg (by decide), if_neg (by decide), if_neg (by decide), if_pos rfl,
        hagain readBits hheld]
      rfl
  | nothing => cases hfield

/-- The fields that members have given, if none of them twice. -/
def recorded (givens : List Given) : Fields :=
  givens.foldl Given.record Fields.none

theorem givenFields_concat (givens : List Given) (given : Given) :
    givenFields (givens ++ [given]) = givenFields givens ++ given.field?.toList := by
  rw [givenFields, List.filterMap_append, givenFields]
  cases given <;> rfl

theorem recorded_concat (givens : List Given) (given : Given) :
    recorded (givens ++ [given]) = given.record (recorded givens) := by
  rw [recorded, List.foldl_append]
  rfl

theorem heldBy_record (fields : Fields) (given other : Given) :
    other.heldBy (given.record fields) =
      (other.heldBy fields || (other.field?.isSome && other.field? == given.field?)) := by
  cases given <;> cases other <;> simp [Given.heldBy, Given.record, Given.field?]

theorem heldBy_recorded {given : Given} {name : String} (hfield : given.field? = some name)
    (givens : List Given) :
    given.heldBy (recorded givens) = true ↔ name ∈ givenFields givens := by
  induction givens using List.reverseRecOn with
  | nil => cases given <;> simp [Given.heldBy, recorded, Fields.none, givenFields]
  | append_singleton givens last ih =>
      rw [recorded_concat, heldBy_record, givenFields_concat, Bool.or_eq_true, ih, List.mem_append,
        hfield]
      cases last.field? <;> simp

theorem distinct_concat {givens : List Given} {given : Given} {name : String}
    (hfield : given.field? = some name) :
    Distinct (givens ++ [given]) ↔ Distinct givens ∧ name ∉ givenFields givens := by
  rw [Distinct, givenFields_concat, hfield, Option.toList_some, ← List.concat_eq_append,
    List.nodup_concat, and_comm]
  rfl

structure ReadsFields (givens : List Given) (outcome : Except JsonError Fields) : Prop where
  distinct : Distinct givens → outcome = .ok (recorded givens)
  repeated : ¬Distinct givens → ∃ name, 2 ≤ (givenFields givens).count name ∧
    outcome = .error (.content (.duplicateField name))

theorem readsFields_concat {givens : List Given} (given : Given) {outcome : Except JsonError Fields}
    (hread : ReadsFields givens outcome) :
    ReadsFields (givens ++ [given]) (outcome >>= fun fields => give fields given) := by
  cases hfield : given.field? with
  | none =>
      have hgive : (fun fields => give fields given) = Except.ok := by
        funext fields
        rw [give, hfield]
      have hrecord : recorded (givens ++ [given]) = recorded givens := by
        rw [recorded_concat]
        cases given <;> first | rfl | cases hfield
      have hnames : givenFields (givens ++ [given]) = givenFields givens := by
        rw [givenFields_concat, hfield, Option.toList_none, List.append_nil]
      have hsame : (outcome >>= fun fields => give fields given) = outcome := by
        rw [hgive]
        cases outcome <;> rfl
      rw [hsame]
      constructor
      · rw [Distinct, hnames, hrecord]
        exact hread.distinct
      · rw [Distinct, hnames]
        exact hread.repeated
  | some name =>
      have hcount : ∀ other, (givenFields givens).count other ≤
          (givenFields (givens ++ [given])).count other := by
        intro other
        rw [givenFields_concat, List.count_append]
        omega
      by_cases hdistinct : Distinct givens
      · have hheld := heldBy_recorded hfield givens
        rw [hread.distinct hdistinct, ok_bind, give, hfield]
        constructor
        · intro hall
          have hnew := ((distinct_concat hfield).mp hall).2
          simp [recorded_concat, hheld, hnew]
        · intro hagain
          have hmem : name ∈ givenFields givens := by
            by_contra hnew
            exact hagain ((distinct_concat hfield).mpr ⟨hdistinct, hnew⟩)
          refine ⟨name, ?_, by simp [hheld, hmem]⟩
          have hone := List.one_le_count_iff.mpr hmem
          rw [givenFields_concat, hfield, List.count_append]
          simpa using hone
      · -- The first name that came again has ended the reading.
        obtain ⟨other, hother, houtcome⟩ := hread.repeated hdistinct
        rw [houtcome, error_bind]
        exact ⟨fun hall => absurd ((distinct_concat hfield).mp hall).1 hdistinct,
          fun _ => ⟨other, hother.trans (hcount other), rfl⟩⟩

theorem readsFields_foldlM (givens : List Given) :
    ReadsFields givens (givens.foldlM give Fields.none) := by
  -- From the end: what is held is known once all members before have been read.
  induction givens using List.reverseRecOn with
  | nil => exact ⟨fun _ => rfl, fun hagain => absurd List.nodup_nil hagain⟩
  | append_singleton givens given ih =>
      rw [List.foldlM_append]
      have hlast : ∀ fields, [given].foldlM give fields = give fields given := by
        intro fields
        rw [List.foldlM_cons]
        cases give fields given <;> rfl
      simp only [hlast]
      exact readsFields_concat given ih

theorem policy_recorded (givens : List Given) : (recorded givens).policy = replaced givens := by
  have hstep : ∀ (fields : Fields) (given : Given),
      given.replace fields.policy = (given.record fields).policy := by
    intro fields given
    cases given <;> rfl
  exact (List.foldl_hom Fields.policy (fun fields given => hstep fields given)).symm

theorem readFields_brace {before : List Char} (hbefore : Blank before) (rest : List Char) :
    readFields (before ++ '\x7b' :: rest) = readObject readMember Fields.none rest := by
  rw [readFields, readRecord, firstCharacter_append hbefore]
  rfl

theorem memberReads_of_memberForms {givens : List Given} {members : List MemberText}
    (hmembers : List.Forall₂ MemberForm givens members) :
    List.Forall₂ (fun given => MemberReads readMember (give · given)) givens members :=
  hmembers.imp fun _ _ => memberReads_of_memberForm

theorem readDocument_form {givens : List Given} {text : String}
    (hform : DocumentForm givens text.toList) :
    readDocument readFields text = givens.foldlM give Fields.none := by
  rw [readDocument]
  generalize text.toList = characters at hform
  cases hform with
  | @mk before inside behind members hbefore hmembers hinside hbehind =>
      have hend : (skipBlanks behind).isEmpty = true := by
        have hskip := skipBlanks_append hbehind []
        rw [List.append_nil] at hskip
        rw [hskip]
        rfl
      rw [readFields_brace hbefore,
        readObject_separated (memberReads_of_memberForms hmembers) hinside]
      cases givens.foldlM give Fields.none with
      | error cause => rfl
      | ok fields => exact if_pos hend

theorem readDocument_goesOn {givens : List Given} {name : String} {text : String}
    (hdistinct : Distinct givens) (hname : name ∈ givenFields givens)
    (hgoes : GoesOn givens name text.toList) :
    readDocument readFields text = .error (.content (.duplicateField name)) := by
  obtain ⟨given, hgiven, hfield⟩ := List.mem_filterMap.mp hname
  have hheld := (heldBy_recorded hfield givens).mpr hname
  rw [readDocument]
  generalize text.toList = characters at hgoes
  cases hgoes with
  | @mk before inside key rest padding members hbefore hmembers hinside hpadding hkey =>
      have hsome : members ≠ [] := by
        rintro rfl
        cases hmembers
        cases hgiven
      rw [readFields_brace hbefore, readObject_refused (memberReads_of_memberForms hmembers) hsome
        hinside ((readsFields_foldlM givens).distinct hdistinct) hpadding hkey
        (readMember_heldBy hfield hheld rest)]
      rfl

def isField (given : Given) : Bool :=
  given.field?.isSome

theorem givenFields_filter (givens : List Given) :
    givenFields (givens.filter isField) = givenFields givens := by
  rw [givenFields, List.filterMap_filter, givenFields]
  congr 1
  funext given
  cases given <;> rfl

theorem replaced_filter (givens : List Given) :
    replaced (givens.filter isField) = replaced givens := by
  rw [replaced, List.foldl_filter, replaced]
  congr 1
  funext policy given
  cases given <;> rfl

def Commute (one other : Given) : Prop :=
  ∀ policy, (other.replace (one.replace policy)) = one.replace (other.replace policy)

instance : Std.Symm Commute where
  symm _ _ hcommute policy := (hcommute policy).symm

theorem commute_of_distinct {givens : List Given} (hdistinct : Distinct givens) :
    ∀ one ∈ givens, ∀ other ∈ givens, Commute one other := by
  have hpairs : givens.Pairwise Commute := by
    refine (List.pairwise_filterMap.mp hdistinct).imp ?_
    intro one other hdifferent policy
    cases one <;> cases other <;> first | rfl | exact absurd rfl (hdifferent _ rfl _ rfl)
  intro one hone other hother
  exact hpairs.forall_of_forall (fun _ _ _ => rfl) hone hother

/-- Only which fields are given matters, not their order and not the members under other names. -/
theorem replaced_eq_of_perm {givens others : List Given} (hdistinct : Distinct givens)
    (hperm : (others.filter isField).Perm (givens.filter isField)) :
    Distinct others ∧ replaced others = replaced givens := by
  have hnames : (givenFields others).Perm (givenFields givens) := by
    rw [← givenFields_filter others, ← givenFields_filter givens]
    exact hperm.filterMap Given.field?
  have hothers : Distinct others := hnames.nodup_iff.mpr hdistinct
  refine ⟨hothers, ?_⟩
  rw [← replaced_filter others, ← replaced_filter givens]
  refine hperm.foldl_eq' (fun one hone other hother policy => ?_) standardPolicy
  exact commute_of_distinct hothers one (List.mem_of_mem_filter hone) other
    (List.mem_of_mem_filter hother) policy

/-- What comes of a file whose members give these. The outcome is the standard policy with the given
fields in place of its own, or why that is not usable; it is the same for every other file that
gives the same fields. A field that comes again is refused, whatever stands behind its name. -/
structure ReadsGiven (givens : List Given) (outcome : Except FileError (Policy Float)) : Prop where
  valid : Distinct givens → (replaced givens).validate = .ok () → outcome = .ok (replaced givens)
  invalid : Distinct givens → ∀ fault, (replaced givens).validate = .error fault →
    outcome = .error (.policy fault)
  unaffected : Distinct givens → ∀ others, (others.filter isField).Perm (givens.filter isField) →
    ∀ text : String, DocumentForm others text.toList →
      Weights.PolicyFile.read (some (ofText text)) = outcome
  repeated : ¬Distinct givens → ∃ name, 2 ≤ (givenFields givens).count name ∧
    outcome = .error (.json (.content (.duplicateField name)))
  repeating : Distinct givens → ∀ name ∈ givenFields givens, ∀ text : String,
    GoesOn givens name text.toList →
      Weights.PolicyFile.read (some (ofText text)) =
        .error (.json (.content (.duplicateField name)))

theorem read_of_distinct {givens : List Given} {text : String}
    (hform : DocumentForm givens text.toList) (hdistinct : Distinct givens) :
    Weights.PolicyFile.read (some (ofText text)) =
      match (replaced givens).validate with
      | .ok () => .ok (replaced givens)
      | .error fault => .error (.policy fault) := by
  have hfields := (readsFields_foldlM givens).distinct hdistinct
  rw [read_ofText, ofDocument, readDocument_form hform, hfields]
  simp only [mapError_ok, ok_bind, policy_recorded]
  cases (replaced givens).validate <;> rfl

theorem read_of_error {text : String} {cause : JsonError}
    (herror : readDocument readFields text = .error cause) :
    Weights.PolicyFile.read (some (ofText text)) = .error (.json cause) := by
  rw [read_ofText, ofDocument, herror]
  rfl

/-- A file that holds an object of given fields and other members. -/
theorem readsGiven_of_documentForm {givens : List Given} {text : String}
    (hform : DocumentForm givens text.toList) :
    ReadsGiven givens (Weights.PolicyFile.read (some (ofText text))) where
  valid hdistinct hvalid := by
    rw [read_of_distinct hform hdistinct, hvalid]
  invalid hdistinct fault hfault := by
    rw [read_of_distinct hform hdistinct, hfault]
  unaffected hdistinct others hperm text' hform' := by
    obtain ⟨hothers, hsame⟩ := replaced_eq_of_perm hdistinct hperm
    rw [read_of_distinct hform hdistinct, read_of_distinct hform' hothers, hsame]
  repeated hagain := by
    obtain ⟨name, hname, herror⟩ := (readsFields_foldlM givens).repeated hagain
    exact ⟨name, hname, read_of_error ((readDocument_form hform).trans herror)⟩
  repeating hdistinct name hname text' hgoes :=
    read_of_error (readDocument_goesOn hdistinct hname hgoes)

def bare (core : List Char) : Padded :=
  ⟨[], core, [], blank_nil, blank_nil⟩

theorem blank_space : Blank [' '] :=
  List.forall_mem_singleton.mpr rfl

theorem isWhole_digit (digit : Char) (hdigit : digit.isDigit = true) : IsWhole [digit] :=
  ⟨List.forall_mem_singleton.mpr hdigit, digit, [], rfl, fun _ => rfl⟩

/-- The limit, under a key that is spelled with an escape, behind a note that holds its name. -/
def noted : String :=
  "\x7b\"note\": [\x7b\"max_weight_limit\":7\x7d,1e999],\"max\\u005fweight_limit\" :5E-1\x7d\n"

theorem isValue_note : IsValue "[\x7b\"max_weight_limit\":7\x7d,1e999]".toList := by
  have hseven : NumberForm false _ ['7'] := .mk (isWhole_digit '7' rfl) .none .none
  have hlarge : NumberForm false _ ['1', 'e', '9', '9', '9'] :=
    @NumberForm.mk false ['1'] [] [] ['e', '9', '9', '9'] 999 (isWhole_digit '1' rfl) .none
      (@ExponentForm.marked 'e' false [] ['9', '9', '9'] (.inl rfl) .none (by simp) (by simp))
  have hinner : IsValue "\x7b\"max_weight_limit\":7\x7d".toList :=
    @IsValue.object [⟨bare (quoted "max_weight_limit".toList), bare ['7']⟩] _ (.some _ [])
      (List.forall_mem_singleton.mpr ⟨_, isBody_of_plain (by simp), rfl⟩)
      (List.forall_mem_singleton.mpr (.number hseven))
  exact @IsValue.list
    [bare "\x7b\"max_weight_limit\":7\x7d".toList, bare ['1', 'e', '9', '9', '9']] _ (.some _ [_])
    (List.forall_mem_cons.mpr ⟨hinner, List.forall_mem_singleton.mpr (.number hlarge)⟩)

theorem documentForm_noted : DocumentForm [.nothing, .limit 0.5] noted.toList := by
  have hhalf : NumberForm false ((packDigits ['5'] []).shift (-1)) ['5', 'E', '-', '1'] :=
    @NumberForm.mk false ['5'] [] [] ['E', '-', '1'] (-1) (isWhole_digit '5' rfl) .none
      (@ExponentForm.marked 'E' true ['-'] ['1'] (.inr rfl) .minus (by simp) (by simp))
  have hdecimal : doubleOfDecimal? ((packDigits ['5'] []).shift (-1)) = some 0.5 := by
    decide +kernel
  have hlimit : DoubleForm 0.5 ['5', 'E', '-', '1'] := .mk hhalf hdecimal
  have hname : TextForm "note" (quoted "note".toList) :=
    .mk (@spells_of_plain "note".toList _ _ (by simp) .nil)
  have hbody : "max\\u005fweight_limit".toList =
      "max".toList ++ '\\' :: 'u' :: '0' :: '0' :: '5' :: 'f' :: "weight_limit".toList := by
    simp
  have hspelled : "max_weight_limit".toList = "max".toList ++ '_' :: "weight_limit".toList := by
    simp
  have hunit : unit? '0' '0' '5' 'f' = some 95 := by decide
  have hkey : TextForm "max_weight_limit" (quoted "max\\u005fweight_limit".toList) := by
    refine .mk ?_
    rw [hbody, hspelled]
    refine spells_of_plain (by simp) (.unit hunit rfl rfl ?_)
    have hplain := @spells_of_plain "weight_limit".toList [] [] (by simp) .nil
    rwa [List.append_nil] at hplain
  have hmembers : List.Forall₂ MemberForm [.nothing, .limit 0.5]
      [⟨bare (quoted "note".toList),
          ⟨[' '], "[\x7b\"max_weight_limit\":7\x7d,1e999]".toList, [], blank_space, blank_nil⟩⟩,
        ⟨⟨[], quoted "max\\u005fweight_limit".toList, [' '], blank_nil, blank_space⟩,
          bare ['5', 'E', '-', '1']⟩] :=
    .cons ⟨_, hname, .nothing (by decide) isValue_note⟩ (.cons ⟨_, hkey, .limit hlimit⟩ .nil)
  exact @DocumentForm.mk _ [] _ ['\n'] _ blank_nil hmembers (.some _ [_])
    (List.forall_mem_singleton.mpr rfl)

theorem readsGiven_of_documentForm_noted :
    Weights.PolicyFile.read (some (ofText noted)) = .ok { standardPolicy with limit := 0.5 } := by
  have hvalid : (replaced [.nothing, .limit 0.5]).validate = .ok () := by decide +kernel
  exact (readsGiven_of_documentForm documentForm_noted).valid (by decide) hvalid

end Apportion.Proofs.Weights.PartialPolicies
