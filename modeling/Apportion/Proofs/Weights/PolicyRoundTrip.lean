import Mathlib
import Apportion.Weights.PolicyFile
import Apportion.Proofs.Bytes
import Apportion.Proofs.Json.WrittenCollections
import Apportion.Proofs.Json.WrittenDoubles
import Apportion.Proofs.Number.Doubles
import Apportion.Proofs.Weights.ProcessingSteps

namespace Apportion.Proofs.Weights.PolicyRoundTrip

open Apportion.Bytes
open Apportion.Json.Faults
open Apportion.Json.Scalars
open Apportion.Json.Readers
open Apportion.Json.Writing
open Apportion.Weights.Policies
open Apportion.Weights.PolicyDocument
open Apportion.Weights.PolicyFile
open Apportion.Proofs.Outcomes
open Apportion.Proofs.Bytes
open Apportion.Proofs.Json.WrittenNumbers
open Apportion.Proofs.Json.WrittenTexts
open Apportion.Proofs.Json.WrittenCollections
open Apportion.Proofs.Json.WrittenDoubles
open Apportion.Proofs.Number.Doubles
open Apportion.Proofs.Number.ReadDecimals
open Apportion.Proofs.Weights.ProcessingSteps

def lineBreak (isFirst : Bool) : List Char :=
  if isFirst then ['\n'] else [',', '\n']

def lineText (name : String) (value : List Char) : List Char :=
  ' ' :: ' ' :: ((writeText name).toList ++ ':' :: ' ' :: value)

section

variable {σ : Type} {readMember : σ → String → Reader σ}

theorem nextKey_line (isFirst : Bool) (name : String) (value rest : List Char) :
    nextKey isFirst (lineBreak isFirst ++ (lineText name value ++ rest)) =
      .ok (some name, ':' :: ' ' :: (value ++ rest)) := by
  have hread := readText_written name (':' :: ' ' :: (value ++ rest))
  rw [lineText, toList_writeText]
  simp only [List.cons_append, List.append_assoc, List.nil_append]
  cases isFirst with
  | true =>
      change (readText _).map _ = _
      rw [hread]
      rfl
  | false =>
      change (readText _).map _ = _
      rw [hread]
      rfl

theorem readMembers_line (steps : ℕ) (isFirst : Bool) (state : σ) (name : String)
    (value rest : List Char) :
    readMembers readMember (steps + 1) isFirst state
        (lineBreak isFirst ++ (lineText name value ++ rest)) =
      readMember state name (':' :: ' ' :: (value ++ rest)) >>= fun parts =>
        readMembers readMember steps false parts.1 parts.2 := by
  rw [readMembers, nextKey_line]
  rfl

theorem readMembers_lastLine (steps : ℕ) (state : σ) :
    readMembers readMember (steps + 1) false state ['\n', '\x7d'] = .ok (state, []) := rfl

end

theorem readBelow_toDigits {number bound : ℕ} (hbound : number < bound)
    (hword : number < UInt64.size) (expected : String) {rest : List Char}
    (hrest : EndsNumber rest) :
    readBelow bound expected (Nat.toDigits 10 number ++ rest) = .ok (number, rest) := by
  have hread := readNumber_toDigits hword hrest
  obtain ⟨first, others, hcons, hfirst, -⟩ := toDigits_eq_cons number
  rw [hcons, List.cons_append] at hread
  have hrange : 0 ≤ (number : ℤ) ∧ (number : ℤ) < bound := by omega
  rw [readBelow, hcons, List.cons_append,
    readAnyNumber_cons (startsNumber_of_isDigit hfirst), hread, ok_bind]
  exact if_pos hrange

theorem readCount_written (count : UInt64) {rest : List Char} (hrest : EndsNumber rest) :
    readCount (Nat.toDigits 10 count.toNat ++ rest) = .ok (count, rest) := by
  rw [readCount, readBelow_toDigits count.toNat_lt count.toNat_lt "usize" hrest]
  exact congrArg (fun count => Except.ok (count, rest)) UInt64.ofNat_toNat

theorem readBits_written (bits : UInt8) {rest : List Char} (hrest : EndsNumber rest) :
    readBits (Nat.toDigits 10 bits.toNat ++ rest) = .ok (bits, rest) := by
  have hbits : bits.toNat < UInt8.size := bits.toNat_lt
  rw [readBits, readBelow_toDigits hbits (hbits.trans (by decide)) "u8" hrest]
  exact congrArg (fun bits => Except.ok (bits, rest)) UInt8.ofNat_toNat

def absent : JsonError :=
  .content (.mismatch (.kind .nothing "f64"))

/-- What is read where a double has been written. -/
def readBack (x : Float) : Except JsonError Float :=
  if x.isFinite then .ok x else .error absent

theorem readDouble_written {x : Float} (hrounds : RoundsNearest (writtenDecimal x))
    {rest : List Char} (hrest : EndsNumber rest) :
    readDouble ((writeDouble x).toList ++ rest) = (readBack x).map (·, rest) := by
  cases hfinite : x.isFinite with
  | true =>
      rw [readDouble_writeDouble hfinite hrounds hrest, readBack, if_pos hfinite]
      rfl
  | false =>
      rw [readDouble_writeDouble_of_not_isFinite hfinite, readBack, if_neg (by simp [hfinite])]
      rfl

section

variable {fields : Fields} (text : List Char)

theorem readMember_count (hnone : fields.minimumCount? = none) :
    readMember fields "min_allowed_weights" (':' :: ' ' :: text) =
      (readCount text).map fun parts =>
        ({ fields with minimumCount? := some parts.1 }, parts.2) := by
  rw [readMember, if_pos rfl, hnone]
  change (readCount text >>= _) = _
  cases readCount text <;> rfl

theorem readMember_limit (hnone : fields.limit? = none) :
    readMember fields "max_weight_limit" (':' :: ' ' :: text) =
      (readDouble text).map fun parts => ({ fields with limit? := some parts.1 }, parts.2) := by
  rw [readMember, if_neg (by decide), if_pos rfl, hnone]
  change (readDouble text >>= _) = _
  cases readDouble text <;> rfl

theorem readMember_quantile (hnone : fields.quantile? = none) :
    readMember fields "exclude_quantile" (':' :: ' ' :: text) =
      (readDouble text).map fun parts => ({ fields with quantile? := some parts.1 }, parts.2) := by
  rw [readMember, if_neg (by decide), if_neg (by decide), if_pos rfl, hnone]
  change (readDouble text >>= _) = _
  cases readDouble text <;> rfl

theorem readMember_bits (hnone : fields.emissionBits? = none) :
    readMember fields "max_emission_bits" (':' :: ' ' :: text) =
      (readBits text).map fun parts =>
        ({ fields with emissionBits? := some parts.1 }, parts.2) := by
  rw [readMember, if_neg (by decide), if_neg (by decide), if_neg (by decide), if_pos rfl, hnone]
  change (readBits text >>= _) = _
  cases readBits text <;> rfl

end

def linesText (policy : Policy Float) : List Char :=
  lineBreak true ++ (lineText "min_allowed_weights" (Nat.toDigits 10 policy.minimumCount.toNat) ++
    (lineBreak false ++ (lineText "max_weight_limit" (writeDouble policy.limit).toList ++
      (lineBreak false ++ (lineText "exclude_quantile" (writeDouble policy.quantile).toList ++
        (lineBreak false ++ (lineText "max_emission_bits"
          (Nat.toDigits 10 policy.emissionBits.toNat) ++ ['\n', '\x7d'])))))))

theorem toList_line (name : String)
    (hplain : (writeText name).toList = '"' :: (name.toList ++ ['"'])) (value : String) :
    ("  \"" ++ name ++ "\": " ++ value).toList = lineText name value.toList := by
  rw [lineText, hplain, String.toList_append, String.toList_append, String.toList_append]
  simp only [List.cons_append, List.append_assoc, List.nil_append]
  rfl

theorem toList_toDocument (policy : Policy Float) :
    (toDocument policy).toList = '\x7b' :: linesText policy := by
  have hcount := toList_line "min_allowed_weights"
    (by rw [toList_writeText]; rfl) (toString policy.minimumCount.toNat)
  have hlimit := toList_line "max_weight_limit"
    (by rw [toList_writeText]; rfl) (writeDouble policy.limit)
  have hquantile := toList_line "exclude_quantile"
    (by rw [toList_writeText]; rfl) (writeDouble policy.quantile)
  have hbits := toList_line "max_emission_bits"
    (by rw [toList_writeText]; rfl) (toString policy.emissionBits.toNat)
  have hdigits : ∀ number : ℕ, (toString number).toList = Nat.toDigits 10 number :=
    fun number => Nat.toList_repr
  rw [hdigits] at hcount hbits
  rw [toDocument]
  simp only [String.toList_append, String.toList_intercalate, List.map_cons, List.map_nil,
    intercalate_cons, List.flatMap_cons, List.flatMap_nil]
  simp only [String.toList_append] at hcount hlimit hquantile hbits
  rw [hcount, hlimit, hquantile, hbits, linesText]
  simp only [List.append_assoc, List.append_nil]
  rfl

theorem endsNumber_lineBreak (rest : List Char) : EndsNumber (lineBreak false ++ rest) := by
  rintro character ⟨⟩
  decide

theorem endsNumber_lastLine : EndsNumber ['\n', '\x7d'] := by
  rintro character ⟨⟩
  decide

def allFields (policy : Policy Float) : Fields :=
  ⟨some policy.minimumCount, some policy.limit, some policy.quantile, some policy.emissionBits⟩

/-- The reader of numbers rounds the decimals that the doubles of a policy are written as to the
doubles nearest to them. -/
structure ReadNearest (policy : Policy Float) : Prop where
  limit : RoundsNearest (writtenDecimal policy.limit)
  quantile : RoundsNearest (writtenDecimal policy.quantile)

variable {policy : Policy Float}

theorem readNearest_of_short (hlimit : Short (writtenDecimal policy.limit))
    (hquantile : Short (writtenDecimal policy.quantile)) : ReadNearest policy :=
  ⟨hlimit.roundsNearest, hquantile.roundsNearest⟩

theorem readMembers_written (steps : ℕ) (hreader : ReadNearest policy) :
    readMembers readMember (steps + 5) true Fields.none (linesText policy) =
      readBack policy.limit >>= fun limit =>
        readBack policy.quantile >>= fun quantile =>
          .ok (allFields { policy with limit := limit, quantile := quantile }, []) := by
  rw [linesText, readMembers_line, readMember_count _ rfl,
    readCount_written policy.minimumCount (endsNumber_lineBreak _)]
  simp only [Except.map, ok_bind]
  rw [readMembers_line, readMember_limit _ rfl,
    readDouble_written hreader.limit (endsNumber_lineBreak _)]
  cases readBack policy.limit with
  | error cause => rfl
  | ok limit =>
      simp only [Except.map, ok_bind]
      rw [readMembers_line, readMember_quantile _ rfl,
        readDouble_written hreader.quantile (endsNumber_lineBreak _)]
      cases readBack policy.quantile with
      | error cause => rfl
      | ok quantile =>
          simp only [Except.map, ok_bind]
          rw [readMembers_line, readMember_bits _ rfl,
            readBits_written policy.emissionBits endsNumber_lastLine]
          simp only [Except.map, ok_bind]
          rw [readMembers_lastLine]
          rfl

theorem readFields_written (hreader : ReadNearest policy) :
    readFields (toDocument policy).toList =
      readBack policy.limit >>= fun limit =>
        readBack policy.quantile >>= fun quantile =>
          .ok (allFields { policy with limit := limit, quantile := quantile }, []) := by
  have hlength : 4 ≤ (linesText policy).length := by
    simp only [linesText, lineText, List.length_append, List.length_cons]
    omega
  obtain ⟨steps, hsteps⟩ := Nat.exists_eq_add_of_le hlength
  have hmembers := readMembers_written steps hreader
  rw [toList_toDocument, readFields, readRecord_object, readObject, hsteps]
  rwa [show 4 + steps + 1 = steps + 5 by omega]

theorem readBack_eq_ok_iff {x y : Float} : readBack x = .ok y ↔ x.isFinite = true ∧ x = y := by
  unfold readBack
  split <;> simp_all

theorem ofDocument_of_isFinite (hreader : ReadNearest policy)
    (hlimit : policy.limit.isFinite = true) (hquantile : policy.quantile.isFinite = true) :
    ofDocument (toDocument policy) =
      policy.validate.mapError .policy >>= fun _ => .ok policy := by
  have hfields := readFields_written hreader
  rw [readBack_eq_ok_iff.mpr ⟨hlimit, rfl⟩, readBack_eq_ok_iff.mpr ⟨hquantile, rfl⟩, ok_bind,
    ok_bind] at hfields
  rw [ofDocument, readDocument, hfields]
  rfl

theorem ofDocument_of_not_isFinite (hreader : ReadNearest policy)
    (hinfinite : policy.limit.isFinite = false ∨ policy.quantile.isFinite = false) :
    ofDocument (toDocument policy) = .error (.json absent) := by
  have hfields : readFields (toDocument policy).toList = .error absent := by
    rw [readFields_written hreader]
    cases hlimit : policy.limit.isFinite with
    | false =>
        rw [readBack, hlimit]
        rfl
    | true =>
        have hquantile := hinfinite.resolve_left (by simp [hlimit])
        rw [readBack, hlimit, readBack, hquantile]
        rfl
  rw [ofDocument, readDocument, hfields]
  rfl

/-- What has been read where a policy was written: the policy itself exactly if it is usable, and
never another one; else why it is not, or that a double is absent. -/
structure ReadsBack (policy : Policy Float) (outcome : Except FileError (Policy Float)) : Prop where
  valid : outcome = .ok policy ↔ policy.validate = .ok ()
  same : ∀ other, outcome = .ok other → other = policy
  invalid : policy.limit.isFinite = true → policy.quantile.isFinite = true →
    ∀ fault, policy.validate = .error fault → outcome = .error (.policy fault)
  absent : policy.limit.isFinite = false ∨ policy.quantile.isFinite = false →
    outcome = .error (.json absent)

theorem isFinite_of_usable (husable : Usable policy) :
    policy.limit.isFinite = true ∧ policy.quantile.isFinite = true := by
  have hlimit := within_zero_one_iff.mpr ⟨le_of_double_lt husable.limit_pos, husable.limit_le⟩
  have hquantile := within_zero_one_iff.mpr ⟨husable.quantile_nonneg, husable.quantile_le⟩
  exact ⟨hlimit.isFinite, hquantile.isFinite⟩

theorem text_of_write {place : Place} {text : String}
    (hwrite : write place policy = .ok text) : text = toDocument policy := by
  cases place with
  | vacant => exact (Except.ok.inj hwrite).symm
  | underFile => cases hwrite
  | directory => cases hwrite
  | unnamed => cases hwrite

theorem read_ofText (text : String) :
    Weights.PolicyFile.read (some (ofText text)) =
      match ofDocument text with
      | .ok policy => .ok policy
      | .error (.json cause) => .error (.json cause)
      | .error (.policy cause) => .error (.policy cause) := by
  unfold Weights.PolicyFile.read
  simp only [text?_ofText]
  cases ofDocument text with
  | ok policy => rfl
  | error cause => cases cause <;> rfl

theorem readsBack_of_isFinite (hreader : ReadNearest policy)
    (hlimit : policy.limit.isFinite = true) (hquantile : policy.quantile.isFinite = true) :
    ReadsBack policy (Weights.PolicyFile.read (some (ofText (toDocument policy)))) := by
  rw [read_ofText, ofDocument_of_isFinite hreader hlimit hquantile]
  have hpresent : ¬(policy.limit.isFinite = false ∨ policy.quantile.isFinite = false) := by
    simp [hlimit, hquantile]
  cases hvalidate : policy.validate with
  | ok checked =>
      refine ⟨iff_of_true rfl hvalidate, ?_, ?_, fun habsent => absurd habsent hpresent⟩
      · rintro other ⟨⟩
        rfl
      · intro _ _ fault hfault
        rw [hvalidate] at hfault
        cases hfault
  | error fault =>
      refine ⟨iff_of_false ?_ ?_, ?_, ?_, fun habsent => absurd habsent hpresent⟩
      · rintro ⟨⟩
      · rw [hvalidate]
        rintro ⟨⟩
      · rintro other ⟨⟩
      · intro _ _ other hother
        rw [hvalidate] at hother
        cases hother
        rfl

theorem readsBack_of_not_isFinite (hreader : ReadNearest policy)
    (hinfinite : policy.limit.isFinite = false ∨ policy.quantile.isFinite = false) :
    ReadsBack policy (Weights.PolicyFile.read (some (ofText (toDocument policy)))) := by
  have hunusable : policy.validate ≠ .ok () := by
    intro hvalid
    have hfinite := isFinite_of_usable (fault_eq_none_iff.mp (validate_eq_ok_iff.mp hvalid))
    simp [hfinite] at hinfinite
  rw [read_ofText, ofDocument_of_not_isFinite hreader hinfinite]
  refine ⟨iff_of_false ?_ hunusable, ?_, ?_, fun _ => rfl⟩
  · rintro ⟨⟩
  · rintro other ⟨⟩
  · intro hlimit hquantile
    simp [hlimit, hquantile] at hinfinite

/-- A policy is read back from the file that it was written to, if it can be read at all. -/
theorem readsBack_of_write {place : Place} {text : String}
    (hwrite : write place policy = .ok text) (hreader : ReadNearest policy) :
    ReadsBack policy (Weights.PolicyFile.read (some (ofText text))) := by
  rw [text_of_write hwrite]
  by_cases hfinite : policy.limit.isFinite = true ∧ policy.quantile.isFinite = true
  · exact readsBack_of_isFinite hreader hfinite.1 hfinite.2
  · refine readsBack_of_not_isFinite hreader ?_
    rw [not_and_or, Bool.not_eq_true, Bool.not_eq_true] at hfinite
    exact hfinite

/-- A count that no double holds, the least positive double and minus zero. -/
def awkward : Policy Float :=
  ⟨18446744073709551615, 5e-324, -0.0, 32⟩

theorem readsBack_of_write_awkward :
    write .vacant awkward = .ok (toDocument awkward) ∧
      Weights.PolicyFile.read (some (ofText (toDocument awkward))) = .ok awkward := by
  have hwrite : write .vacant awkward = .ok (toDocument awkward) := rfl
  have hvalid : awkward.validate = .ok () := by decide +kernel
  have hreader : ReadNearest awkward := ⟨by decide +kernel, by decide +kernel⟩
  exact ⟨hwrite, (readsBack_of_write hwrite hreader).valid.mpr hvalid⟩

end Apportion.Proofs.Weights.PolicyRoundTrip
