import Apportion.Envelopes.Document
import Apportion.Proofs.Json.WrittenCollections

namespace Apportion.Proofs.Envelopes.WrittenDocuments

open Apportion.Json.Faults
open Apportion.Json.Scalars
open Apportion.Json.Readers
open Apportion.Json.Values
open Apportion.Json.Writing
open Apportion.Envelopes.Coercion
open Apportion.Envelopes.Packing
open Apportion.Envelopes.Document
open Apportion.Tensor.Elements
open Apportion.Tensor.Shapes
open Apportion.Proofs.Outcomes
open Apportion.Proofs.Json.WrittenTexts
open Apportion.Proofs.Json.WrittenCollections

def documentWith (buffer name shapeText : String) : String :=
  "\x7b\"buffer\":" ++ writeText buffer ++ ",\"dtype\":" ++ writeText name ++ ",\"shape\":" ++
    shapeText ++ "\x7d"

theorem toDocument_eq (envelope : Envelope) :
    toDocument envelope =
      documentWith envelope.buffer envelope.type.name (writeNaturals envelope.shape) := rfl

def membersText (buffer name : String) (shapeText : List Char) : List Char :=
  memberText "buffer" (writeText buffer).toList ++
    ',' :: (memberText "dtype" (writeText name).toList ++
      ',' :: (memberText "shape" shapeText ++ ['\x7d']))

theorem toList_documentWith (buffer name shapeText : String) :
    (documentWith buffer name shapeText).toList =
      '\x7b' :: membersText buffer name shapeText.toList := by
  have hbuffer : "\x7b\"buffer\":".toList = '\x7b' :: ((writeText "buffer").toList ++ [':']) := by
    rw [toList_writeText]
    rfl
  have hname : ",\"dtype\":".toList = ',' :: ((writeText "dtype").toList ++ [':']) := by
    rw [toList_writeText]
    rfl
  have hshape : ",\"shape\":".toList = ',' :: ((writeText "shape").toList ++ [':']) := by
    rw [toList_writeText]
    rfl
  unfold documentWith
  simp only [membersText, memberText, String.toList_append, hbuffer, hname, hshape,
    List.append_assoc, List.cons_append, List.nil_append]
  rfl

theorem readMember_buffer {fields : Fields} (hnone : fields.buffer? = none) (text : String)
    (rest : List Char) :
    readMember fields "buffer" (':' :: ((writeText text).toList ++ rest)) =
      .ok ({ fields with buffer? := some text }, rest) := by
  have hread : readField "buffer" fields.buffer? readBuffer
      (':' :: ((writeText text).toList ++ rest)) = .ok (text, rest) := by
    rw [hnone, readField_first, readBuffer, readString_written]
  rw [readMember, if_pos rfl, hread]
  rfl

theorem readTypeName_written (text : String) (rest : List Char) :
    readTypeName ((writeText text).toList ++ rest) = .ok (some text, rest) := by
  have hread := readString_written "a string" text rest
  rw [toList_writeText, List.cons_append] at hread ⊢
  change (readString "a string" _).map _ = _
  rw [hread]
  rfl

theorem readMember_dtype {fields : Fields} (hnone : fields.type? = none) (text : String)
    (rest : List Char) :
    readMember fields "dtype" (':' :: ((writeText text).toList ++ rest)) =
      .ok ({ fields with type? := some (some text) }, rest) := by
  have hread : readField "dtype" fields.type? readTypeName
      (':' :: ((writeText text).toList ++ rest)) = .ok (some text, rest) := by
    rw [hnone, readField_first, readTypeName_written]
  rw [readMember, if_neg (by decide), if_pos rfl, hread]
  rfl

theorem readMember_shape {fields : Fields} (hnone : fields.shape? = none) (text : List Char) :
    readMember fields "shape" (':' :: text) =
      readShape text >>= fun parts => .ok ({ fields with shape? := some parts.1 }, parts.2) := by
  have hread : readField "shape" fields.shape? readShape (':' :: text) = readShape text := by
    rw [hnone, readField_first]
  rw [readMember, if_neg (by decide), if_neg (by decide), if_pos rfl, hread]
  rfl

theorem readMembers_written (steps : Nat) (buffer name : String) (shapeText : List Char) :
    readMembers readMember (steps + 3) true ⟨none, none, none⟩
        (membersText buffer name shapeText) =
      readShape (shapeText ++ ['\x7d']) >>= fun parts =>
        readMembers readMember steps false ⟨some buffer, some (some name), some parts.1⟩
          parts.2 := by
  rw [membersText, readMembers_first, readMember_buffer rfl, ok_bind, readMembers_comma,
    readMember_dtype rfl, ok_bind, readMembers_comma, readMember_shape rfl]
  cases readShape (shapeText ++ ['\x7d']) with
  | error cause => rfl
  | ok parts => rfl

theorem readObject_written (buffer name : String) (shapeText : List Char) :
    ∃ steps, readObject readMember ⟨none, none, none⟩ (membersText buffer name shapeText) =
      readShape (shapeText ++ ['\x7d']) >>= fun parts =>
        readMembers readMember (steps + 1) false ⟨some buffer, some (some name), some parts.1⟩
          parts.2 := by
  have hlength : 3 ≤ (membersText buffer name shapeText).length := by
    simp only [membersText, List.length_append, List.length_cons, List.length_nil]
    omega
  -- Each of the three members takes a step, and one more is left for the closing brace.
  obtain ⟨steps, hsteps⟩ := Nat.exists_eq_add_of_le hlength
  refine ⟨steps, ?_⟩
  rw [← readMembers_written, readObject, hsteps, Nat.add_comm 3 steps]

theorem make_name (buffer : String) (type : ElementType) (source : ShapeSource) :
    make buffer (.name type.name) source =
      (coerceShape source).map fun shape => ⟨buffer, type, shape⟩ := by
  have htype : coerceType (.name type.name) = .ok (some type) := by
    cases type <;> rfl
  rw [make, htype, ok_bind]
  cases coerceShape source with
  | error cause => rfl
  | ok shape => rfl

theorem readEnvelope_written (buffer name shapeText : String) :
    readEnvelope (documentWith buffer name shapeText).toList =
      readObjectParts (membersText buffer name shapeText.toList) >>= fun parts =>
        match make parts.1.buffer parts.1.type parts.1.shape with
        | .ok envelope => .ok (envelope, parts.2)
        | .error cause => .error (.content (.refused cause.message)) := by
  rw [toList_documentWith, readEnvelope, readRecord_object]
  rfl

theorem ofDocument_of_readShape_error {shapeText : String} {cause : JsonError}
    (hshape : readShape (shapeText.toList ++ ['\x7d']) = .error cause) (buffer name : String) :
    ofDocument (documentWith buffer name shapeText) = .error cause := by
  obtain ⟨steps, hobject⟩ := readObject_written buffer name shapeText.toList
  rw [hshape, error_bind] at hobject
  rw [ofDocument, readDocument, readEnvelope_written, readObjectParts, hobject]
  rfl

theorem ofDocument_of_readShape {shapeText : String} {source : ShapeSource}
    (hshape : readShape (shapeText.toList ++ ['\x7d']) = .ok (source, ['\x7d'])) (buffer : String)
    (type : ElementType) {shape : Shape} (hcoerced : coerceShape source = .ok shape) :
    ofDocument (documentWith buffer type.name shapeText) = .ok ⟨buffer, type, shape⟩ := by
  obtain ⟨steps, hobject⟩ := readObject_written buffer type.name shapeText.toList
  rw [hshape, ok_bind, readMembers_end] at hobject
  have hparts : readObjectParts (membersText buffer type.name shapeText.toList) =
      .ok (⟨buffer, .name type.name, source⟩, []) := by
    rw [readObjectParts, hobject]
    rfl
  rw [ofDocument, readDocument, readEnvelope_written, hparts, ok_bind, make_name, hcoerced]
  rfl

def largestDimension : Nat := 0x7fffffffffffffff

theorem readShape_of_readValue {first : Char} {others rest : List Char} {value : Value}
    (hblank : isBlank first = false) (hfirst : first ≠ 'n')
    (hvalue : readValue shapeDepth (first :: others) = .ok (value, rest)) :
    readShape (first :: others) =
      match shapeSource? value with
      | some source => .ok (source, rest)
      | none => .error (.content (.noForm "RawShape")) := by
  have hoptional : readOptional readShapeSource (first :: others) =
      (readShapeSource (first :: others)).map fun parts => (some parts.1, parts.2) := by
    rw [readOptional, skipBlanks_cons hblank]
    split
    case h_1 heq => exact absurd (List.cons.inj heq).1 hfirst
    case h_2 => rfl
  rw [readShape, hoptional, readShapeSource, hvalue, ok_bind]
  cases hsource : shapeSource? value with
  | none =>
      simp only [hsource]
      rfl
  | some source =>
      simp only [hsource]
      rfl

theorem readShape_writeText (text : String) (rest : List Char) :
    readShape ((writeText text).toList ++ rest) = .ok (.text text, rest) := by
  have hvalue := readValue_writeText shapeDepth text rest
  rw [toList_writeText, List.cons_append] at hvalue ⊢
  exact readShape_of_readValue (by decide) (by decide) hvalue

def numberValues (shape : Shape) : List Value :=
  shape.map fun (dimension : Nat) => .number (.integer (dimension : Int))

theorem readShape_writeNaturals {shape : Shape}
    (hbound : ∀ dimension ∈ shape, dimension < UInt64.size) (rest : List Char) :
    readShape ((writeNaturals shape).toList ++ rest) =
      match (numberValues shape).mapM dimension? with
      | some values => .ok (.dimensions values, rest)
      | none => .error (.content (.noForm "RawShape")) := by
  have hvalue : readValue shapeDepth ((writeNaturals shape).toList ++ rest) =
      .ok (.list (numberValues shape), rest) := readValue_writeNaturals 125 hbound rest
  rw [toList_writeNaturals, List.cons_append] at hvalue ⊢
  rw [readShape_of_readValue (by decide) (by decide) hvalue, shapeSource?]
  cases (numberValues shape).mapM dimension? with
  | none => rfl
  | some values => rfl

theorem mapM_dimension? {shape : Shape}
    (hbound : ∀ dimension ∈ shape, dimension ≤ largestDimension) :
    (numberValues shape).mapM dimension? =
      some (shape.map fun (dimension : Nat) => (dimension : Int)) := by
  induction shape with
  | nil => rfl
  | cons dimension shape ih =>
      have hvalue : dimension? (.number (.integer dimension)) = some (dimension : Int) :=
        if_pos (Int.ofNat_le.mpr (hbound dimension (by simp)))
      have hothers := ih fun other hmem => hbound other (by simp [hmem])
      rw [numberValues] at hothers ⊢
      rw [List.map_cons, List.mapM_cons, hvalue, hothers]
      rfl

theorem mapM_dimension?_eq_none {shape : Shape} {dimension : Nat} (hmem : dimension ∈ shape)
    (hlarge : largestDimension < dimension) : (numberValues shape).mapM dimension? = none := by
  induction shape with
  | nil => exact absurd hmem List.not_mem_nil
  | cons first shape ih =>
      rw [numberValues, List.map_cons, List.mapM_cons]
      rcases List.mem_cons.mp hmem with rfl | hmem
      · have hvalue : dimension? (.number (.integer dimension)) = none :=
          if_neg (Int.not_le.mpr (Int.ofNat_lt.mpr hlarge))
        rw [hvalue]
        rfl
      · have hothers := ih hmem
        rw [numberValues] at hothers
        rw [hothers]
        cases dimension? (.number (.integer first)) with
        | none => rfl
        | some value => rfl

theorem readShape_dimensions {shape : Shape}
    (hbound : ∀ dimension ∈ shape, dimension ≤ largestDimension) (rest : List Char) :
    readShape ((writeNaturals shape).toList ++ rest) =
      .ok (.dimensions (shape.map fun (dimension : Nat) => (dimension : Int)), rest) := by
  have hword : ∀ dimension ∈ shape, dimension < UInt64.size :=
    fun dimension hmem => Nat.lt_of_le_of_lt (hbound dimension hmem) (by decide)
  rw [readShape_writeNaturals hword, mapM_dimension? hbound]

theorem readShape_refused {shape : Shape} (hword : ∀ dimension ∈ shape, dimension < UInt64.size)
    {dimension : Nat} (hmem : dimension ∈ shape) (hlarge : largestDimension < dimension)
    (rest : List Char) :
    readShape ((writeNaturals shape).toList ++ rest) = .error (.content (.noForm "RawShape")) := by
  rw [readShape_writeNaturals hword, mapM_dimension?_eq_none hmem hlarge]

theorem shapeOfDimensions_natCast (shape : Shape) :
    shapeOfDimensions (shape.map fun (dimension : Nat) => (dimension : Int)) = .ok shape := by
  induction shape with
  | nil => rfl
  | cons dimension shape ih =>
      have hsign : ¬ (dimension : Int) < 0 := Int.not_lt.mpr (Int.natCast_nonneg dimension)
      rw [List.map_cons, shapeOfDimensions, if_neg hsign, ih]
      rfl

end Apportion.Proofs.Envelopes.WrittenDocuments
