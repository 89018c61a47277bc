import Mathlib.Data.List.Induction
import Apportion.Envelopes.Packing
import Apportion.Proofs.MessagePack.SkippedValues
import Apportion.Proofs.Tensor.BufferBytes

/-!
Payloads in any layout. A payload is a map whose entries may come in any order and any form, with
others among them and with several under one key. What is decoded depends on nothing but the last
entry under each key that matters.
-/

namespace Apportion.Proofs.Payload.Layouts

open Apportion.Bytes
open Apportion.MessagePack.Readers
open Apportion.Envelopes.Packing
open Apportion.Payload.Decoding
open Apportion.Payload.Descriptors
open Apportion.Tensor.Arrays
open Apportion.Tensor.Buffers
open Apportion.Tensor.Elements
open Apportion.Proofs.Outcomes
open Apportion.Proofs.MessagePack.Spellings
open Apportion.Proofs.MessagePack.Delimiting
open Apportion.Proofs.MessagePack.SkippedValues
open Apportion.Proofs.Tensor.BufferBytes

inductive Entry where
  | isArray (value : Bool)
  | descriptor (text : String)
  | shape (dimensions : List Nat)
  | data (content : List UInt8)
  | other

def Entry.isArray? : Entry → Option Bool
  | .isArray value => some value
  | _ => none

def Entry.descriptor? : Entry → Option String
  | .descriptor text => some text
  | _ => none

def Entry.shape? : Entry → Option (List Nat)
  | .shape dimensions => some dimensions
  | _ => none

def Entry.data? : Entry → Option (List UInt8)
  | .data content => some content
  | _ => none

def knownKeys : List String :=
  ["nd", "type", "shape", "data"]

/-- The bytes are a form of the entry: its key as a text or as plain bytes, and a value of its kind
in any form. Under another key any value may stand that is not nested too deep. -/
inductive EntryForm : Entry → List UInt8 → Prop
  | isArray {value : Bool} {key bytes : List UInt8} (hkey : StringForm (ofText "nd") key)
      (hvalue : Spelled (.boolean value) bytes) : EntryForm (.isArray value) (key ++ bytes)
  | descriptor {text : String} {key bytes : List UInt8} (hkey : StringForm (ofText "type") key)
      (hvalue : StringForm (ofText text) bytes) : EntryForm (.descriptor text) (key ++ bytes)
  | shape {dimensions : List Nat} {key bytes : List UInt8}
      (hkey : StringForm (ofText "shape") key) (hvalue : NumbersForm dimensions bytes) :
      EntryForm (.shape dimensions) (key ++ bytes)
  | data {content key bytes : List UInt8} (hkey : StringForm (ofText "data") key)
      (hvalue : BytesForm content bytes) : EntryForm (.data content) (key ++ bytes)
  | other {name key bytes : List UInt8} (hkey : StringForm name key)
      (hname : ∀ known ∈ knownKeys, name ≠ ofText known) (hvalue : IsValue skippedDepth bytes) :
      EntryForm .other (key ++ bytes)

/-- The bytes are a map with these entries in this order. -/
inductive LaidOut (entries : List Entry) : List UInt8 → Prop
  | map {head : List UInt8} {pieces : List (List UInt8)}
      (hhead : Spelled (.map entries.length) head)
      (hforms : List.Forall₂ EntryForm entries pieces) : LaidOut entries (head ++ pieces.flatten)

/-- What the last entry of a kind says, if there is any. -/
def lastOf {α : Type} (part : Entry → Option α) (entries : List Entry) : Option α :=
  (entries.filterMap part).getLast?

def record (before : Entries) : Entry → Entries
  | .isArray value => { before with isArray? := some value }
  | .descriptor text => { before with descriptor? := some text }
  | .shape dimensions => { before with shape? := some dimensions }
  | .data content => { before with data? := some content }
  | .other => before

def readKeyed (before : Entries) : Reader Entries := fun bytes => do
  let (key, rest) ← readKey bytes
  readEntry before key rest

theorem readEntry_other (before : Entries) {name : List UInt8}
    (hname : ∀ known ∈ knownKeys, name ≠ ofText known) :
    readEntry before name = fun bytes =>
      passing (skipValue skippedDepth) bytes >>= fun parts => .ok (before, parts.2) := by
  simp only [knownKeys, List.forall_mem_cons] at hname
  obtain ⟨hnd, htype, hshape, hdata, _⟩ := hname
  funext bytes
  rw [readEntry, if_neg hnd, if_neg htype, if_neg hshape, if_neg hdata, passing]
  cases skipValue skippedDepth bytes with
  | none => rfl
  | some rest => rfl

theorem delimited_entry {entry : Entry} {bytes : List UInt8} (hform : EntryForm entry bytes)
    (before : Entries) : Delimited (readKeyed before) bytes (record before entry) := by
  cases hform with
  | isArray hkey hvalue =>
      refine (delimited_key hkey).bind ?_
      exact (delimited_boolean hvalue).map fun _ => rfl
  | descriptor hkey hvalue =>
      refine (delimited_key hkey).bind ?_
      exact (delimited_text hvalue).map fun _ => rfl
  | shape hkey hvalue =>
      refine (delimited_key hkey).bind ?_
      exact (delimited_numbers hvalue).map fun _ => rfl
  | data hkey hvalue =>
      refine (delimited_key hkey).bind ?_
      exact (delimited_bytes hvalue).map fun _ => rfl
  | other hkey hname hvalue =>
      refine (delimited_key hkey).bind ?_
      change Delimited (readEntry before _) _ _
      rw [readEntry_other before hname]
      exact (delimited_skipValue hvalue).map fun _ => rfl

theorem readEntries_succ (count : Nat) (before : Entries) (bytes : List UInt8) :
    readEntries (count + 1) before bytes =
      readKeyed before bytes >>= fun parts => readEntries count parts.1 parts.2 := by
  rw [readEntries, readKeyed]
  cases readKey bytes with
  | error cause => rfl
  | ok parts => rfl

theorem readEntries_whole {entries : List Entry} {pieces : List (List UInt8)}
    (hforms : List.Forall₂ EntryForm entries pieces) (before : Entries) (rest : List UInt8) :
    readEntries entries.length before (pieces.flatten ++ rest) =
      .ok (entries.foldl record before) := by
  induction hforms generalizing before with
  | nil => rfl
  | cons hfirst _ ih =>
      rw [List.length_cons, List.flatten_cons, List.append_assoc, readEntries_succ,
        (delimited_entry hfirst before).whole, ok_bind, ih, List.foldl_cons]

theorem readEntries_cut {entries : List Entry} {pieces : List (List UInt8)}
    (hforms : List.Forall₂ EntryForm entries pieces) (before : Entries) {count : Nat}
    (hcount : count < pieces.flatten.length) :
    readEntries entries.length before (pieces.flatten.take count) = .error .malformed := by
  induction hforms generalizing before count with
  | nil => exact absurd hcount (Nat.not_lt_zero count)
  | @cons entry piece entries pieces hfirst _ ih =>
      have hread := delimited_entry hfirst before
      rw [List.flatten_cons, List.length_append] at hcount
      rw [List.length_cons, List.flatten_cons, readEntries_succ]
      by_cases hfew : count < piece.length
      · rw [List.take_append_of_le_length (by omega), hread.cut count hfew, error_bind]
      · rw [List.take_append, List.take_of_length_le (by omega), hread.whole, ok_bind]
        exact ih _ (by omega)

def lastEntries (entries : List Entry) : Entries where
  isArray? := lastOf Entry.isArray? entries
  descriptor? := lastOf Entry.descriptor? entries
  shape? := lastOf Entry.shape? entries
  data? := lastOf Entry.data? entries

theorem foldl_record (entries : List Entry) :
    entries.foldl record ⟨none, none, none, none⟩ = lastEntries entries := by
  -- From the end, since the last entry of a kind is the one that counts.
  induction entries using List.reverseRecOn with
  | nil => rfl
  | append_singleton entries entry ih =>
      rw [List.foldl_concat, ih]
      cases entry <;> simp [lastEntries, lastOf, record, Entry.isArray?, Entry.descriptor?,
        Entry.shape?, Entry.data?]

theorem readParts_whole {entries : List Entry} {bytes : List UInt8} (hlaid : LaidOut entries bytes)
    (rest : List UInt8) : readParts (bytes ++ rest) = (lastEntries entries).parts := by
  cases hlaid with
  | map hhead hforms =>
      rw [readParts, List.append_assoc, hhead.readHead_append]
      simp only [orMalformed, ok_bind, readEntries_whole hforms, foldl_record]

theorem readParts_cut {entries : List Entry} {bytes : List UInt8} (hlaid : LaidOut entries bytes)
    {count : Nat} (hcount : count < bytes.length) :
    readParts (bytes.take count) = .error .malformed := by
  cases hlaid with
  | @map head pieces hhead hforms =>
      rw [List.length_append] at hcount
      by_cases hfew : count < head.length
      · rw [List.take_append_of_le_length (by omega), readParts, hhead.readHead_take hfew]
        rfl
      · have hbody := readEntries_cut hforms ⟨none, none, none, none⟩
          (show count - head.length < pieces.flatten.length by omega)
        rw [List.take_append, List.take_of_length_le (by omega), readParts,
          hhead.readHead_append]
        simp only [orMalformed, ok_bind, hbody, error_bind]

/-- The bytes are refused because they cannot be decoded, and not for a type that is not
supported. -/
def Undecodable (outcome : Except PayloadError TypedArray) : Prop :=
  ∃ cause, outcome = .error cause ∧ (OpenError.payload cause).isUnsupported = false

/-- The outcome is the one that the last entries decide on. -/
structure DecodesLast (entries : List Entry) (outcome : Except PayloadError TypedArray) : Prop where
  /-- An array, if all four keys are given for it. -/
  array : ∀ {array : TypedArray}, array.WellFormed →
    lastOf Entry.isArray? entries = some true →
    lastOf Entry.descriptor? entries = some (descriptor array.type) →
    lastOf Entry.shape? entries = some array.shape →
    lastOf Entry.data? entries = some array.buffer.toBytes → outcome = .ok array
  /-- A single element, whatever shape is given, if the bytes are those of one element. -/
  single : ∀ {type : ElementType} {content : List UInt8},
    lastOf Entry.isArray? entries = some false →
    lastOf Entry.descriptor? entries = some (descriptor type) →
    lastOf Entry.data? entries = some content → content.length = type.width →
    outcome = .ok (.scalar type (readElement type .little content))
  notSingle : ∀ {type : ElementType} {content : List UInt8},
    lastOf Entry.isArray? entries = some false →
    lastOf Entry.descriptor? entries = some (descriptor type) →
    lastOf Entry.data? entries = some content → content.length ≠ type.width →
    Undecodable outcome
  incomplete : lastOf Entry.isArray? entries = none ∨ lastOf Entry.descriptor? entries = none ∨
    lastOf Entry.data? entries = none → Undecodable outcome

theorem decode_of_readParts {bytes : List UInt8} {parts : Parts}
    (hparts : readParts bytes = .ok parts) {type : ElementType}
    (htype : parts.descriptor = descriptor type) :
    decode bytes =
      (Buffer.ofBytes type .little parts.data).mapError .partialElement >>= fun buffer =>
        parts.shape >>= fun shape => (TypedArray.ofBuffer shape buffer).mapError fun _ =>
          .countMismatch buffer.length buffer.type := by
  rw [decode, hparts, mapError_ok, ok_bind, Parts.buffer, htype, parse?_descriptor]

theorem decode_array {bytes : List UInt8} {array : TypedArray} (hformed : array.WellFormed)
    (hparts : readParts bytes =
      .ok ⟨true, descriptor array.type, some array.shape, array.buffer.toBytes⟩) :
    decode bytes = .ok array := by
  have harray : TypedArray.ofBuffer array.shape array.buffer = .ok array :=
    TypedArray.ofBuffer_eq_ok_iff.mpr ⟨rfl, hformed⟩
  rw [decode_of_readParts hparts rfl, TypedArray.type, ofBytes_toBytes, mapError_ok, ok_bind]
  simp only [Parts.shape, if_true, ok_bind, harray, mapError_ok]

theorem ofBytes_one (type : ElementType) {content : List UInt8}
    (hlength : content.length = type.width) :
    Buffer.ofBytes type .little content = .ok ⟨type, [readElement type .little content]⟩ := by
  have hcount : content.length / type.width = 1 := by
    rw [hlength, Nat.div_self (width_pos type)]
  rw [Buffer.ofBytes, if_pos (by rw [hlength, Nat.mod_self]), hcount]
  simp only [chunks, ← hlength, List.take_length, List.map_cons, List.map_nil]

theorem decode_single {bytes content : List UInt8} {type : ElementType}
    {shape? : Option (List Nat)}
    (hparts : readParts bytes = .ok ⟨false, descriptor type, shape?, content⟩)
    (hlength : content.length = type.width) :
    decode bytes = .ok (.scalar type (readElement type .little content)) := by
  rw [decode_of_readParts hparts rfl, ofBytes_one type hlength]
  rfl

theorem undecodable_of_length_ne {bytes content : List UInt8} {type : ElementType}
    {shape? : Option (List Nat)}
    (hparts : readParts bytes = .ok ⟨false, descriptor type, shape?, content⟩)
    (hlength : content.length ≠ type.width) : Undecodable (decode bytes) := by
  rw [decode_of_readParts hparts rfl]
  by_cases hwhole : content.length % type.width = 0
  · have hcount : content.length / type.width ≠ 1 := by
      intro hone
      have := Nat.div_add_mod content.length type.width
      rw [hone, hwhole] at this
      omega
    refine ⟨.countMismatch (content.length / type.width) type, ?_, rfl⟩
    rw [Buffer.ofBytes, if_pos hwhole, mapError_ok, ok_bind, Parts.shape, if_neg (by simp), ok_bind,
      TypedArray.ofBuffer, if_neg]
    · simp [Buffer.length]
    · simpa [Buffer.length, Tensor.Shapes.Shape.count] using hcount
  · refine ⟨.partialElement ⟨content.length, type⟩, ?_, rfl⟩
    rw [Buffer.ofBytes, if_neg hwhole, mapError_error, error_bind]

theorem undecodable_of_readParts_error {bytes : List UInt8} {cause : ReadError}
    (hparts : readParts bytes = .error cause) : Undecodable (decode bytes) := by
  refine ⟨.unreadable cause, ?_, rfl⟩
  rw [decode, hparts, mapError_error, error_bind]

theorem parts_eq_error {entries : Entries}
    (hnone : entries.isArray? = none ∨ entries.descriptor? = none ∨ entries.data? = none) :
    ∃ key, entries.parts = .error (.missing key) := by
  obtain ⟨isArray?, descriptor?, shape?, data?⟩ := entries
  rcases isArray? with _ | isArray
  · exact ⟨"nd", rfl⟩
  rcases descriptor? with _ | descriptor
  · exact ⟨"type", rfl⟩
  rcases data? with _ | data
  · exact ⟨"data", rfl⟩
  · simp at hnone

theorem parts_lastEntries {entries : List Entry} {isArray : Bool} {text : String}
    {content : List UInt8} (harray : lastOf Entry.isArray? entries = some isArray)
    (htext : lastOf Entry.descriptor? entries = some text)
    (hcontent : lastOf Entry.data? entries = some content) :
    (lastEntries entries).parts = .ok ⟨isArray, text, lastOf Entry.shape? entries, content⟩ := by
  simp only [Entries.parts, lastEntries, harray, htext, hcontent]

/-- However a payload is laid out, the last entries under the keys that matter decide what is
decoded, whatever else the map holds and whatever comes after it. -/
theorem decode_laidOut {entries : List Entry} {bytes : List UInt8} (hlaid : LaidOut entries bytes)
    (rest : List UInt8) : DecodesLast entries (decode (bytes ++ rest)) := by
  have hread := readParts_whole hlaid rest
  constructor
  case array =>
    intro array hformed harray htext hshape hcontent
    rw [parts_lastEntries harray htext hcontent, hshape] at hread
    exact decode_array hformed hread
  case single =>
    intro type content harray htext hcontent hlength
    rw [parts_lastEntries harray htext hcontent] at hread
    exact decode_single hread hlength
  case notSingle =>
    intro type content harray htext hcontent hlength
    rw [parts_lastEntries harray htext hcontent] at hread
    exact undecodable_of_length_ne hread hlength
  case incomplete =>
    intro hnone
    obtain ⟨key, hmissing⟩ := @parts_eq_error (lastEntries entries) hnone
    rw [hmissing] at hread
    exact undecodable_of_readParts_error hread

def pair : TypedArray where
  shape := [2]
  buffer := ⟨.int16, [1, -2]⟩

/-- The parts of the pair out of order, with a remark among them and with an earlier mark and
earlier data that do not count. -/
def pairEntries : List Entry :=
  [.data [9], .other, .shape [2], .isArray false, .descriptor "<i2", .data [1, 0, 254, 255],
  .isArray true]

def pairBytes : List UInt8 :=
  [0x87] ++
    [([0xa4] ++ ofText "data") ++ ([0xc4, 1] ++ [9]),
    ([0xc4, 4] ++ ofText "kind") ++ ([0x92] ++ [[0xd4] ++ 5 :: [7], [0xc0]].flatten),
    ([0xd9, 5] ++ ofText "shape") ++ ([0xdc, 0, 1] ++ [[0xd1, 0, 2]].flatten),
    ([0xc4, 2] ++ ofText "nd") ++ [0xc2],
    ([0xa4] ++ ofText "type") ++ ([0xc4, 3] ++ ofText "<i2"),
    ([0xc5, 0, 4] ++ ofText "data") ++ ([0xc5, 0, 4] ++ [1, 0, 254, 255]),
    ([0xc4, 2] ++ ofText "nd") ++ [0xc3]].flatten

theorem laidOut_pairBytes : LaidOut pairEntries pairBytes := by
  have htext : ∀ length < 32, Spelled (.text length) [UInt8.ofNat (0xa0 + length)] :=
    fun length hlength => @Spelled.short 0xa0 32 length .text (by simp [shortForms]) hlength
  have hbinary : ∀ length < 256, Spelled (.binary length) (0xc4 :: bigEndian 1 length) :=
    fun length hlength => @Spelled.number 0xc4 1 length .binary (by simp [numberForms]) hlength
  have hwide : Spelled (.binary 4) [0xc5, 0, 4] :=
    @Spelled.number 0xc5 2 4 .binary (by simp [numberForms]) (by decide)
  have hnd : StringForm (ofText "nd") ([0xc4, 2] ++ ofText "nd") :=
    .binary (hbinary 2 (by decide))
  have hremark : IsValue skippedDepth ([0x92] ++ [[0xd4] ++ 5 :: [7], [0xc0]].flatten) := by
    refine .array (@Spelled.short 0x90 16 2 .array (by simp [shortForms]) (by decide)) ?_
    intro item hmem
    rcases List.mem_pair.mp hmem with rfl | rfl
    · exact @IsValue.extension _ 5 [7] _ (.whole (by simp [wholeForms]))
    · exact .alone (@Spelled.whole 0xc0 .nothing (by simp [wholeForms])) rfl
  have hshapeKey : StringForm (ofText "shape") ([0xd9, 5] ++ ofText "shape") :=
    .text (@Spelled.number 0xd9 1 5 .text (by simp [numberForms]) (by decide))
  have hshape : NumbersForm [2] ([0xdc, 0, 1] ++ [[0xd1, 0, 2]].flatten) :=
    .array (@Spelled.number 0xdc 2 1 .array (by simp [numberForms]) (by decide))
      (.cons (@Spelled.signed 0xd1 2 2 (by simp [signedForms]) (by decide) (by decide)) .nil)
  refine .map (@Spelled.short 0x80 16 7 .map (by simp [shortForms]) (by decide)) ?_
  refine .cons (.data (.text (htext 4 (by decide))) (.string (.binary (hbinary 1 (by decide))))) ?_
  refine .cons (.other (.binary (hbinary 4 (by decide))) (by decide) hremark) ?_
  refine .cons (.shape hshapeKey hshape) ?_
  refine .cons (.isArray hnd (spelled_writeBoolean false)) ?_
  refine .cons (.descriptor (.text (htext 4 (by decide))) (.binary (hbinary 3 (by decide)))) ?_
  refine .cons (.data (.binary hwide) (.string (.binary hwide))) ?_
  exact .cons (.isArray hnd (spelled_writeBoolean true)) .nil

theorem decode_pairBytes :
    LaidOut pairEntries pairBytes ∧ decode (pairBytes ++ [0xff]) = .ok pair :=
  ⟨laidOut_pairBytes, (decode_laidOut laidOut_pairBytes [0xff]).array rfl rfl rfl rfl rfl⟩

end Apportion.Proofs.Payload.Layouts
