import Apportion.Proofs.MessagePack.Spellings

namespace Apportion.Proofs.MessagePack.Delimiting

open Apportion.Bytes
open Apportion.MessagePack.Heads
open Apportion.MessagePack.Readers
open Apportion.Proofs.Outcomes
open Apportion.Proofs.MessagePack.Spellings

variable {α β : Type}

/-- The reader takes these bytes for the value whatever follows them, and refuses every cut of
them as malformed. -/
structure Delimited (read : Reader α) (written : List UInt8) (value : α) : Prop where
  whole : ∀ rest, read (written ++ rest) = .ok (value, rest)
  cut : ∀ count < written.length, read (written.take count) = .error .malformed

theorem delimited_nothing (value : α) :
    Delimited (fun rest => Except.ok (value, rest)) [] value where
  whole _ := rfl
  cut count hcount := absurd hcount (Nat.not_lt_zero count)

section

variable {read : Reader α} {next : α × List UInt8 → Except ReadError (β × List UInt8)}
  {first second written : List UInt8} {value : α} {result : β}

theorem Delimited.bind (hfirst : Delimited read first value)
    (hnext : Delimited (fun rest => next (value, rest)) second result) :
    Delimited (fun bytes => read bytes >>= next) (first ++ second) result where
  whole rest := by
    rw [List.append_assoc, hfirst.whole, ok_bind]
    exact hnext.whole rest
  cut count hcount := by
    rw [List.length_append] at hcount
    by_cases hfew : count < first.length
    · rw [List.take_append_of_le_length (by omega), hfirst.cut count hfew, error_bind]
    · rw [List.take_append, List.take_of_length_le (by omega), hfirst.whole, ok_bind]
      exact hnext.cut _ (by omega)

theorem Delimited.map (hread : Delimited read written value)
    (hnext : ∀ rest, next (value, rest) = .ok (result, rest)) :
    Delimited (fun bytes => read bytes >>= next) written result where
  whole rest := by rw [hread.whole, ok_bind, hnext]
  cut count hcount := by rw [hread.cut count hcount, error_bind]

end

theorem delimited_head {head : Head} {bytes : List UInt8} (hspelled : Spelled head bytes) :
    Delimited (fun bytes => orMalformed (readHead bytes)) bytes head where
  whole rest := by rw [hspelled.readHead_append, orMalformed]
  cut count hcount := by rw [hspelled.readHead_take hcount, orMalformed]

theorem delimited_split (content : List UInt8) :
    Delimited (fun bytes => orMalformed (split? content.length bytes)) content content where
  whole rest := by rw [split?_append, orMalformed]
  cut count hcount := by
    rw [split?_eq_none (by rw [List.length_take]; omega), orMalformed]

theorem delimited_many {read : Reader α} {values : List α} {pieces : List (List UInt8)}
    (hpieces : List.Forall₂ (fun value piece => Delimited read piece value) values pieces) :
    Delimited (readMany read values.length) pieces.flatten values := by
  induction hpieces with
  | nil => exact delimited_nothing []
  | cons hfirst _ ih => exact hfirst.bind (ih.map fun _ => rfl)

/-- The bytes are a text or plain bytes with the given content. -/
inductive StringForm (content : List UInt8) : List UInt8 → Prop
  | text {head : List UInt8} (hhead : Spelled (.text content.length) head) :
      StringForm content (head ++ content)
  | binary {head : List UInt8} (hhead : Spelled (.binary content.length) head) :
      StringForm content (head ++ content)

/-- The bytes are an array of the given numbers, or plain bytes with the numbers as their
values. -/
inductive NumbersForm : List Nat → List UInt8 → Prop
  | array {values : List Nat} {head : List UInt8} {pieces : List (List UInt8)}
      (hhead : Spelled (.array values.length) head)
      (hpieces : List.Forall₂ (fun value piece => Spelled (.integer (value : Nat)) piece)
        values pieces) : NumbersForm values (head ++ pieces.flatten)
  | binary {content head : List UInt8} (hhead : Spelled (.binary content.length) head) :
      NumbersForm (content.map UInt8.toNat) (head ++ content)

/-- The bytes are a value with the given content: a text, plain bytes or an array of numbers. -/
inductive BytesForm (content : List UInt8) : List UInt8 → Prop
  | string {bytes : List UInt8} (hform : StringForm content bytes) : BytesForm content bytes
  | array {head : List UInt8} {pieces : List (List UInt8)}
      (hhead : Spelled (.array content.length) head)
      (hpieces : List.Forall₂ (fun byte piece => Spelled (.integer (UInt8.toNat byte)) piece)
        content pieces) : BytesForm content (head ++ pieces.flatten)

theorem stringForm_writeBinary {content : List UInt8} (hlength : content.length < 2 ^ 32) :
    StringForm content (writeBinary content) := by
  unfold writeBinary
  apply StringForm.binary
  split
  · exact @Spelled.number 0xc4 1 content.length .binary (by simp [numberForms]) ‹_›
  · split
    · exact @Spelled.number 0xc5 2 content.length .binary (by simp [numberForms]) ‹_›
    · exact @Spelled.number 0xc6 4 content.length .binary (by simp [numberForms]) hlength

theorem stringForm_writeShortText {text : String} (hlength : (ofText text).length < 32) :
    StringForm (ofText text) (writeShortText text) :=
  .text (@Spelled.short 0xa0 32 (ofText text).length .text (by simp [shortForms]) hlength)

theorem delimited_boolean {value : Bool} {bytes : List UInt8}
    (hspelled : Spelled (.boolean value) bytes) : Delimited readBoolean bytes value :=
  (delimited_head hspelled).map fun _ => rfl

theorem delimited_key {content bytes : List UInt8} (hform : StringForm content bytes) :
    Delimited readKey bytes content := by
  cases hform with
  | text hhead => exact (delimited_head hhead).bind (delimited_split content)
  | binary hhead => exact (delimited_head hhead).bind (delimited_split content)

theorem delimited_text {text : String} {bytes : List UInt8}
    (hform : StringForm (ofText text) bytes) : Delimited readText bytes text := by
  have hcontent := delimited_split (ofText text)
  cases hform with
  | text hhead =>
      refine (delimited_head hhead).bind (hcontent.map ?_)
      intro rest
      simp [orMalformed]
  | binary hhead =>
      refine (delimited_head hhead).bind (hcontent.map ?_)
      intro rest
      simp

theorem delimited_below {bound value : Nat} (hvalue : value < bound) (expected : String)
    {bytes : List UInt8} (hspelled : Spelled (.integer value) bytes) :
    Delimited (readBelow bound expected) bytes value := by
  have hrange : 0 ≤ (value : Int) ∧ (value : Int) < bound := by omega
  exact (delimited_head hspelled).map fun _ => if_pos hrange

theorem delimited_numbers {values : List Nat} {bytes : List UInt8}
    (hform : NumbersForm values bytes) : Delimited readNaturals bytes values := by
  cases hform with
  | array hhead hpieces =>
      have hvalues := delimited_many (hpieces.imp fun value piece hspelled =>
        delimited_below (Int.ofNat_lt.mp (Spelled.integer_lt hspelled)) "u64" hspelled)
      exact (delimited_head hhead).bind hvalues
  | binary hhead =>
      exact (delimited_head hhead).bind ((delimited_split _).map fun _ => rfl)

theorem delimited_bytes {content bytes : List UInt8} (hform : BytesForm content bytes) :
    Delimited readBytes bytes content := by
  cases hform with
  | string hform =>
      cases hform with
      | text hhead => exact (delimited_head hhead).bind (delimited_split content)
      | binary hhead => exact (delimited_head hhead).bind (delimited_split content)
  | @array _ pieces hhead hpieces =>
      have hnumbers : List.Forall₂
          (fun value piece => Delimited (readBelow UInt8.size "u8") piece value)
          (content.map UInt8.toNat) pieces :=
        List.forall₂_map_left_iff.mpr (hpieces.imp fun byte piece hspelled =>
          delimited_below byte.toNat_lt "u8" hspelled)
      have hvalues := delimited_many hnumbers
      rw [List.length_map] at hvalues
      refine (delimited_head hhead).bind (hvalues.map ?_)
      intro rest
      have hcontent : (content.map UInt8.toNat).map UInt8.ofNat = content := by
        rw [List.map_map]
        exact List.map_id'' (fun byte => UInt8.ofNat_toNat) content
      simp only [hcontent, pure_eq_ok]

end Apportion.Proofs.MessagePack.Delimiting
