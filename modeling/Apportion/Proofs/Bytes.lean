import Mathlib.Algebra.Group.Nat.Defs
import Mathlib.Data.List.Basic
import Apportion.Bytes

namespace Apportion.Proofs.Bytes

open Apportion.Bytes

theorem ofLittleEndian_littleEndian (width number : Nat) :
    ofLittleEndian (littleEndian width number) = number % 256 ^ width := by
  induction width generalizing number with
  | zero => simp [littleEndian, ofLittleEndian, Nat.mod_one]
  | succ width ih =>
      have hlow : (UInt8.ofNat (number % 256)).toNat = number % 256 := by
        rw [UInt8.toNat_ofNat']
        omega
      change (UInt8.ofNat (number % 256)).toNat +
        256 * ofLittleEndian (littleEndian width (number / 256)) = _
      rw [ih, hlow, Nat.pow_succ', Nat.mod_mul]

theorem ofBigEndian_bigEndian (width number : Nat) :
    ofBigEndian (bigEndian width number) = number % 256 ^ width := by
  rw [ofBigEndian, bigEndian, List.reverse_reverse, ofLittleEndian_littleEndian]

theorem chunks_flatMap {α : Type} {width : Nat} {write : α → List UInt8} (items : List α)
    (hwidth : ∀ item, (write item).length = width) :
    chunks width items.length (items.flatMap write) = items.map write := by
  induction items with
  | nil => rfl
  | cons item items ih =>
      rw [List.flatMap_cons, List.length_cons, chunks, List.map_cons]
      rw [← hwidth item, List.take_left, List.drop_left, hwidth item, ih]

theorem ofLittleEndian_lt (bytes : List UInt8) : ofLittleEndian bytes < 256 ^ bytes.length := by
  have hvalue := ofLittleEndian_littleEndian bytes.length (ofLittleEndian bytes)
  rw [littleEndian_ofLittleEndian] at hvalue
  rw [hvalue]
  exact Nat.mod_lt _ (Nat.pow_pos (by decide))

theorem flatten_chunks {width count : Nat} {bytes : List UInt8}
    (hlength : bytes.length = count * width) : (chunks width count bytes).flatten = bytes := by
  induction count generalizing bytes with
  | zero =>
      rw [Nat.zero_mul, List.length_eq_zero_iff] at hlength
      exact hlength.symm
  | succ count ih =>
      have hrest : (bytes.drop width).length = count * width := by
        rw [List.length_drop, hlength, Nat.succ_mul, Nat.add_sub_cancel]
      rw [chunks, List.flatten_cons, ih hrest, List.take_append_drop]

theorem length_of_mem_chunks {width count : Nat} {bytes : List UInt8}
    (hlength : bytes.length = count * width) :
    ∀ piece ∈ chunks width count bytes, piece.length = width := by
  induction count generalizing bytes with
  | zero => exact List.forall_mem_nil _
  | succ count ih =>
      rw [Nat.succ_mul] at hlength
      rw [chunks, List.forall_mem_cons]
      constructor
      · rw [List.length_take, hlength]
        omega
      · apply ih
        rw [List.length_drop, hlength, Nat.add_sub_cancel]

@[simp]
theorem text?_ofText (text : String) : text? (ofText text) = some text := by
  have hbytes : (⟨(ofText text).toArray⟩ : ByteArray) = text.toByteArray := by
    simp [ofText]
  rw [text?, String.fromUTF8?, hbytes, dif_pos text.isValidUTF8]
  rfl

theorem ofText_ofList (characters : List Char) :
    ofText (String.ofList characters) = characters.flatMap String.utf8EncodeChar := by
  rw [ofText, String.toUTF8_eq_toByteArray, String.toByteArray_ofList, List.utf8Encode,
    List.toList_data_toByteArray]

theorem ofText_ofList_of_ascii {characters : List Char}
    (hascii : ∀ character ∈ characters, character.toNat < 128) :
    ofText (String.ofList characters) =
      characters.map fun character => UInt8.ofNat character.toNat := by
  rw [ofText_ofList]
  induction characters with
  | nil => rfl
  | cons character characters ih =>
      have hbound : character.val.toNat ≤ 0x7f := by
        have := hascii character (by simp)
        change character.val.toNat < 128 at this
        omega
      have hfirst : String.utf8EncodeChar character = [UInt8.ofNat character.toNat] := by
        rw [String.utf8EncodeChar]
        exact if_pos hbound
      rw [List.flatMap_cons, hfirst, ih fun other hmem => hascii other (by simp [hmem])]
      rfl

end Apportion.Proofs.Bytes
