import Mathlib.Data.List.Forall2
import Apportion.MessagePack.Readers
import Apportion.Proofs.Bytes
import Apportion.Proofs.Outcomes

namespace Apportion.Proofs.MessagePack.Spellings

open Apportion.Bytes
open Apportion.MessagePack.Heads
open Apportion.Proofs.Bytes

def wholeForms : List (UInt8 × Head) :=
  [(0xc0, .nothing), (0xc2, .boolean false), (0xc3, .boolean true), (0xd4, .extension 1),
  (0xd5, .extension 2), (0xd6, .extension 4), (0xd7, .extension 8), (0xd8, .extension 16)]

/-- The heads that a marker and a number below a bound make together in one byte. -/
def shortForms : List (Nat × Nat × (Nat → Head)) :=
  [(0x00, 0x80, (.integer ·)), (0x80, 16, .map), (0x90, 16, .array), (0xa0, 32, .text)]

def numberForms : List (UInt8 × Nat × (Nat → Head)) :=
  [(0xc4, 1, .binary), (0xc5, 2, .binary), (0xc6, 4, .binary), (0xc7, 1, .extension),
  (0xc8, 2, .extension), (0xc9, 4, .extension), (0xca, 4, .float32), (0xcb, 8, .float64),
  (0xcc, 1, (.integer ·)), (0xcd, 2, (.integer ·)), (0xce, 4, (.integer ·)),
  (0xcf, 8, (.integer ·)), (0xd9, 1, .text), (0xda, 2, .text), (0xdb, 4, .text),
  (0xdc, 2, .array), (0xdd, 4, .array), (0xde, 2, .map), (0xdf, 4, .map)]

def signedForms : List (UInt8 × Nat) :=
  [(0xd0, 1), (0xd1, 2), (0xd2, 4), (0xd3, 8)]

inductive Spelled : Head → List UInt8 → Prop
  | whole {marker : UInt8} {head : Head} (hform : (marker, head) ∈ wholeForms) :
      Spelled head [marker]
  | short {base bound number : Nat} {head : Nat → Head} (hform : (base, bound, head) ∈ shortForms)
      (hbound : number < bound) : Spelled (head number) [UInt8.ofNat (base + number)]
  | negative {value : Int} (hlow : -32 ≤ value) (hhigh : value < 0) :
      Spelled (.integer value) [UInt8.ofNat (256 + value).toNat]
  | number {marker : UInt8} {width number : Nat} {head : Nat → Head}
      (hform : (marker, width, head) ∈ numberForms) (hbound : number < 256 ^ width) :
      Spelled (head number) (marker :: bigEndian width number)
  | signed {marker : UInt8} {width : Nat} {value : Int} (hform : (marker, width) ∈ signedForms)
      (hlow : -(256 ^ width : Nat) ≤ 2 * value) (hhigh : 2 * value < (256 ^ width : Nat)) :
      Spelled (.integer value)
        (marker :: bigEndian width (value % (256 ^ width : Nat)).toNat)

theorem readHead_complete {marker : UInt8} {head : Head}
    (hform : form? marker.toNat = some (.complete head)) (rest : List UInt8) :
    readHead (marker :: rest) = some (head, rest) := by
  rw [readHead, hform]

theorem readHead_number (marker : UInt8) {width : Nat} (head : Nat → Head)
    (hform : form? marker.toNat = some (.number width head)) {number : Nat}
    (hbound : number < 256 ^ width) (rest : List UInt8) :
    readHead (marker :: (bigEndian width number ++ rest)) = some (head number, rest) := by
  have hsplit := split?_append (bigEndian width number) rest
  rw [length_bigEndian] at hsplit
  rw [readHead, hform]
  simp only [readNumber, hsplit, Option.map_some, ofBigEndian_bigEndian,
    Nat.mod_eq_of_lt hbound]

theorem form?_integer {value : Nat} (hbound : value < 0x80) :
    form? (UInt8.ofNat value).toNat = some (.complete (.integer value)) := by
  rw [UInt8.toNat_ofNat', Nat.mod_eq_of_lt (by omega)]
  unfold form?
  rw [if_pos hbound]

theorem form?_map {count : Nat} (hbound : count < 16) :
    form? (UInt8.ofNat (0x80 + count)).toNat = some (.complete (.map count)) := by
  rw [UInt8.toNat_ofNat', Nat.mod_eq_of_lt (by omega)]
  unfold form?
  rw [if_neg (by omega), if_pos (by omega), Nat.add_sub_cancel_left]

theorem form?_array {count : Nat} (hbound : count < 16) :
    form? (UInt8.ofNat (0x90 + count)).toNat = some (.complete (.array count)) := by
  rw [UInt8.toNat_ofNat', Nat.mod_eq_of_lt (by omega)]
  unfold form?
  rw [if_neg (by omega), if_neg (by omega), if_pos (by omega), Nat.add_sub_cancel_left]

theorem form?_text {length : Nat} (hbound : length < 32) :
    form? (UInt8.ofNat (0xa0 + length)).toNat = some (.complete (.text length)) := by
  rw [UInt8.toNat_ofNat', Nat.mod_eq_of_lt (by omega)]
  unfold form?
  rw [if_neg (by omega), if_neg (by omega), if_neg (by omega), if_pos (by omega),
    Nat.add_sub_cancel_left]

theorem form?_whole {marker : UInt8} {head : Head} (hform : (marker, head) ∈ wholeForms) :
    form? marker.toNat = some (.complete head) := by
  have hall : ∀ form ∈ wholeForms, form? form.1.toNat = some (.complete form.2) := by
    simp only [wholeForms, List.forall_mem_cons, List.not_mem_nil, false_imp_iff, implies_true,
      and_true]
    and_intros <;> rfl
  exact hall _ hform

theorem form?_short {base bound number : Nat} {head : Nat → Head}
    (hform : (base, bound, head) ∈ shortForms) (hbound : number < bound) :
    form? (UInt8.ofNat (base + number)).toNat = some (.complete (head number)) := by
  simp only [shortForms, List.mem_cons, List.not_mem_nil, or_false, Prod.mk.injEq] at hform
  rcases hform with ⟨rfl, rfl, rfl⟩ | ⟨rfl, rfl, rfl⟩ | ⟨rfl, rfl, rfl⟩ | ⟨rfl, rfl, rfl⟩
  · rw [Nat.zero_add]
    exact form?_integer hbound
  · exact form?_map hbound
  · exact form?_array hbound
  · exact form?_text hbound

theorem form?_negative {value : Int} (hlow : -32 ≤ value) (hhigh : value < 0) :
    form? (UInt8.ofNat (256 + value).toNat).toNat = some (.complete (.integer value)) := by
  have hmarker : ((256 + value).toNat : Int) - 256 = value := by omega
  rw [UInt8.toNat_ofNat', Nat.mod_eq_of_lt (by omega)]
  unfold form?
  rw [if_neg (by omega), if_neg (by omega), if_neg (by omega), if_neg (by omega),
    if_pos (by omega), hmarker]

theorem form?_number {marker : UInt8} {width : Nat} {head : Nat → Head}
    (hform : (marker, width, head) ∈ numberForms) :
    form? marker.toNat = some (.number width head) := by
  have hall : ∀ form ∈ numberForms, form? form.1.toNat = some (.number form.2.1 form.2.2) := by
    simp only [numberForms, List.forall_mem_cons, List.not_mem_nil, false_imp_iff, implies_true,
      and_true]
    and_intros <;> rfl
  exact hall _ hform

theorem form?_signed {marker : UInt8} {width : Nat} (hform : (marker, width) ∈ signedForms) :
    form? marker.toNat =
      some (.number width fun word => .integer (ofTwosComplement width word)) := by
  have hall : ∀ form ∈ signedForms, form? form.1.toNat =
      some (.number form.2 fun word => .integer (ofTwosComplement form.2 word)) := by
    simp only [signedForms, List.forall_mem_cons, List.not_mem_nil, false_imp_iff, implies_true,
      and_true]
    and_intros <;> rfl
  exact hall _ hform

theorem ofTwosComplement_emod {width : Nat} {value : Int}
    (hlow : -(256 ^ width : Nat) ≤ 2 * value) (hhigh : 2 * value < (256 ^ width : Nat)) :
    ofTwosComplement width (value % (256 ^ width : Nat)).toNat = value := by
  have hsize : 2 ^ (8 * width) = 256 ^ width := by rw [Nat.pow_mul]
  have hpos : 0 < 256 ^ width := Nat.pow_pos (by decide)
  have hword : ((value % (256 ^ width : Nat)).toNat : Int) = value % (256 ^ width : Nat) :=
    Int.toNat_of_nonneg (Int.emod_nonneg _ (by omega))
  rw [ofTwosComplement, BitVec.toInt_ofNat', hword, hsize, Int.emod_bmod]
  exact Int.bmod_eq_of_le_mul_two (by omega) (by omega)

theorem Spelled.readHead_append {head : Head} {bytes : List UInt8} (hspelled : Spelled head bytes)
    (rest : List UInt8) : readHead (bytes ++ rest) = some (head, rest) := by
  cases hspelled with
  | whole hform => exact readHead_complete (form?_whole hform) rest
  | short hform hbound => exact readHead_complete (form?_short hform hbound) rest
  | negative hlow hhigh => exact readHead_complete (form?_negative hlow hhigh) rest
  | number hform hbound => exact readHead_number _ _ (form?_number hform) hbound rest
  | @signed marker width value hform hlow hhigh =>
      have hpos : 0 < 256 ^ width := Nat.pow_pos (by decide)
      have hword : (value % (256 ^ width : Nat)).toNat < 256 ^ width := by
        have := Int.emod_lt_of_pos value (show (0 : Int) < (256 ^ width : Nat) by omega)
        omega
      have hread := readHead_number _ _ (form?_signed hform) hword rest
      rwa [ofTwosComplement_emod hlow hhigh] at hread

theorem split?_eq_none {count : Nat} {bytes : List UInt8} (hcount : bytes.length < count) :
    split? count bytes = none := by
  simp [split?]
  omega

theorem readHead_take_number {marker : UInt8} {width number : Nat} {head : Nat → Head}
    (hform : form? marker.toNat = some (.number width head)) {count : Nat}
    (hcount : count < width + 1) :
    readHead ((marker :: bigEndian width number).take count) = none := by
  cases count with
  | zero => rfl
  | succ count =>
      have hshort : ((bigEndian width number).take count).length < width := by
        rw [List.length_take, length_bigEndian]
        omega
      simp only [List.take_succ_cons, readHead, hform, readNumber, split?_eq_none hshort,
        Option.map_none]

theorem Spelled.readHead_take {head : Head} {bytes : List UInt8} (hspelled : Spelled head bytes)
    {count : Nat} (hcount : count < bytes.length) : readHead (bytes.take count) = none := by
  have hempty : ∀ marker : UInt8, count < [marker].length →
      readHead ([marker].take count) = none := by
    intro marker hone
    rw [List.length_singleton] at hone
    rw [show count = 0 by omega]
    rfl
  cases hspelled with
  | whole hform => exact hempty _ hcount
  | short hform hbound => exact hempty _ hcount
  | negative hlow hhigh => exact hempty _ hcount
  | number hform hbound =>
      rw [List.length_cons, length_bigEndian] at hcount
      exact readHead_take_number (form?_number hform) hcount
  | signed hform hlow hhigh =>
      rw [List.length_cons, length_bigEndian] at hcount
      exact readHead_take_number (form?_signed hform) hcount

theorem Spelled.integer_lt {value : Int} {bytes : List UInt8}
    (hspelled : Spelled (.integer value) bytes) : value < UInt64.size := by
  have hshort : ∀ form ∈ shortForms, ∀ number < form.2.1, form.2.2 number = .integer value →
      value < UInt64.size := by
    simp [shortForms]
    omega
  have hnumber : ∀ form ∈ numberForms, form.2.1 ≤ 8 ∧
      ∀ number, form.2.2 number = .integer value → (number : Int) = value := by
    simp [numberForms]
  have hsigned : ∀ form ∈ signedForms, 2 * value < (256 ^ form.2 : Nat) → value < UInt64.size := by
    simp [signedForms]
    omega
  generalize hhead : Head.integer value = head at hspelled
  cases hspelled with
  | whole hform =>
      subst hhead
      simp [wholeForms] at hform
  | short hform hbound => exact hshort _ hform _ hbound hhead.symm
  | negative hlow hhigh =>
      cases hhead
      omega
  | number hform hbound =>
      obtain ⟨hwidth, hvalue⟩ := hnumber _ hform
      rw [← hvalue _ hhead.symm]
      exact Int.ofNat_lt.mpr (Nat.lt_of_lt_of_le hbound (Nat.pow_le_pow_right (by decide) hwidth))
  | signed hform hlow hhigh =>
      cases hhead
      exact hsigned _ hform hhigh

theorem spelled_writeNatural {value : Nat} (hvalue : value < UInt64.size) :
    Spelled (.integer value) (writeNatural value) := by
  unfold writeNatural
  split
  · have hshort := @Spelled.short 0x00 0x80 value (.integer ·) (by simp [shortForms]) ‹_›
    rwa [Nat.zero_add] at hshort
  · split
    · exact @Spelled.number 0xcc 1 value (.integer ·) (by simp [numberForms]) ‹_›
    · split
      · exact @Spelled.number 0xcd 2 value (.integer ·) (by simp [numberForms]) ‹_›
      · split
        · exact @Spelled.number 0xce 4 value (.integer ·) (by simp [numberForms]) ‹_›
        · exact @Spelled.number 0xcf 8 value (.integer ·) (by simp [numberForms]) hvalue

theorem spelled_writeArrayHead {count : Nat} (hcount : count < 2 ^ 32) :
    Spelled (.array count) (writeArrayHead count) := by
  unfold writeArrayHead
  split
  · exact @Spelled.short 0x90 16 count .array (by simp [shortForms]) ‹_›
  · split
    · exact @Spelled.number 0xdc 2 count .array (by simp [numberForms]) ‹_›
    · exact @Spelled.number 0xdd 4 count .array (by simp [numberForms]) hcount

theorem spelled_writeMapHead {count : Nat} (hcount : count < 16) :
    Spelled (.map count) (writeMapHead count) :=
  @Spelled.short 0x80 16 count .map (by simp [shortForms]) hcount

theorem spelled_writeBoolean (value : Bool) : Spelled (.boolean value) (writeBoolean value) := by
  cases value <;> exact .whole (by simp [wholeForms])

end Apportion.Proofs.MessagePack.Spellings
