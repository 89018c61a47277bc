import Apportion.Proofs.Tensor.BufferBytes

namespace Apportion.Proofs.Tensor.SwappedBytes

open Apportion.Bytes
open Apportion.Tensor.Buffers
open Apportion.Tensor.Elements
open Apportion.Proofs.Bytes
open Apportion.Proofs.Tensor.BufferBytes

/-- The second list holds the bytes of the first, with each group of `width` bytes in reverse order.
The bytes at the end that make no group stay as they are. -/
inductive Swapped (width : Nat) : List UInt8 → List UInt8 → Prop where
  | rest {bytes : List UInt8} (hshort : bytes.length < width) : Swapped width bytes bytes
  | group {piece bytes others : List UInt8} (hpiece : piece.length = width)
      (hothers : Swapped width bytes others) :
      Swapped width (piece ++ bytes) (piece.reverse ++ others)

section

variable {width : Nat} {bytes others : List UInt8}

theorem exists_swapped (hwidth : 0 < width) (bytes : List UInt8) :
    ∃ others, Swapped width bytes others := by
  induction hlength : bytes.length using Nat.strongRecOn generalizing bytes with
  | ind length ih =>
      by_cases hshort : bytes.length < width
      · exact ⟨bytes, .rest hshort⟩
      · have hpiece : (bytes.take width).length = width := by
          rw [List.length_take]
          omega
        have hdrop : (bytes.drop width).length < length := by
          rw [List.length_drop]
          omega
        obtain ⟨others, hothers⟩ := ih _ hdrop (bytes.drop width) rfl
        have hgroup := Swapped.group hpiece hothers
        rw [List.take_append_drop] at hgroup
        exact ⟨_, hgroup⟩

theorem Swapped.symm (hswapped : Swapped width bytes others) : Swapped width others bytes := by
  induction hswapped with
  | rest hshort => exact .rest hshort
  | @group piece bytes others hpiece _ ih =>
      have hgroup := Swapped.group (piece.length_reverse.trans hpiece) ih
      rwa [List.reverse_reverse] at hgroup

theorem Swapped.length_eq (hswapped : Swapped width bytes others) :
    others.length = bytes.length := by
  induction hswapped with
  | rest _ => rfl
  | group _ _ ih => rw [List.length_append, List.length_append, List.length_reverse, ih]

theorem chunks_append {piece : List UInt8} (hwidth : 0 < width) (hpiece : piece.length = width)
    (bytes : List UInt8) :
    chunks width ((piece ++ bytes).length / width) (piece ++ bytes) =
      piece :: chunks width (bytes.length / width) bytes := by
  have hcount : (piece ++ bytes).length / width = bytes.length / width + 1 := by
    rw [List.length_append, hpiece, Nat.add_div_left _ hwidth]
  rw [hcount, chunks, ← hpiece, List.take_left, List.drop_left]

theorem Swapped.chunks_eq (hwidth : 0 < width) (hswapped : Swapped width bytes others) :
    chunks width (others.length / width) others =
      (chunks width (bytes.length / width) bytes).map List.reverse := by
  induction hswapped with
  | rest hshort =>
      rw [Nat.div_eq_of_lt hshort]
      rfl
  | @group piece bytes others hpiece _ ih =>
      have hreversed : piece.reverse.length = width := piece.length_reverse.trans hpiece
      rw [chunks_append hwidth hreversed, chunks_append hwidth hpiece, ih, List.map_cons]

end

section

variable {type : ElementType} {bytes others : List UInt8}

theorem ofBytes_eq_ok_iff_dvd (order : ByteOrder) :
    (∃ buffer, Buffer.ofBytes type order bytes = .ok buffer ∧ buffer.type = type) ↔
      type.width ∣ bytes.length := by
  rw [Buffer.ofBytes, Nat.dvd_iff_mod_eq_zero]
  by_cases hwhole : bytes.length % type.width = 0
  · simp [hwhole]
  · simp [hwhole]

theorem ofBytes_of_not_dvd (order : ByteOrder) (hpartial : ¬ type.width ∣ bytes.length) :
    Buffer.ofBytes type order bytes = .error ⟨bytes.length, type⟩ := by
  rw [Buffer.ofBytes, if_neg (mt Nat.dvd_of_mod_eq_zero hpartial)]

theorem readElement_reverse (type : ElementType) (piece : List UInt8) :
    readElement type .little piece.reverse = readElement type .big piece := rfl

theorem ofBytes_big_of_swapped (hswapped : Swapped type.width bytes others) :
    Buffer.ofBytes type .big bytes = Buffer.ofBytes type .little others := by
  have helements : (chunks type.width (others.length / type.width) others).map
      (readElement type .little) =
        (chunks type.width (bytes.length / type.width) bytes).map (readElement type .big) := by
    rw [hswapped.chunks_eq (width_pos type), List.map_map]
    exact List.map_congr_left fun piece _ => readElement_reverse type piece
  rw [Buffer.ofBytes, Buffer.ofBytes]
  dsimp only
  rw [helements, hswapped.length_eq]

def writtenBack (type : ElementType) (byte : UInt8) : UInt8 :=
  if type = .bool ∧ byte ≠ 0 then 1 else byte

theorem toWord_ofWord (hplain : type ≠ .bool) {word : Nat} (hword : word < 256 ^ type.width) :
    type.toWord (type.ofWord word) = word := by
  cases type with
  | bool => exact absurd rfl hplain
  | float16 => exact UInt16.toNat_ofNat_of_lt' hword
  | float32 => exact UInt32.toNat_ofNat_of_lt' hword
  | float64 => exact UInt64.toNat_ofNat_of_lt' hword
  | uint8 => exact UInt8.toNat_ofNat_of_lt' hword
  | int8 => exact UInt8.toNat_ofNat_of_lt' hword
  | int16 => exact UInt16.toNat_ofNat_of_lt' hword
  | int32 => exact UInt32.toNat_ofNat_of_lt' hword
  | int64 => exact UInt64.toNat_ofNat_of_lt' hword

theorem littleEndian_readElement_bool (byte : UInt8) :
    littleEndian 1 (ElementType.toWord .bool (readElement .bool .little [byte])) =
      [writtenBack .bool byte] := by
  by_cases hzero : byte = 0
  · subst hzero
    rfl
  · have hword : ofLittleEndian [byte] ≠ 0 := by
      intro hnone
      exact hzero (UInt8.toNat_inj.mp hnone)
    have helement : readElement .bool .little [byte] = true := bne_iff_ne.mpr hword
    rw [helement, writtenBack, if_pos ⟨rfl, hzero⟩]
    rfl

theorem littleEndian_readElement {piece : List UInt8} (hpiece : piece.length = type.width) :
    littleEndian type.width (type.toWord (readElement type .little piece)) =
      piece.map (writtenBack type) := by
  by_cases hbool : type = .bool
  · subst hbool
    obtain ⟨byte, rfl⟩ := List.length_eq_one_iff.mp hpiece
    exact littleEndian_readElement_bool byte
  · have hsame : ∀ byte, writtenBack type byte = byte :=
      fun byte => if_neg fun hnot => hbool hnot.1
    have hword : ofLittleEndian piece < 256 ^ type.width := hpiece ▸ ofLittleEndian_lt piece
    have helement : type.toWord (readElement type .little piece) = ofLittleEndian piece :=
      toWord_ofWord hbool hword
    rw [helement, List.map_id'' hsame, ← hpiece, littleEndian_ofLittleEndian]

theorem toBytes_of_ofBytes {buffer : Buffer}
    (hbuffer : Buffer.ofBytes type .little bytes = .ok buffer) :
    buffer.toBytes = bytes.map (writtenBack type) := by
  have hwhole : type.width ∣ bytes.length := by
    by_contra hpartial
    rw [ofBytes_of_not_dvd .little hpartial] at hbuffer
    exact absurd hbuffer (by simp)
  have hlength : bytes.length = bytes.length / type.width * type.width :=
    (Nat.div_mul_cancel hwhole).symm
  rw [Buffer.ofBytes, if_pos (Nat.mod_eq_zero_of_dvd hwhole), Except.ok.injEq] at hbuffer
  have hpieces : ∀ piece ∈ chunks type.width (bytes.length / type.width) bytes,
      littleEndian type.width (type.toWord (readElement type .little piece)) =
        piece.map (writtenBack type) :=
    fun piece hmem => littleEndian_readElement (length_of_mem_chunks hlength piece hmem)
  rw [← hbuffer, Buffer.toBytes, List.flatMap_map, List.flatMap_def, List.map_congr_left hpieces,
    ← List.map_flatten, flatten_chunks hlength]

end

/-- What is read from bytes as elements of a type. -/
structure ReadsBytes (type : ElementType) (bytes : List UInt8) : Prop where
  accepted : ∀ order,
    (∃ buffer, Buffer.ofBytes type order bytes = .ok buffer ∧ buffer.type = type) ↔
      type.width ∣ bytes.length
  refused : ∀ order, ¬ type.width ∣ bytes.length →
    Buffer.ofBytes type order bytes = .error ⟨bytes.length, type⟩
  exists_swapped : ∃ others, Swapped type.width bytes others
  swapped : ∀ others, Swapped type.width bytes others →
    Buffer.ofBytes type .big bytes = Buffer.ofBytes type .little others
  written : ∀ buffer, Buffer.ofBytes type .little bytes = .ok buffer →
    buffer.toBytes = bytes.map (writtenBack type)

theorem readsBytes (type : ElementType) (bytes : List UInt8) : ReadsBytes type bytes where
  accepted := ofBytes_eq_ok_iff_dvd
  refused order hpartial := ofBytes_of_not_dvd order hpartial
  exists_swapped := exists_swapped (width_pos type) bytes
  swapped _ hswapped := ofBytes_big_of_swapped hswapped
  written _ hbuffer := toBytes_of_ofBytes hbuffer

end Apportion.Proofs.Tensor.SwappedBytes
