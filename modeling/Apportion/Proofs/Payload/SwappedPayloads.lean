import Apportion.Proofs.Payload.WrittenPayload
import Apportion.Proofs.Tensor.SwappedBytes

namespace Apportion.Proofs.Payload.SwappedPayloads

open Apportion.Bytes
open Apportion.MessagePack.Heads
open Apportion.Payload.Decoding
open Apportion.Payload.Descriptors
open Apportion.Payload.Encoding
open Apportion.Tensor.Buffers
open Apportion.Tensor.Elements
open Apportion.Proofs.Outcomes
open Apportion.Proofs.MessagePack.Spellings
open Apportion.Proofs.MessagePack.Delimiting
open Apportion.Proofs.Payload.Layouts
open Apportion.Proofs.Payload.WrittenPayload
open Apportion.Proofs.Tensor.BufferBytes
open Apportion.Proofs.Tensor.SwappedBytes

/-- The entries of two payloads that differ in nothing but the order of their elements' bytes. -/
structure OrderTwins (type : ElementType) (entries others : List Entry) : Prop where
  isArray_eq : lastOf Entry.isArray? others = lastOf Entry.isArray? entries
  shape_eq : lastOf Entry.shape? others = lastOf Entry.shape? entries
  lowestFirst : lastOf Entry.descriptor? entries = some ("<" ++ code type)
  highestFirst : lastOf Entry.descriptor? others = some (">" ++ code type)
  data : ∃ bytes swapped, lastOf Entry.data? entries = some bytes ∧
    lastOf Entry.data? others = some swapped ∧ Swapped type.width bytes swapped

theorem parse?_lowestFirst (type : ElementType) :
    parse? ("<" ++ code type) = some (type, .little) := by
  cases type <;> decide

theorem parse?_highestFirst (type : ElementType) :
    parse? (">" ++ code type) = some (type, .big) := by
  cases type <;> decide

theorem buffer_eq_of_swapped {type : ElementType} {isArray : Bool} {shape? : Option (List Nat)}
    {bytes swapped : List UInt8} (hswapped : Swapped type.width bytes swapped) :
    Parts.buffer ⟨isArray, ">" ++ code type, shape?, swapped⟩ =
      Parts.buffer ⟨isArray, "<" ++ code type, shape?, bytes⟩ := by
  simp only [Parts.buffer, parse?_lowestFirst, parse?_highestFirst,
    ofBytes_big_of_swapped hswapped.symm]

theorem decode_eq_of_parts {bytes others : List UInt8} {parts twin : Parts}
    (hparts : readParts bytes = .ok parts) (htwin : readParts others = .ok twin)
    (hbuffer : twin.buffer = parts.buffer) (hshape : twin.shape = parts.shape) :
    decode others = decode bytes := by
  rw [decode, decode, hparts, htwin]
  simp only [mapError_ok, ok_bind, hbuffer, hshape]

theorem decode_of_orderTwins {type : ElementType} {entries others : List Entry}
    (htwins : OrderTwins type entries others) {payload twin : List UInt8}
    (hpayload : LaidOut entries payload) (htwin : LaidOut others twin) (rest after : List UInt8) :
    decode (twin ++ after) = decode (payload ++ rest) := by
  obtain ⟨harray, hshape, hlowest, hhighest, bytes, swapped, hbytes, hothers, hswapped⟩ := htwins
  have hread := readParts_whole hpayload rest
  have hreadTwin := readParts_whole htwin after
  cases hgiven : lastOf Entry.isArray? entries with
  | none =>
      rw [hgiven] at harray
      simp only [Entries.parts, lastEntries, hgiven] at hread
      simp only [Entries.parts, lastEntries, harray] at hreadTwin
      rw [decode, decode, hread, hreadTwin]
  | some isArray =>
      rw [hgiven] at harray
      rw [parts_lastEntries hgiven hlowest hbytes] at hread
      rw [parts_lastEntries harray hhighest hothers, hshape] at hreadTwin
      exact decode_eq_of_parts hread hreadTwin (buffer_eq_of_swapped hswapped) rfl

/-- Both orders read the same elements from bytes that are each other's reverse, element by element,
and so do the payloads that hold them. What is read is written back, and what is written is read. -/
theorem elements_of_either_order :
    (∀ type bytes, ReadsBytes type bytes) ∧
      (∀ buffer : Buffer, Buffer.ofBytes buffer.type .little buffer.toBytes = .ok buffer) ∧
      ∀ {type entries others payload twin}, OrderTwins type entries others →
        LaidOut entries payload → LaidOut others twin →
          ∀ rest after, decode (twin ++ after) = decode (payload ++ rest) := by
  refine ⟨readsBytes, ofBytes_toBytes, ?_⟩
  intro type entries others payload twin htwins hpayload htwin rest after
  exact decode_of_orderTwins htwins hpayload htwin rest after

def swappedEntries : List Entry :=
  [.shape [2], .isArray true, .data [0, 1, 255, 254], .descriptor ">i2"]

def swappedPayload : List UInt8 :=
  writeMapHead 4 ++
    [writeKey "shape" ++ writeShape [2], writeKey "nd" ++ writeBoolean true,
    writeKey "data" ++ writeBinary [0, 1, 255, 254],
    writeKey "type" ++ writeShortText ">i2"].flatten

theorem laidOut_swappedPayload : LaidOut swappedEntries swappedPayload := by
  have hkey : ∀ key ∈ ["nd", "type", "shape", "data"], StringForm (ofText key) (writeKey key) := by
    have hlength : ∀ key ∈ ["nd", "type", "shape", "data"], (ofText key).length < 2 ^ 32 := by
      decide
    exact fun key hmem => stringForm_writeBinary (hlength key hmem)
  refine .map (spelled_writeMapHead (show 4 < 16 by decide)) ?_
  refine .cons (.shape (hkey _ (by simp)) (numbersForm_writeShape (by decide) (by decide))) ?_
  refine .cons (.isArray (hkey _ (by simp)) (spelled_writeBoolean true)) ?_
  refine .cons (.data (hkey _ (by simp)) (.string (stringForm_writeBinary (by decide)))) ?_
  exact .cons (.descriptor (hkey _ (by simp)) (stringForm_writeShortText (by decide))) .nil

theorem elements_of_either_order_pair :
    OrderTwins .int16 pairEntries swappedEntries ∧ LaidOut pairEntries pairBytes ∧
      LaidOut swappedEntries swappedPayload ∧
      decode (swappedPayload ++ [0xc1]) = .ok pair ∧ ReadsBytes .bool [0, 7] := by
  have hswapped : Swapped 2 ([1, 0] ++ ([254, 255] ++ [])) ([0, 1] ++ ([255, 254] ++ [])) :=
    .group rfl (.group rfl (.rest (by decide)))
  have htwins : OrderTwins .int16 pairEntries swappedEntries :=
    ⟨rfl, rfl, rfl, rfl, _, _, rfl, rfl, hswapped⟩
  have hpair : decode (pairBytes ++ []) = .ok pair := rfl
  refine ⟨htwins, laidOut_pairBytes, laidOut_swappedPayload, ?_, elements_of_either_order.1 _ _⟩
  rw [← hpair]
  exact elements_of_either_order.2.2 htwins laidOut_pairBytes laidOut_swappedPayload [] [0xc1]

end Apportion.Proofs.Payload.SwappedPayloads
