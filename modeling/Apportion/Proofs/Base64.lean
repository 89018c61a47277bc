import Mathlib.Data.List.GetD
import Apportion.Base64
import Apportion.Proofs.Bytes
import Apportion.Proofs.Outcomes

namespace Apportion.Proofs.Base64

open Apportion.Base64
open Apportion.Bytes
open Apportion.Proofs.Bytes
open Apportion.Proofs.Outcomes

def symbolByte (number : Nat) : UInt8 :=
  UInt8.ofNat (symbol number).toNat

theorem number?_symbolByte {number : Nat} (hbound : number < 64) :
    number? (symbolByte number) = some number := by
  have hall : ∀ number : Fin 64, number? (symbolByte number) = some number.val := by
    decide +kernel
  exact hall ⟨number, hbound⟩

theorem symbolByte_ne_padding (number : Nat) : symbolByte number ≠ padding := by
  by_cases hbound : number < 64
  · intro hpadding
    have hnumber := number?_symbolByte hbound
    rw [hpadding, show number? padding = none by decide] at hnumber
    exact absurd hnumber (by simp)
  · have hdefault : symbol number = 'A' := by
      rw [symbol, List.getD_eq_default]
      exact Nat.le_of_not_lt hbound
    rw [symbolByte, hdefault]
    decide

theorem symbol_toNat_lt (number : Nat) : (symbol number).toNat < 128 := by
  have hall : (alphabet.all fun character => decide (character.toNat < 128)) = true := by decide
  by_cases hbound : number < alphabet.length
  · rw [symbol, List.getD_eq_getElem _ _ hbound]
    exact of_decide_eq_true (List.all_eq_true.mp hall _ (List.getElem_mem hbound))
  · rw [symbol, List.getD_eq_default _ _ (Nat.le_of_not_lt hbound)]
    decide

theorem toNat_lt_of_mem_encode {bytes : List UInt8} {character : Char}
    (hmem : character ∈ encode bytes) : character.toNat < 128 := by
  have hfill : '='.toNat < 128 := by decide
  induction bytes using encode.induct with
  | case1 => simp [encode] at hmem
  | case2 a =>
      simp only [encode, List.mem_cons, List.not_mem_nil, or_false] at hmem
      rcases hmem with rfl | rfl | rfl | rfl <;> first | exact symbol_toNat_lt _ | exact hfill
  | case3 a b =>
      simp only [encode, List.mem_cons, List.not_mem_nil, or_false] at hmem
      rcases hmem with rfl | rfl | rfl | rfl <;> first | exact symbol_toNat_lt _ | exact hfill
  | case4 a b c rest ih =>
      simp only [encode, List.mem_cons] at hmem
      rcases hmem with rfl | rfl | rfl | rfl | hrest
      · exact symbol_toNat_lt _
      · exact symbol_toNat_lt _
      · exact symbol_toNat_lt _
      · exact symbol_toNat_lt _
      · exact ih hrest

def textBytes (bytes : List UInt8) : List UInt8 :=
  (encode bytes).map fun character => UInt8.ofNat character.toNat

theorem ofText_ofList_encode (bytes : List UInt8) :
    ofText (String.ofList (encode bytes)) = textBytes bytes :=
  ofText_ofList_of_ascii fun _ hmem => toNat_lt_of_mem_encode hmem

theorem length_textBytes_mod (bytes : List UInt8) : (textBytes bytes).length % 4 = 0 := by
  rw [textBytes, List.length_map]
  induction bytes using encode.induct with
  | case1 => rfl
  | case2 a => simp [encode]
  | case3 a b => simp [encode]
  | case4 a b c rest ih =>
      simp only [encode, List.length_cons]
      omega

theorem textBytes_ne_nil {bytes : List UInt8} (hsome : bytes ≠ []) : textBytes bytes ≠ [] := by
  rw [textBytes]
  fun_cases encode bytes with
  | case1 => exact absurd rfl hsome
  | case2 a => simp
  | case3 a b => simp
  | case4 a b c rest => simp

theorem numbersFrom_map_symbolByte (offset : Nat) {numbers : List Nat}
    (hbound : ∀ number ∈ numbers, number < 64) :
    numbersFrom offset (numbers.map symbolByte) = .ok numbers := by
  induction numbers generalizing offset with
  | nil => rfl
  | cons number numbers ih =>
      have hfirst : numberAt offset (symbolByte number) = .ok number := by
        rw [numberAt, number?_symbolByte (hbound number (by simp))]
      rw [List.map_cons, numbersFrom, hfirst, ok_bind,
        ih (offset + 1) fun other hmem => hbound other (by simp [hmem])]
      rfl

theorem decodeLast_symbols (offset : Nat) (numbers : List Nat) (filling : Nat)
    (hbound : ∀ number ∈ numbers, number < 64) (hsymbols : 2 ≤ numbers.length)
    (hfilled : numbers.length + filling = 4) (hclean : (lastBytes numbers).2 = true) :
    decodeLast offset (numbers.map symbolByte ++ List.replicate filling padding) =
      .ok (lastBytes numbers).1 := by
  have htaken : (numbers.map symbolByte ++ List.replicate filling padding).takeWhile
      (· != padding) = numbers.map symbolByte := by
    rw [List.takeWhile_append_of_pos]
    · cases filling with
      | zero => simp
      | succ filling => simp [List.replicate_succ]
    · intro byte hmem
      obtain ⟨number, _, rfl⟩ := List.mem_map.mp hmem
      simpa using symbolByte_ne_padding number
  have hnone : (List.replicate filling padding).any (· != padding) = false := by simp
  have hdropped : (numbers.map symbolByte ++ List.replicate filling padding).drop numbers.length =
      List.replicate filling padding := List.drop_left' (List.length_map symbolByte)
  simp only [decodeLast, htaken, List.length_map, hdropped,
    numbersFrom_map_symbolByte offset hbound, ok_bind, hnone, List.length_append,
    List.length_replicate, hfilled, hclean]
  rw [if_neg (by omega), if_neg (by simp), if_neg (by omega), if_neg (by omega), if_neg (by simp)]
  rfl

theorem groupBytes_of_three (a b c : UInt8) :
    groupBytes (a.toNat / 4) (a.toNat % 4 * 16 + b.toNat / 16) (b.toNat % 16 * 4 + c.toNat / 64)
      (c.toNat % 64) = [a, b, c] := by
  have ha := a.toNat_lt
  have hb := b.toNat_lt
  have hc := c.toNat_lt
  have hfirst : a.toNat / 4 * 4 + (a.toNat % 4 * 16 + b.toNat / 16) / 16 = a.toNat := by omega
  have hsecond : (a.toNat % 4 * 16 + b.toNat / 16) % 16 * 16 +
      (b.toNat % 16 * 4 + c.toNat / 64) / 4 = b.toNat := by omega
  have hthird : (b.toNat % 16 * 4 + c.toNat / 64) % 4 * 64 + c.toNat % 64 = c.toNat := by omega
  rw [groupBytes, hfirst, hsecond, hthird, UInt8.ofNat_toNat, UInt8.ofNat_toNat, UInt8.ofNat_toNat]

theorem decodeLast_one (offset : Nat) (a : UInt8) :
    decodeLast offset (textBytes [a]) = .ok [a] := by
  have ha := a.toNat_lt
  have hlast := decodeLast_symbols offset [a.toNat / 4, a.toNat % 4 * 16] 2 (by simp; omega)
    (by simp) (by simp) (by simp [lastBytes])
  have hbyte : a.toNat / 4 * 4 + a.toNat % 4 * 16 / 16 = a.toNat := by omega
  rw [lastBytes, groupBytes, hbyte, UInt8.ofNat_toNat] at hlast
  exact hlast

theorem decodeLast_two (offset : Nat) (a b : UInt8) :
    decodeLast offset (textBytes [a, b]) = .ok [a, b] := by
  have ha := a.toNat_lt
  have hb := b.toNat_lt
  have hlast := decodeLast_symbols offset
    [a.toNat / 4, a.toNat % 4 * 16 + b.toNat / 16, b.toNat % 16 * 4] 1 (by simp; omega) (by simp)
    (by simp) (by simp [lastBytes])
  have hfirst : a.toNat / 4 * 4 + (a.toNat % 4 * 16 + b.toNat / 16) / 16 = a.toNat := by omega
  have hsecond : (a.toNat % 4 * 16 + b.toNat / 16) % 16 * 16 + b.toNat % 16 * 4 / 4 = b.toNat := by
    omega
  rw [lastBytes, groupBytes, hfirst, hsecond, UInt8.ofNat_toNat, UInt8.ofNat_toNat] at hlast
  exact hlast

theorem decodeLast_three (offset : Nat) (a b c : UInt8) :
    decodeLast offset (textBytes [a, b, c]) = .ok [a, b, c] := by
  have ha := a.toNat_lt
  have hb := b.toNat_lt
  have hc := c.toNat_lt
  have hlast := decodeLast_symbols offset
    [a.toNat / 4, a.toNat % 4 * 16 + b.toNat / 16, b.toNat % 16 * 4 + c.toNat / 64, c.toNat % 64] 0
    (by simp; omega) (by simp) (by simp) (by simp [lastBytes])
  rw [lastBytes, groupBytes_of_three] at hlast
  exact hlast

theorem decodeFrom_group (offset : Nat) (a b c : UInt8) {rest : List UInt8} (hsome : rest ≠ []) :
    decodeFrom offset (textBytes (a :: b :: c :: rest)) =
      (decodeFrom (offset + 4) (textBytes rest)).map ([a, b, c] ++ ·) := by
  have ha := a.toNat_lt
  have hb := b.toNat_lt
  have hc := c.toNat_lt
  obtain ⟨next, others, htext⟩ := List.exists_cons_of_ne_nil (textBytes_ne_nil hsome)
  have hnumber : ∀ (place number : Nat), number < 64 →
      numberAt place (symbolByte number) = .ok number := by
    intro place number hbound
    rw [numberAt, number?_symbolByte hbound]
  change decodeFrom offset (symbolByte (a.toNat / 4) ::
    symbolByte (a.toNat % 4 * 16 + b.toNat / 16) :: symbolByte (b.toNat % 16 * 4 + c.toNat / 64) ::
    symbolByte (c.toNat % 64) :: textBytes rest) = _
  rw [htext, decodeFrom, hnumber _ _ (by omega), hnumber _ _ (by omega), hnumber _ _ (by omega),
    hnumber _ _ (by omega)]
  simp only [ok_bind, groupBytes_of_three]
  cases decodeFrom (offset + 4) (next :: others) with
  | error cause => rfl
  | ok bytes => rfl

theorem decodeFrom_textBytes (offset : Nat) {bytes : List UInt8} (hsome : bytes ≠ []) :
    decodeFrom offset (textBytes bytes) = .ok bytes := by
  induction bytes using encode.induct generalizing offset with
  | case1 => exact absurd rfl hsome
  | case2 a => exact decodeLast_one offset a
  | case3 a b => exact decodeLast_two offset a b
  | case4 a b c rest ih =>
      by_cases hlast : rest = []
      · rw [hlast]
        exact decodeLast_three offset a b c
      · rw [decodeFrom_group offset a b c hlast, ih (offset + 4) hlast]
        rfl

theorem decode_textBytes (bytes : List UInt8) : decode (textBytes bytes) = .ok bytes := by
  have hend : strayEnd (textBytes bytes) = none := by
    rw [strayEnd]
    split
    · rw [if_neg]
      rintro ⟨hcount, _⟩
      rw [length_textBytes_mod] at hcount
      exact absurd hcount (by omega)
    · rfl
  rw [decode, hend]
  by_cases hnone : bytes = []
  · rw [hnone]
    rfl
  · exact decodeFrom_textBytes 0 hnone

theorem decode_encode (bytes : List UInt8) :
    decode (ofText (String.ofList (encode bytes))) = .ok bytes := by
  rw [ofText_ofList_encode, decode_textBytes]

end Apportion.Proofs.Base64
