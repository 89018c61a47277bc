import Apportion.Json.Faults
import Apportion.Number.DecimalReading

namespace Apportion.Json.Scalars

open Apportion.Number.Binary
open Apportion.Number.Shortest
open Apportion.Number.DecimalReading
open Apportion.Text.Mismatches
open Apportion.Json.Faults

def isBlank (character : Char) : Bool :=
  character == ' ' || character == '\t' || character == '\n' || character == '\r'

def skipBlanks (text : List Char) : List Char :=
  text.dropWhile isBlank

def readWord : List Char → List Char → Except JsonError (List Char)
  | [], text => .ok text
  | _ :: _, [] => .error .unfinished
  | letter :: letters, character :: rest =>
      if character = letter then readWord letters rest else .error .malformed

def hexValue? (character : Char) : Option Nat :=
  if character.isDigit then some (character.toNat - 48)
  else if 'a' ≤ character ∧ character ≤ 'f' then some (character.toNat - 87)
  else if 'A' ≤ character ∧ character ≤ 'F' then some (character.toNat - 55)
  else none

def unit? (a b c d : Char) : Option Nat :=
  match hexValue? a, hexValue? b, hexValue? c, hexValue? d with
  | some a, some b, some c, some d => some (a * 4096 + b * 256 + c * 16 + d)
  | _, _, _, _ => none

def isLeading (unit : Nat) : Bool :=
  0xd800 ≤ unit && unit < 0xdc00

def isTrailing (unit : Nat) : Bool :=
  0xdc00 ≤ unit && unit < 0xe000

def pairCharacter (leading trailing : Nat) : Char :=
  Char.ofNat (0x10000 + (leading - 0xd800) * 0x400 + (trailing - 0xdc00))

def escaped? : Char → Option Char
  | '"' => some '"'
  | '\\' => some '\\'
  | '/' => some '/'
  | 'b' => some (Char.ofNat 8)
  | 'f' => some (Char.ofNat 12)
  | 'n' => some '\n'
  | 'r' => some '\r'
  | 't' => some '\t'
  | _ => none

/-- The error for an escape that lacks some of its four digits: the text ends, unless its last
characters take four bytes all the same. -/
def shortEscape (rest : List Char) : JsonError :=
  if (String.ofList (rest.take 4)).utf8ByteSize < 4 then .unfinished else .malformed

def prepend (character : Char) (read : Except JsonError (List Char × List Char)) :
    Except JsonError (List Char × List Char) :=
  read.map fun parts => (character :: parts.1, parts.2)

/-- Read the characters of a text up to its closing quotation mark. A trailing unit without a
leading one before it is refused, and so is a leading one without a trailing one after it. -/
def readCharacters : Reader (List Char)
  | [] => .error .unfinished
  | '"' :: rest => .ok ([], rest)
  | ['\\'] => .error .unfinished
  | '\\' :: 'u' :: a :: b :: c :: d :: rest =>
      match unit? a b c d with
      | none => .error .malformed
      | some unit =>
          if isTrailing unit then .error .malformed
          else if isLeading unit then
            match rest with
            | [] => .error .unfinished
            | ['\\'] => .error .unfinished
            | '\\' :: 'u' :: e :: f :: g :: h :: rest =>
                match unit? e f g h with
                | none => .error .malformed
                | some trailing =>
                    if isTrailing trailing then
                      prepend (pairCharacter unit trailing) (readCharacters rest)
                    else .error .malformed
            | '\\' :: 'u' :: rest => .error (shortEscape rest)
            | _ => .error .malformed
          else prepend (Char.ofNat unit) (readCharacters rest)
  | '\\' :: 'u' :: rest => .error (shortEscape rest)
  | '\\' :: character :: rest =>
      match escaped? character with
      | some escaped => prepend escaped (readCharacters rest)
      | none => .error .malformed
  | character :: rest =>
      if character < ' ' then .error .malformed else prepend character (readCharacters rest)

def readText : Reader String := fun text => do
  let (characters, rest) ← readCharacters text
  return (String.ofList characters, rest)

/-- A number in a document. Only numbers without fraction and exponent that fit into 64 bits are
integers, and minus zero is none. -/
inductive Number where
  | integer (value : Int)
  | real (word : UInt64)
  deriving DecidableEq, Repr

def Number.found : Number → Found
  | .integer value => .integer value
  | .real word => .real word

def Number.word : Number → UInt64
  | .integer value => UInt64.ofNat (double.ofInt value)
  | .real word => word

/-- Append digits to a significand for as long as it fits into 64 bits. The digits from the first
one on that does not fit are left over. -/
def appendDigits (significand : Nat) : List Char → Nat × List Char
  | [] => (significand, [])
  | digit :: rest =>
      let longer := Nat.ofDigitChars 10 [digit] significand
      if longer < UInt64.size then appendDigits longer rest else (significand, digit :: rest)

/-- The decimal that digits before and behind the point are taken for. Digits that are left over
count as zeros before the point and do not count behind it. -/
def packDigits (whole fraction : List Char) : Decimal :=
  let (leading, dropped) := appendDigits 0 whole
  let (significand, ignored) := appendDigits leading fraction
  ⟨significand, dropped.length - (fraction.length - ignored.length)⟩

def readReal (negative : Bool) (decimal : Decimal) : Except JsonError Number :=
  match doubleOfDecimal? decimal with
  | some magnitude =>
      .ok (.real (UInt64.ofNat (double.signed negative magnitude.toBits.toNat)))
  | none => .error .malformed

def readWhole (negative : Bool) (digits : List Char) : Except JsonError Number :=
  let decimal := packDigits digits []
  if decimal.exponent = 0 then
    if negative then
      if 0 < decimal.digits ∧ decimal.digits ≤ 0x8000000000000000 then
        .ok (.integer (-decimal.digits))
      else readReal true decimal
    else .ok (.integer decimal.digits)
  else readReal negative decimal

def readExponent (negative : Bool) (decimal : Decimal) : Reader Number
  | mark :: rest =>
      if mark = 'e' ∨ mark = 'E' then
        let (below, rest) : Bool × List Char :=
          match rest with
          | '-' :: rest => (true, rest)
          | '+' :: rest => (false, rest)
          | _ => (false, rest)
        match rest with
        | [] => .error .unfinished
        | first :: _ =>
            if first.isDigit then do
              let size := Nat.ofDigitChars 10 (rest.takeWhile Char.isDigit) 0
              let power : Int := if below then -(size : Int) else size
              let number ← readReal negative (decimal.shift power)
              return (number, rest.dropWhile Char.isDigit)
            else .error .malformed
      else (readReal negative decimal).map (·, mark :: rest)
  | [] => (readReal negative decimal).map (·, [])

def readFraction (negative : Bool) (whole : List Char) : Reader Number
  | [] => (readWhole negative whole).map (·, [])
  | mark :: rest =>
      if mark = '.' then
        let fraction := rest.takeWhile Char.isDigit
        if fraction.isEmpty then .error (if rest.isEmpty then .unfinished else .malformed)
        else readExponent negative (packDigits whole fraction) (rest.dropWhile Char.isDigit)
      else if mark = 'e' ∨ mark = 'E' then
        readExponent negative (packDigits whole []) (mark :: rest)
      else (readWhole negative whole).map (·, mark :: rest)

def readMagnitude (negative : Bool) : Reader Number
  | [] => .error .unfinished
  | first :: rest =>
      if first = '0' then
        if (rest.head?.map Char.isDigit).getD false then .error .malformed
        else readFraction negative ['0'] rest
      else if first.isDigit then
        readFraction negative (first :: rest.takeWhile Char.isDigit) (rest.dropWhile Char.isDigit)
      else .error .malformed

def readNumber : Reader Number
  | '-' :: rest => readMagnitude true rest
  | text => readMagnitude false text

def startsNumber (character : Char) : Bool :=
  character == '-' || character.isDigit

end Apportion.Json.Scalars
