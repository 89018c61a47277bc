import Apportion.Number.Shortest

namespace Apportion.Number.DecimalText

open Apportion.Number.Binary
open Apportion.Number.Shortest

def digitChars (count : Nat) : List Char :=
  Nat.toDigits 10 count

/-- A decimal written out with a decimal point, the point left away after a whole number. -/
def positional (decimal : Decimal) : List Char :=
  let digits := digitChars decimal.digits
  if 0 ≤ decimal.exponent then digits ++ List.replicate decimal.exponent.toNat '0'
  else
    let places := (-decimal.exponent).toNat
    if places < digits.length then
      digits.take (digits.length - places) ++ '.' :: digits.drop (digits.length - places)
    else '0' :: '.' :: (List.replicate (places - digits.length) '0' ++ digits)

def scientific (decimal : Decimal) : List Char :=
  let digits := digitChars decimal.digits
  let exponent := decimal.exponent + digits.length - 1
  let mantissa :=
    match digits with
    | leading :: second :: rest => leading :: '.' :: second :: rest
    | _ => digits
  let sign := if exponent < 0 then '-' else '+'
  mantissa ++ 'e' :: sign :: digitChars exponent.natAbs

/-- Plain spelling, as in messages: never an exponent, and no point in a whole number. -/
def plainMagnitude (significand : Nat) (exponent : Int) : List Char :=
  if significand = 0 then ['0']
  else positional (shortest .up double significand exponent)

/-- Spelling of a JSON number that is not an integer: at least one decimal place from `1e-5` up to
`1e16`, an exponent outside. -/
def jsonMagnitude (significand : Nat) (exponent : Int) : List Char :=
  if significand = 0 then ['0', '.', '0']
  else
    let decimal := shortest .even double significand exponent
    let point := decimal.exponent + (digitChars decimal.digits).length
    if -5 < point ∧ point ≤ 16 then
      if 0 ≤ decimal.exponent then positional decimal ++ ['.', '0'] else positional decimal
    else scientific decimal

def wordText (magnitude : Nat → Int → List Char) (infinite undefined : String)
    (word : UInt64) : String :=
  let signed := fun (negative : Bool) (text : List Char) =>
    String.ofList (if negative then '-' :: text else text)
  match double.decode word.toNat with
  | .finite negative significand exponent => signed negative (magnitude significand exponent)
  | .infinite negative => signed negative infinite.toList
  | .undefined _ _ => undefined

/-- How messages name a number. -/
def plainText (word : UInt64) : String :=
  wordText plainMagnitude "inf" "NaN" word

def pointedMagnitude (significand : Nat) (exponent : Int) : List Char :=
  let text := plainMagnitude significand exponent
  if text.contains '.' then text else text ++ ['.', '0']

def pointedText (word : UInt64) : String :=
  wordText pointedMagnitude "inf" "NaN" word

def jsonText (word : UInt64) : String :=
  wordText jsonMagnitude "inf" "NaN" word

end Apportion.Number.DecimalText
