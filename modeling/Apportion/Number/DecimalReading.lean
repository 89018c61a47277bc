import Apportion.Number.Shortest

namespace Apportion.Number.DecimalReading

open Apportion.Number.Binary
open Apportion.Number.Shortest

def nearestDouble (count : Nat) : Float :=
  Float.ofBits (UInt64.ofNat (double.nearest count 1))

def largestPower : Nat := 308

def powerOfTen (size : Nat) : Float :=
  nearestDouble (10 ^ size)

/-- Divide by the largest power of ten so many times, but never go on from zero. -/
def divideDown : Nat → Float → Float
  | 0, number => number
  | steps + 1, number =>
      if number == 0 then number else divideDown steps (number / powerOfTen largestPower)

def scaleDown (number : Float) (size : Nat) : Float :=
  let steps := (size - 1) / largestPower
  divideDown steps number / powerOfTen (size - steps * largestPower)

def scaleUp (number : Float) (size : Nat) : Option Float :=
  if size ≤ largestPower then
    let product := number * powerOfTen size
    if product.isInf then none else some product
  else if number == 0 then some number else none

/-- The double that a decimal is read as. Its digits are rounded to a double first, and every
multiplication or division by a power of ten rounds again, so that it need not be the double
nearest to the decimal. -/
def doubleOfDecimal? (decimal : Decimal) : Option Float :=
  let number := nearestDouble decimal.digits
  if 0 ≤ decimal.exponent then scaleUp number decimal.exponent.toNat
  else some (scaleDown number (-decimal.exponent).toNat)

end Apportion.Number.DecimalReading
