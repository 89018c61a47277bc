import Apportion.Number.Binary

/-!
The shortest decimal that reads back as a given binary number. A decimal reads back if it lies in
the interval of numbers that round to the binary one; of the shortest such decimals the nearest is
taken.
-/

namespace Apportion.Number.Shortest

open Apportion.Number.Binary

/-- The number `digits * 10 ^ exponent`. -/
structure Decimal where
  digits : Nat
  exponent : Int
  deriving DecidableEq, Repr

def Decimal.shift (decimal : Decimal) (power : Int) : Decimal :=
  ⟨decimal.digits, decimal.exponent + power⟩

/-- Which of two equally near decimals is taken. -/
inductive Tie where
  | up
  | even
  deriving DecidableEq, Repr

/-- A positive number and the ends of the interval that rounds to it, in units of
`2 ^ exponent`. The ends belong to the interval if `closed` holds. -/
structure Interval where
  low : Nat
  value : Nat
  high : Nat
  exponent : Int
  closed : Bool
  deriving DecidableEq, Repr

/-- The interval of the numbers that round to `significand * 2 ^ exponent`. Below a power of two
the neighbours are half as far apart, unless the exponent is already the least one. -/
def interval (format : BinaryFormat) (significand : Nat) (exponent : Int) : Interval :=
  let atPower := significand = 2 ^ format.fractionBits ∧ format.leastExponent < exponent
  { low := 4 * significand - (if atPower then 1 else 2)
    value := 4 * significand
    high := 4 * significand + 2
    exponent := exponent - 2
    closed := significand % 2 = 0 }

/-- The positions of an interval and of the multiples of `10 ^ place`, measured in one unit: a
multiple `d` lies at `d * step` and a number `x` of the interval at `x * scale`. -/
structure Grid where
  step : Nat
  scale : Nat

def grid (range : Interval) (place : Int) : Grid :=
  { step := 10 ^ place.toNat * 2 ^ (-range.exponent).toNat
    scale := 2 ^ range.exponent.toNat * 10 ^ (-place).toNat }

def reads (range : Interval) (grid : Grid) (multiple : Nat) : Bool :=
  let position := multiple * grid.step
  let low := range.low * grid.scale
  let high := range.high * grid.scale
  if range.closed then low ≤ position && position ≤ high else low < position && position < high

/-- The nearest multiple of `10 ^ place` that lies in the interval. Only the two multiples beside
the value can be nearest. -/
def nearestMultiple (tie : Tie) (range : Interval) (place : Int) : Option Nat :=
  let grid := grid range place
  let value := range.value * grid.scale
  let below := value / grid.step
  let above := below + 1
  match reads range grid below, reads range grid above with
  | false, false => none
  | true, false => some below
  | false, true => some above
  | true, true =>
      let rest := 2 * (value % grid.step)
      if rest < grid.step then some below
      else if grid.step < rest then some above
      else
        match tie with
        | .up => some above
        | .even => some (below + below % 2)

/-- Where the decimal point of a positive number `value * 2 ^ exponent` lies: the number is below
`10 ^ place`, and not below a tenth of that. -/
def pointPlace (value : Nat) (exponent : Int) : Int :=
  let numerator := value * 2 ^ exponent.toNat
  let denominator := 2 ^ (-exponent).toNat
  let estimate : Int :=
    (Nat.toDigits 10 numerator).length - (Nat.toDigits 10 denominator).length
  if numerator * 10 ^ (-estimate).toNat < denominator * 10 ^ estimate.toNat then estimate
  else estimate + 1

def firstMultiple (tie : Tie) (range : Interval) : List Int → Option Decimal
  | [] => none
  | place :: places =>
      match nearestMultiple tie range place with
      | some multiple => some ⟨multiple, place⟩
      | none => firstMultiple tie range places

def exactDecimal (value : Nat) (exponent : Int) : Decimal :=
  ⟨value * 2 ^ exponent.toNat * 5 ^ (-exponent).toNat, min exponent 0⟩

def Decimal.stripZeros : Nat → Decimal → Decimal
  | 0, decimal => decimal
  | fuel + 1, decimal =>
      if decimal.digits ≠ 0 ∧ decimal.digits % 10 = 0 then
        stripZeros fuel ⟨decimal.digits / 10, decimal.exponent + 1⟩
      else decimal

/-- The shortest decimal that reads back as the positive number `significand * 2 ^ exponent`. The
grids grow finer by one digit each, and seventeen digits always suffice for double precision. -/
def shortest (tie : Tie) (format : BinaryFormat) (significand : Nat) (exponent : Int) : Decimal :=
  let range := interval format significand exponent
  let point := pointPlace significand exponent
  let places := (List.range 17).map fun count : Nat => point - (count + 1)
  let found := (firstMultiple tie range places).getD (exactDecimal significand exponent)
  found.stripZeros 20

end Apportion.Number.Shortest
