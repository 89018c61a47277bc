/-!
The numbers that weights are held in. Every rule on weights is written once over `Scalar` and
read twice: over `Float` it is what runs, over `Rat` it is the rule without rounding.
-/

namespace Apportion.Number.Arithmetic

/-- The operations that the rules on weights use. They are applied in the order in which a rule
writes them, so that over `Float` each of them rounds exactly where the rule says. -/
class Scalar (α : Type) extends Zero α, One α, Add α, Sub α, Mul α, Div α, LT α, LE α, BEq α where
  decidableLT : DecidableLT α
  decidableLE : DecidableLE α
  /-- The nearest number to a count. -/
  ofNat : Nat → α
  isFinite : α → Bool
  /-- The whole part of a number that is not negative; 0 for a number below 0 or undefined. -/
  truncate : α → Nat

instance decidableLTOfScalar {α : Type} [Scalar α] : DecidableLT α := Scalar.decidableLT

instance decidableLEOfScalar {α : Type} [Scalar α] : DecidableLE α := Scalar.decidableLE

/-- Double precision. `truncate` stops at the largest 64-bit word. -/
instance : Scalar Float where
  zero := 0
  one := 1
  decidableLT := inferInstance
  decidableLE := inferInstance
  ofNat := Float.ofNat
  isFinite := Float.isFinite
  truncate x := x.toUInt64.toNat

instance : Scalar Rat where
  zero := 0
  one := 1
  decidableLT := inferInstance
  decidableLE := inferInstance
  ofNat n := (n : Rat)
  isFinite _ := true
  truncate x := x.floor.toNat

variable {α : Type} [Scalar α]

def total (values : List α) : α :=
  values.foldl (· + ·) 0

def larger (x y : α) : α :=
  if x < y then y else x

/-- The largest element of a list of numbers that are not negative, and 0 for the empty list. -/
def peak (values : List α) : α :=
  values.foldl larger 0

/-- The least whole number that is not below a number that is not negative. -/
def roundUp (x : α) : Nat :=
  if Scalar.ofNat (Scalar.truncate x) < x then Scalar.truncate x + 1 else Scalar.truncate x

/-- The nearest whole number to a number that is not negative; of two that are equally near, the
even one. -/
def roundHalfEven (x : α) : Nat :=
  let whole := Scalar.truncate x
  let fraction := x - Scalar.ofNat whole
  let half := 1 / (1 + 1)
  if fraction < half then whole
  else if half < fraction then whole + 1
  else whole + whole % 2

end Apportion.Number.Arithmetic
