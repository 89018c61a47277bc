/-!
Binary floating-point words of any width. A word is read as the exact number that it stands for,
and an exact number is written as the nearest word, so every conversion rounds at most once.
-/

namespace Apportion.Number.Binary

/-- Powers are those of the core library, whatever else is loaded. -/
scoped instance (priority := 2000) corePower {α : Type} [NatPow α] : Pow α Nat := instPowNat

/-- The widths of the two fields below the sign bit of a word. -/
structure BinaryFormat where
  exponentBits : Nat
  fractionBits : Nat
  deriving DecidableEq, Repr

def half : BinaryFormat := ⟨5, 10⟩

def single : BinaryFormat := ⟨8, 23⟩

def double : BinaryFormat := ⟨11, 52⟩

/-- What a word stands for. A finite word is the number `±significand * 2 ^ exponent`. -/
inductive BinaryValue where
  | finite (negative : Bool) (significand : Nat) (exponent : Int)
  | infinite (negative : Bool)
  /-- Not a number; the payload is the word's fraction field. -/
  | undefined (negative : Bool) (payload : Nat)
  deriving DecidableEq, Repr

namespace BinaryFormat

variable (format : BinaryFormat)

def leastExponent : Int :=
  2 - 2 ^ (format.exponentBits - 1) - format.fractionBits

/-- The word of positive infinity, which is one more than the word of the largest number. -/
def infinity : Nat :=
  (2 ^ format.exponentBits - 1) * 2 ^ format.fractionBits

def signWeight : Nat :=
  2 ^ (format.exponentBits + format.fractionBits)

def signed (negative : Bool) (magnitude : Nat) : Nat :=
  if negative then format.signWeight + magnitude else magnitude

def decode (word : Nat) : BinaryValue :=
  let negative := decide (word / format.signWeight % 2 = 1)
  let biased := word / 2 ^ format.fractionBits % 2 ^ format.exponentBits
  let fraction := word % 2 ^ format.fractionBits
  if biased = 2 ^ format.exponentBits - 1 then
    if fraction = 0 then .infinite negative else .undefined negative fraction
  else if biased = 0 then .finite negative fraction format.leastExponent
  else .finite negative (2 ^ format.fractionBits + fraction) (format.leastExponent + (biased - 1))

end BinaryFormat

/-- The whole number nearest to a quotient; of two that are equally near, the even one. -/
def nearestQuotient (numerator denominator : Nat) : Nat :=
  let quotient := numerator / denominator
  let rest := 2 * (numerator % denominator)
  if rest < denominator then quotient
  else if denominator < rest then quotient + 1
  else quotient + quotient % 2

/-- The exponent of the largest power of two that is not above a positive quotient. -/
def floorLogQuotient (numerator denominator : Nat) : Int :=
  let estimate : Int := numerator.log2 - denominator.log2
  if denominator * 2 ^ estimate.toNat ≤ numerator * 2 ^ (-estimate).toNat then estimate
  else estimate - 1

/-- The word nearest to the quotient of a count by a positive count, ties to the even word. The
place of the last digit is the one that the quotient's size demands, and words of numbers that are
too large are infinity. A carry out of the significand moves on into the exponent by itself. -/
def BinaryFormat.nearest (format : BinaryFormat) (numerator denominator : Nat) : Nat :=
  if numerator = 0 then 0
  else
    let leading := floorLogQuotient numerator denominator
    let exponent := max (leading - format.fractionBits) format.leastExponent
    let significand :=
      nearestQuotient (numerator * 2 ^ (-exponent).toNat) (denominator * 2 ^ exponent.toNat)
    min (significand + (exponent - format.leastExponent).toNat * 2 ^ format.fractionBits)
      format.infinity

def BinaryFormat.ofFinite (format : BinaryFormat) (negative : Bool) (significand : Nat)
    (exponent : Int) : Nat :=
  format.signed negative
    (format.nearest (significand * 2 ^ exponent.toNat) (2 ^ (-exponent).toNat))

def BinaryFormat.ofInt (format : BinaryFormat) (value : Int) : Nat :=
  format.ofFinite (value < 0) value.natAbs 0

/-- Rewrite a word in another format. A word that is not a number keeps its sign and the leading
bits of its payload, of which the first is set. -/
def convert (source target : BinaryFormat) (word : Nat) : Nat :=
  match source.decode word with
  | .finite negative significand exponent => target.ofFinite negative significand exponent
  | .infinite negative => target.signed negative target.infinity
  | .undefined negative payload =>
      let quiet := 2 ^ (target.fractionBits - 1)
      let moved := payload * 2 ^ target.fractionBits / 2 ^ source.fractionBits
      target.signed negative (target.infinity + quiet + moved % quiet)

/-- The whole part of a word's value, with its sign. A word that is not a number counts as 0, and
an infinite one goes beyond any integer of the given bound. -/
def BinaryFormat.wholePart (format : BinaryFormat) (bound : Nat) (word : Nat) : Int :=
  match format.decode word with
  | .finite negative significand exponent =>
      let whole := significand * 2 ^ exponent.toNat / 2 ^ (-exponent).toNat
      if negative then -(whole : Int) else whole
  | .infinite negative => if negative then -(bound : Int) else bound
  | .undefined _ _ => 0

def BinaryFormat.isZero (format : BinaryFormat) (word : Nat) : Bool :=
  word % format.signWeight = 0

def BinaryFormat.isUndefined (format : BinaryFormat) (word : Nat) : Bool :=
  format.infinity < word % format.signWeight

/-- Numeric equality of words: the two zeros are equal, and a word that is not a number equals
nothing. -/
def BinaryFormat.equal (format : BinaryFormat) (left right : Nat) : Bool :=
  !format.isUndefined left && !format.isUndefined right &&
    (left == right || format.isZero left && format.isZero right)

end Apportion.Number.Binary
