import Apportion.Sparse.Scatter
import Apportion.Weights.Quantization
import Apportion.Weights.Policies
import Apportion.Weights.Quantile

/-!
Turning submitted weights into shares of one that obey a policy. A submission without positive
weights, or for a universe that is too small, gives equal shares; one with too few positive weights
is filled up with a small weight everywhere; from any other the low tail is left out.
-/

namespace Apportion.Weights.Processing

open Apportion.Number.Arithmetic
open Apportion.Sparse.Universe
open Apportion.Sparse.Scatter
open Apportion.Weights.Refusal
open Apportion.Weights.Normalization
open Apportion.Weights.Quantization
open Apportion.Weights.Policies
open Apportion.Weights.Quantile

structure Processed (α : Type) where
  uids : List Int
  weights : List α
  deriving DecidableEq

variable {α : Type} [Scalar α]

def weightFloor : α :=
  1 / Scalar.ofNat 100000

def everyUid (size : Nat) : List Int :=
  (List.range size).map Int.ofNat

def Processed.equalShares (size : Nat) : Processed α :=
  ⟨everyUid size, Normalization.equalShares size⟩

def positivePairs (uids : List Int) (weights : List α) : List (Int × α) :=
  (uids.zip weights).filter fun pair => decide (0 < pair.2)

/-- Shares for all positions, from positive weights with the floor added everywhere. -/
def fillUp (size : Nat) (limit : α) (pairs : List (Int × α)) :
    Except (WeightError α) (Processed α) := do
  let dense ← (scatter 0 size (pairs.map Prod.fst) (pairs.map Prod.snd)).mapError WeightError.sparse
  let weights ← normalizeCapped (dense.map (· + weightFloor)) limit
  return ⟨everyUid size, weights⟩

/-- The weight below which pairs are left out. The quantile is lowered where it would leave fewer
than the minimum. -/
def cutoff (policy : Policy α) (pairs : List (Int × α)) : α :=
  let count := pairs.length
  let largestExcluded : α :=
    Scalar.ofNat (count - policy.minimumCount.toNat) / Scalar.ofNat count
  let fraction := if policy.quantile < largestExcluded then policy.quantile else largestExcluded
  Quantile.quantile (pairs.map Prod.snd) fraction

def excludeTail (policy : Policy α) (pairs : List (Int × α)) :
    Except (WeightError α) (Processed α) := do
  let least := cutoff policy pairs
  let kept := pairs.filter fun pair => decide (least ≤ pair.2)
  let weights ← normalizeCapped (kept.map Prod.snd) policy.limit
  return ⟨kept.map Prod.fst, weights⟩

/-- Process the weights submitted for a universe of `n` positions under a policy. A positive weight
outside the universe is an error. -/
def process (n : Int) (uids : List Int) (weights : List α) (policy : Policy α) :
    Except (WeightError α) (Processed α) := do
  let size ← (positionCount n).mapError WeightError.sparse
  policy.validate.mapError WeightError.policy
  requireEmittable uids weights
  let pairs := positivePairs uids weights
  match pairs.find? fun pair => decide ((size : Int) ≤ pair.1) with
  | some pair => throw (.sparse (.outOfRange pair.1 size))
  | none =>
      let minimum := policy.minimumCount.toNat
      if pairs.isEmpty ∨ size < minimum then return Processed.equalShares size
      else if pairs.length < minimum then fillUp size policy.limit pairs
      else excludeTail policy pairs

def emit (policy : Policy α) (processed : Processed α) :
    Except (WeightError α) Emission := do
  policy.validate.mapError WeightError.policy
  let width := if policy.emissionBits = 32 then IntegerWidth.bits32 else IntegerWidth.bits16
  quantize width processed.uids processed.weights

end Apportion.Weights.Processing
