import Apportion.Weights.Normalization

namespace Apportion.Weights.Quantization

open Apportion.Number.Arithmetic
open Apportion.Sparse.Universe
open Apportion.Weights.Refusal
open Apportion.Weights.Normalization

inductive IntegerWidth where
  | bits16
  | bits32
  deriving DecidableEq, Repr

def IntegerWidth.bits : IntegerWidth → Nat
  | .bits16 => 16
  | .bits32 => 32

def IntegerWidth.largest : IntegerWidth → Nat
  | .bits16 => 0xffff
  | .bits32 => 0xffffffff

structure Emission where
  width : IntegerWidth
  uids : List Nat
  values : List Nat
  deriving DecidableEq, Repr

variable {α : Type} [Scalar α]

def clampToWidth (width : IntegerWidth) (value : α) : Nat :=
  min (Scalar.truncate value) width.largest

/-- What is wrong with a weight that is to be emitted: it must not be negative, and then must be
finite. -/
def emissionFault (entry : α × Nat) : Option (WeightError α) :=
  if entry.1 < 0 then some (.negativeWeight entry.2 entry.1)
  else if !Scalar.isFinite entry.1 then some (.notFinite entry.2 entry.1)
  else none

def uidFault (entry : Int × Nat) : Option (WeightError α) :=
  if entry.1 < 0 then some (.negativeUid entry.2 entry.1) else none

/-- The lists must be equally long, then the weights usable, then the positions. -/
def requireEmittable (uids : List Int) (weights : List α) : Except (WeightError α) Unit := do
  (requireSameLength "uids" uids "weights" weights).mapError .sparse
  match weights.zipIdx.findSome? emissionFault with
  | some fault => throw fault
  | none =>
      match uids.zipIdx.findSome? uidFault with
      | some fault => throw fault
      | none => return

def scaleToWidth (width : IntegerWidth) (weights : List α) (sum : α) : List Nat :=
  weights.map fun weight =>
    min (roundHalfEven (weight / sum * Scalar.ofNat width.largest)) width.largest

/-- Emit weights at a width. Weights that are all zero give zeros. -/
def quantize (width : IntegerWidth) (uids : List Int) (weights : List α) :
    Except (WeightError α) Emission := do
  requireEmittable uids weights
  let (scaled, sum) := boundedTotal weights
  return {
    width := width
    uids := uids.map Int.toNat
    values :=
      if sum == 0 then List.replicate weights.length 0 else scaleToWidth width scaled sum }

end Apportion.Weights.Quantization
