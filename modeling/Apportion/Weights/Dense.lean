import Apportion.Sparse.Availability
import Apportion.Sparse.Scatter
import Apportion.Weights.Normalization

namespace Apportion.Weights.Dense

open Apportion.Number.Arithmetic
open Apportion.Sparse.Universe
open Apportion.Sparse.Scatter
open Apportion.Sparse.Availability
open Apportion.Weights.Refusal
open Apportion.Weights.Normalization

variable {α : Type} [Scalar α]

def denseWeights (n : Int) (uids : List Int) (weights : List α) :
    Except (WeightError α) (List α) := do
  let dense ← (scatter 0 n uids weights).mapError WeightError.sparse
  normalize dense

def denseRootWeights (n : Int) (uids : List Int) (weights : List α) (subnets : List Int) :
    Except (WeightError α) (List α × List Warning) := do
  let restricted ← (restrict n uids weights subnets).mapError WeightError.sparse
  let dense ← denseWeights n restricted.uids restricted.values
  return (dense, restricted.warnings)

def denseBonds (n : Int) (uids : List Int) (bonds : List Int) : Except SparseError (List Int) :=
  scatter 0 n uids bonds

end Apportion.Weights.Dense
