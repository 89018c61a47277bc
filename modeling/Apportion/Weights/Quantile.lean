import Apportion.Number.Arithmetic

namespace Apportion.Weights.Quantile

open Apportion.Number.Arithmetic

variable {α : Type} [Scalar α]

def ascending (values : List α) : List α :=
  values.mergeSort (fun left right => decide (left ≤ right))

/-- The number at `fraction` of the way from the first to the last of a list that is not empty,
taken in increasing order. -/
def quantile (values : List α) (fraction : α) : α :=
  let sorted := ascending values
  let position := fraction * Scalar.ofNat (values.length - 1)
  let lower := Scalar.truncate position
  let low := sorted.getD lower 0
  let high := sorted.getD (roundUp position) 0
  low + (high - low) * (position - Scalar.ofNat lower)

end Apportion.Weights.Quantile
