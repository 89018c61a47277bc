import Apportion.Number.Arithmetic
import Apportion.Weights.Refusal

/-!
Turning weights into shares of one. A limit may be set on the largest share: what lies above it is
cut off and handed to the shares below it, in proportion to their weights, until no share is above
the limit.
-/

namespace Apportion.Weights.Normalization

open Apportion.Number.Arithmetic
open Apportion.Weights.Refusal

variable {α : Type} [Scalar α]

/-- What is wrong with the weight at a position: it must be finite, and then not negative. -/
def weightFault (entry : α × Nat) : Option (WeightError α) :=
  if !Scalar.isFinite entry.1 then some (.notFinite entry.2 entry.1)
  else if entry.1 < 0 then some (.negativeWeight entry.2 entry.1)
  else none

def requireUsable (weights : List α) : Except (WeightError α) Unit :=
  match weights.zipIdx.findSome? weightFault with
  | some fault => .error fault
  | none => .ok ()

/-- Weights in the given proportions and their total. The total is finite: weights whose sum is
too large are first divided by the largest of them. -/
def boundedTotal (weights : List α) : List α × α :=
  let sum := total weights
  if Scalar.isFinite sum then (weights, sum)
  else
    let scaled := weights.map (· / peak weights)
    (scaled, total scaled)

def equalShares (count : Nat) : List α :=
  List.replicate count (1 / Scalar.ofNat count)

def plainShares (weights : List α) : List α :=
  let (scaled, sum) := boundedTotal weights
  if sum == 0 then scaled else scaled.map (· / sum)

def normalize (weights : List α) : Except (WeightError α) (List α) := do
  requireUsable weights
  return plainShares weights

/-- An element on its way to its limited share. -/
structure Share (α : Type) where
  base : α
  value : α
  capped : Bool
  deriving DecidableEq

/-- A share above the limit that has not been capped yet. -/
def Share.overflows (limit : α) (share : Share α) : Bool :=
  !share.capped && decide (limit < share.value)

def Share.mark (limit : α) (share : Share α) : Share α :=
  { share with capped := share.capped || share.overflows limit }

/-- Give every capped element the limit, and divide what remains among the others in proportion to
their base shares, or evenly if those are all zero. -/
def spread (limit : α) (shares : List (Share α)) : List (Share α) :=
  let cappedCount := shares.countP (·.capped)
  let freeMass := 1 - limit * Scalar.ofNat cappedCount
  let freeCount := shares.length - cappedCount
  let freeBase := total ((shares.filter (!·.capped)).map (·.base))
  shares.map fun share =>
    { share with
      value :=
        if share.capped then limit
        else if 0 < freeBase then share.base * freeMass / freeBase
        else freeMass / Scalar.ofNat freeCount }

/-- Cap and spread until no share overflows. Each pass caps one more element at least, so as many
passes as there are elements are enough. -/
def capPasses (limit : α) : Nat → List (Share α) → List (Share α)
  | 0, shares => shares
  | passes + 1, shares =>
      if shares.any (·.overflows limit) then
        capPasses limit passes (spread limit (shares.map (·.mark limit)))
      else shares

def applyLimit (limit : α) (base : List α) : List α :=
  if base.all (· ≤ limit) then base
  else
    let shares := base.map fun share => ⟨share, share, false⟩
    (capPasses limit base.length shares).map (·.value)

/-- The weights divided by their total so that no share is above the limit. Where the limit leaves
no choice, and where all weights are zero, the shares are equal. -/
def cappedShares (limit : α) (weights : List α) : List α :=
  let count := weights.length
  let (scaled, sum) := boundedTotal weights
  if sum == 0 then equalShares count
  else if limit * Scalar.ofNat count ≤ 1 then equalShares count
  else applyLimit limit (scaled.map (· / sum))

def normalizeCapped (weights : List α) (limit : α) : Except (WeightError α) (List α) := do
  if 0 < limit ∧ limit ≤ 1 then
    requireUsable weights
    return cappedShares limit weights
  else throw (.limit limit)

end Apportion.Weights.Normalization
