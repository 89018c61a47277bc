import Apportion.Number.Arithmetic
import Apportion.Weights.Refusal

namespace Apportion.Weights.Policies

open Apportion.Number.Arithmetic
open Apportion.Weights.Refusal

structure Policy (α : Type) where
  minimumCount : UInt64
  limit : α
  quantile : α
  emissionBits : UInt8
  deriving DecidableEq

variable {α : Type} [Scalar α]

def standard : Policy α where
  minimumCount := 8
  limit := 1 / Scalar.ofNat 10
  quantile := 0
  emissionBits := 16

/-- What makes a policy unusable, looked for in this order: the limit, the quantile, the width. -/
def Policy.fault (policy : Policy α) : Option (PolicyError α) :=
  if ¬(0 < policy.limit ∧ policy.limit ≤ 1) then some (.limit policy.limit)
  else if ¬(0 ≤ policy.quantile ∧ policy.quantile ≤ 1) then some (.quantile policy.quantile)
  else if ¬(policy.emissionBits = 16 ∨ policy.emissionBits = 32) then
    some (.bits policy.emissionBits)
  else none

def Policy.validate (policy : Policy α) : Except (PolicyError α) Unit :=
  match policy.fault with
  | some fault => .error fault
  | none => .ok ()

def chainFraction (part : UInt16) : α :=
  Scalar.ofNat part.toNat / Scalar.ofNat 65535

/-- The policy of a chain, which states the limit and the quantile as 16-bit fractions. -/
def ofChainParameters (minimumCount limit quantile : UInt16) :
    Except (PolicyError α) (Policy α) := do
  let policy : Policy α :=
    { minimumCount := minimumCount.toUInt64
      limit := chainFraction limit
      quantile := chainFraction quantile
      emissionBits := 16 }
  policy.validate
  return policy

end Apportion.Weights.Policies
