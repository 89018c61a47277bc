import Apportion.Number.DecimalText
import Apportion.Sparse.Universe

/-!
Why weights, or the policy that they are processed under, are refused. The causes carry the
offending number itself, so that they can be stated for any kind of number; only their texts are
about doubles.
-/

namespace Apportion.Weights.Refusal

open Apportion.Number.DecimalText
open Apportion.Sparse.Universe

inductive PolicyError (α : Type) where
  | limit (value : α)
  | quantile (value : α)
  | bits (value : UInt8)
  deriving DecidableEq

inductive WeightError (α : Type) where
  | sparse (cause : SparseError)
  | limit (value : α)
  | notFinite (position : Nat) (weight : α)
  | negativeWeight (position : Nat) (weight : α)
  | negativeUid (position : Nat) (uid : Int)
  | policy (cause : PolicyError α)
  deriving DecidableEq

def invalidValue (field reason : String) : String :=
  s!"Invalid value for `{field}`: {reason}"

def numberText (value : Float) : String :=
  plainText value.toBits

def PolicyError.message : PolicyError Float → String
  | .limit value =>
      invalidValue "max_weight_limit" ("must be in (0, 1], got " ++ numberText value)
  | .quantile value =>
      invalidValue "exclude_quantile" ("must be in [0, 1], got " ++ numberText value)
  | .bits value => invalidValue "max_emission_bits" s!"must be 16 or 32, got {value.toNat}"

def WeightError.message : WeightError Float → String
  | .sparse cause => cause.message
  | .limit value => invalidValue "limit" ("must be in (0, 1], got " ++ numberText value)
  | .notFinite position weight =>
      let text := numberText weight
      invalidValue "weights" s!"weight at position {position} is not finite ({text})"
  | .negativeWeight position weight =>
      let text := numberText weight
      s!"Negative weight {text} at position {position}"
  | .negativeUid position uid => s!"Negative uid {uid} at position {position}"
  | .policy cause => "Configuration error: " ++ cause.message

end Apportion.Weights.Refusal
