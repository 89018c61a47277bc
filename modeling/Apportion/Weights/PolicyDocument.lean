import Apportion.Json.Readers
import Apportion.Json.Writing
import Apportion.Weights.Policies

namespace Apportion.Weights.PolicyDocument

open Apportion.Json.Faults
open Apportion.Json.Readers
open Apportion.Json.Writing
open Apportion.Weights.Refusal
open Apportion.Weights.Policies

structure Fields where
  minimumCount? : Option UInt64
  limit? : Option Float
  quantile? : Option Float
  emissionBits? : Option UInt8

def Fields.none : Fields :=
  ⟨.none, .none, .none, .none⟩

def standardPolicy : Policy Float :=
  standard

def Fields.policy (fields : Fields) : Policy Float where
  minimumCount := fields.minimumCount?.getD standardPolicy.minimumCount
  limit := fields.limit?.getD standardPolicy.limit
  quantile := fields.quantile?.getD standardPolicy.quantile
  emissionBits := fields.emissionBits?.getD standardPolicy.emissionBits

def readCount : Reader UInt64 := fun text =>
  (readBelow UInt64.size "usize" text).map fun parts => (UInt64.ofNat parts.1, parts.2)

def readBits : Reader UInt8 := fun text =>
  (readBelow UInt8.size "u8" text).map fun parts => (UInt8.ofNat parts.1, parts.2)

def readMember (fields : Fields) (key : String) : Reader Fields := fun text => do
  if key = "min_allowed_weights" then
    let (value, rest) ← readField key fields.minimumCount? readCount text
    return ({ fields with minimumCount? := some value }, rest)
  else if key = "max_weight_limit" then
    let (value, rest) ← readField key fields.limit? readDouble text
    return ({ fields with limit? := some value }, rest)
  else if key = "exclude_quantile" then
    let (value, rest) ← readField key fields.quantile? readDouble text
    return ({ fields with quantile? := some value }, rest)
  else if key = "max_emission_bits" then
    let (value, rest) ← readField key fields.emissionBits? readBits text
    return ({ fields with emissionBits? := some value }, rest)
  else
    let rest ← skipMember text
    return (fields, rest)

def readListedFields : Reader Fields := fun text => do
  let (minimumCount, rest) ← readListed true readCount text
  let (limit, rest) ← readListed false readDouble rest
  let (quantile, rest) ← readListed false readDouble rest
  let (emissionBits, rest) ← readListed false readBits rest
  return (⟨minimumCount, limit, quantile, emissionBits⟩, rest)

def readFields : Reader Fields :=
  readRecord "struct WeightPolicy" (readObject readMember Fields.none) readListedFields

inductive DocumentError where
  | json (cause : JsonError)
  | policy (cause : PolicyError Float)

def ofDocument (text : String) : Except DocumentError (Policy Float) := do
  let fields ← (readDocument readFields text).mapError .json
  let policy := fields.policy
  policy.validate.mapError .policy
  return policy

def toDocument (policy : Policy Float) : String :=
  let field := fun (name value : String) => "  \"" ++ name ++ "\": " ++ value
  let fields :=
    [field "min_allowed_weights" (toString policy.minimumCount.toNat),
      field "max_weight_limit" (writeDouble policy.limit),
      field "exclude_quantile" (writeDouble policy.quantile),
      field "max_emission_bits" (toString policy.emissionBits.toNat)]
  "\x7b\n" ++ String.intercalate ",\n" fields ++ "\n\x7d"

end Apportion.Weights.PolicyDocument
