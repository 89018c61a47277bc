import Apportion.Bytes
import Apportion.Weights.PolicyDocument

namespace Apportion.Weights.PolicyFile

open Apportion.Bytes
open Apportion.Json.Faults
open Apportion.Weights.Refusal
open Apportion.Weights.Policies
open Apportion.Weights.PolicyDocument

inductive AccessFault where
  | notFound
  | notText
  | obstructed
  deriving DecidableEq, Repr

inductive FileError where
  | access (fault : AccessFault)
  | json (cause : JsonError)
  | policy (cause : PolicyError Float)

def read (file : Option (List UInt8)) : Except FileError (Policy Float) :=
  match file with
  | none => .error (.access .notFound)
  | some bytes =>
      match text? bytes with
      | none => .error (.access .notText)
      | some text =>
          (ofDocument text).mapError fun
            | .json cause => .json cause
            | .policy cause => .policy cause

/-- A place to write a file to. -/
inductive Place where
  | vacant
  | underFile
  | directory
  | unnamed
  deriving DecidableEq, Repr

/-- Write a policy to a place. The result is what the new file holds. -/
def write (place : Place) (policy : Policy Float) : Except FileError String :=
  match place with
  | .vacant => .ok (toDocument policy)
  | .underFile => .error (.access .obstructed)
  | .directory => .error (.access .obstructed)
  | .unnamed => .error (.access .notFound)

end Apportion.Weights.PolicyFile
