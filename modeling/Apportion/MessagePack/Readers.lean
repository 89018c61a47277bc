import Apportion.MessagePack.Heads
import Apportion.Number.Binary
import Apportion.Text.Mismatches

namespace Apportion.MessagePack.Readers

open Apportion.Bytes
open Apportion.Number.Binary
open Apportion.Number.DecimalText
open Apportion.Text.Mismatches
open Apportion.MessagePack.Heads

inductive ReadError where
  | malformed
  | mismatch (cause : Mismatch)
  | missing (key : String)
  deriving DecidableEq, Repr

def wording : Wording where
  nothing := "unit value"
  real := pointedText

def ReadError.detail? : ReadError → Option String
  | .malformed => none
  | .mismatch cause => some (cause.message wording)
  | .missing key => some s!"missing field `{key}`"

abbrev Reader (α : Type) := List UInt8 → Except ReadError (α × List UInt8)

def orMalformed {α : Type} : Option α → Except ReadError α
  | some value => .ok value
  | none => .error .malformed

def found (head : Head) (body : List UInt8) : Except ReadError Found :=
  match head with
  | .nothing => .ok .nothing
  | .boolean value => .ok (.boolean value)
  | .integer value => .ok (.integer value)
  | .float64 word => .ok (.real (UInt64.ofNat word))
  | .float32 word => .ok (.real (UInt64.ofNat (convert single double word)))
  | .text length =>
      match (split? length body).bind fun parts => text? parts.1 with
      | some text => .ok (.text text)
      | none => .error .malformed
  | .binary length => if length ≤ body.length then .ok .bytes else .error .malformed
  | .array _ => .ok .sequence
  | .map _ => .ok .map
  | .extension _ => .ok .extension

def refuse {α : Type} (expected : String) (head : Head) (body : List UInt8) :
    Except ReadError α := do
  let found ← found head body
  throw (.mismatch (.kind found expected))

def refuseScalar {α : Type} (expected : String) (head : Head) (body : List UInt8) :
    Except ReadError α :=
  match head with
  | .text _ | .binary _ | .array _ | .map _ | .extension _ => .error .malformed
  | _ => refuse expected head body

def readBoolean : Reader Bool := fun bytes => do
  let (head, body) ← orMalformed (readHead bytes)
  match head with
  | .boolean value => return (value, body)
  | _ => refuseScalar "a boolean" head body

def readBelow (bound : Nat) (expected : String) : Reader Nat := fun bytes => do
  let (head, body) ← orMalformed (readHead bytes)
  match head with
  | .integer value =>
      if 0 ≤ value ∧ value < bound then return (value.toNat, body)
      else throw (.mismatch (.range (.integer value) expected))
  | _ => refuseScalar expected head body

def readMany {α : Type} (read : Reader α) : Nat → Reader (List α)
  | 0, bytes => .ok ([], bytes)
  | count + 1, bytes => do
      let (value, rest) ← read bytes
      let (values, rest) ← readMany read count rest
      return (value :: values, rest)

/-- Read a list of 64-bit numbers: an array of them, or bytes, each of which counts as a number. -/
def readNaturals : Reader (List Nat) := fun bytes => do
  let (head, body) ← orMalformed (readHead bytes)
  match head with
  | .array count => readMany (readBelow UInt64.size "u64") count body
  | .binary length =>
      let (taken, rest) ← orMalformed (split? length body)
      return (taken.map UInt8.toNat, rest)
  | _ => refuse "a sequence" head body

def readBytes : Reader (List UInt8) := fun bytes => do
  let (head, body) ← orMalformed (readHead bytes)
  match head with
  | .binary length | .text length => orMalformed (split? length body)
  | .array count =>
      let (values, rest) ← readMany (readBelow UInt8.size "u8") count body
      return (values.map UInt8.ofNat, rest)
  | _ => refuse "byte array" head body

def readText : Reader String := fun bytes => do
  let (head, body) ← orMalformed (readHead bytes)
  let expected := "a str or utf-8 bin"
  match head with
  | .text length =>
      let (taken, rest) ← orMalformed (split? length body)
      let text ← orMalformed (text? taken)
      return (text, rest)
  | .binary length =>
      let (taken, rest) ← orMalformed (split? length body)
      match text? taken with
      | some text => return (text, rest)
      | none => throw (.mismatch (.range .bytes expected))
  | _ => refuse expected head body

def readKey : Reader (List UInt8) := fun bytes => do
  let (head, body) ← orMalformed (readHead bytes)
  match head with
  | .binary length | .text length => orMalformed (split? length body)
  | _ => refuse "a str or bin map key" head body

def skipMany (skip : List UInt8 → Option (List UInt8)) : Nat → List UInt8 → Option (List UInt8)
  | 0, bytes => some bytes
  | count + 1, bytes => (skip bytes).bind (skipMany skip count)

/-- Pass over one value of any kind that is nested at most so deep. An array, a map and an extension
are one level each. -/
def skipValue (depth : Nat) (bytes : List UInt8) : Option (List UInt8) :=
  match readHead bytes with
  | none => none
  | some (head, body) =>
      match head with
      | .text length | .binary length => (split? length body).map Prod.snd
      | .extension length =>
          if depth = 0 then none else (split? (length + 1) body).map Prod.snd
      | .array count =>
          match depth with
          | 0 => none
          | depth + 1 => skipMany (skipValue depth) count body
      | .map count =>
          match depth with
          | 0 => none
          | depth + 1 => skipMany (skipValue depth) (2 * count) body
      | _ => some body

end Apportion.MessagePack.Readers
