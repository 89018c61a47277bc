import Apportion.Text.Mismatches

namespace Apportion.Json.Faults

open Apportion.Number.DecimalText
open Apportion.Text.Mismatches

inductive ContentFault where
  | mismatch (cause : Mismatch)
  | missingField (name : String)
  | duplicateField (name : String)
  | wrongLength (length : Nat) (expected : String)
  | unknownName (name : String) (known : List String)
  | noForm (kind : String)
  | refused (reason : String)
  deriving DecidableEq, Repr

inductive JsonError where
  | malformed
  | unfinished
  | content (fault : ContentFault)
  deriving DecidableEq, Repr

def wording : Wording where
  nothing := "null"
  real := jsonText

def marked (name : String) : String :=
  "`" ++ name ++ "`"

def ContentFault.message : ContentFault → String
  | .mismatch cause => cause.message wording
  | .missingField name => "missing field " ++ marked name
  | .duplicateField name => "duplicate field " ++ marked name
  | .wrongLength length expected => s!"invalid length {length}, expected {expected}"
  | .unknownName name known =>
      let names := String.intercalate ", " (known.map marked)
      "unknown variant " ++ marked name ++ ", expected one of " ++ names
  | .noForm kind => "data did not match any variant of untagged enum " ++ kind
  | .refused reason => reason

/-- A reader takes the text of a document from some place on and gives back a value and the text
after it. -/
abbrev Reader (α : Type) := List Char → Except JsonError (α × List Char)

end Apportion.Json.Faults
