import Apportion.Number.DecimalText
import Apportion.Text.Quoted

namespace Apportion.Text.Mismatches

open Apportion.Text.Quoted

/-- The value that a document holds where another one is looked for. -/
inductive Found where
  | nothing
  | boolean (value : Bool)
  | integer (value : Int)
  | real (word : UInt64)
  | text (value : String)
  | bytes
  | sequence
  | map
  | extension
  deriving DecidableEq, Repr

structure Wording where
  nothing : String
  real : UInt64 → String

def Found.describe (wording : Wording) : Found → String
  | .nothing => wording.nothing
  | .boolean value => s!"boolean `{value}`"
  | .integer value => s!"integer `{value}`"
  | .real word => "floating point `" ++ wording.real word ++ "`"
  | .text value => "string " ++ quote value
  | .bytes => "byte array"
  | .sequence => "sequence"
  | .map => "map"
  | .extension => "newtype struct"

/-- A value that does not fit: one of another kind, or one of the right kind out of its range. -/
inductive Mismatch where
  | kind (found : Found) (expected : String)
  | range (found : Found) (expected : String)
  deriving DecidableEq, Repr

def Mismatch.message (wording : Wording) : Mismatch → String
  | .kind found expected =>
      "invalid type: " ++ found.describe wording ++ ", expected " ++ expected
  | .range found expected =>
      "invalid value: " ++ found.describe wording ++ ", expected " ++ expected

end Apportion.Text.Mismatches
