import Apportion.Payload.Descriptors
import Apportion.Tensor.Shapes
import Apportion.Text.Blank

namespace Apportion.Envelopes.Coercion

open Apportion.Payload.Descriptors
open Apportion.Tensor.Elements
open Apportion.Tensor.Shapes
open Apportion.Text.Blank

inductive CoercionError where
  | unknownName (name : String)
  | unknownDescriptor (text : String)
  | missingType
  | negativeDimension (dimension : Int)
  | noList (text : String)
  | noNumber (piece text : String)
  deriving DecidableEq, Repr

def CoercionError.isUnsupported : CoercionError → Bool
  | .unknownName _ => true
  | .unknownDescriptor _ => true
  | _ => false

def knownNames : String :=
  "[" ++ String.intercalate ", " (ElementType.all.map fun type => "\"" ++ type.name ++ "\"") ++ "]"

def CoercionError.message : CoercionError → String
  | .unknownName name =>
      "Unsupported element type: `" ++ name ++ "` is not one of " ++ knownNames
  | .unknownDescriptor text => "Unsupported element type: " ++ unknownText text
  | .missingType => "Invalid value for `dtype`: an element type is required"
  | .negativeDimension dimension =>
      s!"Invalid value for `shape`: dimension {dimension} is negative"
  | .noList text =>
      s!"Invalid value for `shape`: `{text}` is not of the form \"[d0, d1, ...]\""
  | .noNumber piece text =>
      s!"Invalid value for `shape`: `{piece}` in `{text}` is not a non-negative integer"

inductive TypeSource where
  | type (type : ElementType)
  | descriptor (text : String)
  | name (text : String)
  | absent
  deriving DecidableEq, Repr

def typeOfName (name : String) : Except CoercionError ElementType :=
  match ElementType.ofName? name with
  | some type => .ok type
  | none => .error (.unknownName name)

/-- The type that is given, if any is. An empty name gives none. -/
def coerceType : TypeSource → Except CoercionError (Option ElementType)
  | .type type => .ok (some type)
  | .descriptor text =>
      match parse? text with
      | some (type, _) => .ok (some type)
      | none => .error (.unknownDescriptor text)
  | .name text => if text.isEmpty then .ok none else (typeOfName text).map some
  | .absent => .ok none

inductive ShapeSource where
  | dimensions (values : List Int)
  | text (text : String)
  | absent
  deriving DecidableEq, Repr

/-- The characters between the first opening bracket and the first closing bracket after it. -/
def bracketed? (text : List Char) : Option (List Char) :=
  match text.dropWhile (· != '[') with
  | [] => none
  | _ :: rest => if rest.contains ']' then some (rest.takeWhile (· != ']')) else none

def pieces : List Char → List (List Char)
  | [] => [[]]
  | character :: rest =>
      if character = ',' then [] :: pieces rest
      else
        match pieces rest with
        | [] => [[character]]
        | piece :: others => (character :: piece) :: others

/-- The 64-bit number that a piece is: digits alone, or behind one plus sign. -/
def number? (piece : List Char) : Option Nat :=
  let digits :=
    match piece with
    | '+' :: rest => rest
    | _ => piece
  if digits ≠ [] ∧ digits.all Char.isDigit = true then
    let value := Nat.ofDigitChars 10 digits 0
    if value < UInt64.size then some value else none
  else none

def coercePieces (text : String) : List (List Char) → Except CoercionError Shape
  | [] => .ok []
  | piece :: rest =>
      let trimmed := trim piece
      match number? trimmed with
      | none => .error (.noNumber (String.ofList trimmed) text)
      | some value => (coercePieces text rest).map (value :: ·)

def shapeOfText (text : String) : Except CoercionError Shape :=
  match bracketed? text.toList with
  | none => .error (.noList text)
  | some inner => if inner.all isBlank then .ok [] else coercePieces text (pieces inner)

def shapeOfDimensions : List Int → Except CoercionError Shape
  | [] => .ok []
  | dimension :: rest =>
      if dimension < 0 then .error (.negativeDimension dimension)
      else (shapeOfDimensions rest).map (dimension.toNat :: ·)

def coerceShape : ShapeSource → Except CoercionError Shape
  | .dimensions values => shapeOfDimensions values
  | .text text => shapeOfText text
  | .absent => .ok []

end Apportion.Envelopes.Coercion
