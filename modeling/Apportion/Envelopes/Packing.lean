import Apportion.Base64
import Apportion.Envelopes.Coercion
import Apportion.Payload.Decoding
import Apportion.Payload.Encoding

/-!
Envelopes: an array's payload as Base64 text, with the type and the shape that the array is to have.
A single element is announced with the shape `[0]`, which leaves an empty array or a single element
its own shape when it is taken out again.
-/

namespace Apportion.Envelopes.Packing

open Apportion.Base64
open Apportion.Bytes
open Apportion.Envelopes.Coercion
open Apportion.Payload.Decoding
open Apportion.Payload.Encoding
open Apportion.Tensor.Elements
open Apportion.Tensor.Shapes
open Apportion.Tensor.Arrays

structure Envelope where
  buffer : String
  type : ElementType
  shape : Shape
  deriving DecidableEq, Repr

inductive OpenError where
  | base64 (cause : Base64Error)
  | payload (cause : PayloadError)
  /-- The shape `[0]` is declared for more than one element. -/
  | notFlat (count : Nat)
  | countMismatch (shape : Shape) (count : Nat)
  deriving DecidableEq, Repr

def OpenError.isUnsupported : OpenError → Bool
  | .payload (.unknownDescriptor _) => true
  | _ => false

def OpenError.message : OpenError → String
  | .base64 cause => "Decode error: invalid base64 buffer: " ++ cause.message
  | .payload cause => cause.message
  | .notFlat count =>
      "Decode error: shape [0] declares an empty or scalar tensor but the payload holds " ++
        s!"{count} elements"
  | .countMismatch shape count =>
      let text := shape.text
      let wanted := shape.count
      s!"Decode error: shape {text} holds {wanted} elements but the payload holds {count}"

/-- Make an envelope from its parts as they are given. The type is settled before the shape. -/
def make (buffer : String) (type : TypeSource) (shape : ShapeSource) :
    Except CoercionError Envelope := do
  match ← coerceType type with
  | none => throw .missingType
  | some type =>
      let shape ← coerceShape shape
      return ⟨buffer, type, shape⟩

def ofArray (array : TypedArray) : Envelope where
  buffer := String.ofList (Base64.encode (Payload.Encoding.encode array))
  type := array.type
  shape := if array.shape.isEmpty then [0] else array.shape

def applyShape (shape : Shape) (array : TypedArray) : Except OpenError TypedArray :=
  if shape.isPlaceholder then
    if 1 < array.length then .error (.notFlat array.length) else .ok array
  else (array.reshape shape).mapError fun _ => .countMismatch shape array.length

def toArray (envelope : Envelope) : Except OpenError TypedArray := do
  let bytes ← (Base64.decode (ofText envelope.buffer)).mapError .base64
  let decoded ← (Payload.Decoding.decode bytes).mapError .payload
  let shaped ← applyShape envelope.shape decoded
  return shaped.cast envelope.type

end Apportion.Envelopes.Packing
