import Apportion.Envelopes.Document
import Apportion.Tensor.Axes

namespace Apportion.Session

open Apportion.Json.Faults
open Apportion.Envelopes.Coercion
open Apportion.Envelopes.Packing
open Apportion.Payload.Decoding
open Apportion.Tensor.Elements
open Apportion.Tensor.Shapes
open Apportion.Tensor.Arrays
open Apportion.Tensor.Axes

structure State where
  array : TypedArray
  envelope? : Option Envelope

/-- What can be done to the array or to the envelope. -/
inductive Step where
  | cast (type : ElementType)
  | reshape (shape : Shape)
  | zeros (type : ElementType) (shape : Shape)
  | empty (type : ElementType)
  | vector
  | scalar
  | exchange (type? : Option ElementType) (layout : Layout)
  | decode (payload : List UInt8)
  | pack
  | unpack
  /-- Give the envelope another type and another shape. -/
  | retag (type : TypeSource) (shape : ShapeSource)
  | readDocument (text : String)

inductive StepError where
  | array (cause : ArrayError)
  | payload (cause : PayloadError)
  | opening (cause : OpenError)
  | coercion (cause : CoercionError)
  | json (cause : JsonError)
  | noElement
  | noEnvelope

def firstElement (array : TypedArray) : Except StepError TypedArray :=
  match array.buffer.elements with
  | [] => .error .noElement
  | element :: _ => .ok (TypedArray.scalar array.buffer.type element)

def State.withArray (state : State) (array : TypedArray) : State :=
  { state with array := array }

def State.withEnvelope (state : State) (envelope : Envelope) : State :=
  { state with envelope? := some envelope }

def State.envelope (state : State) : Except StepError Envelope :=
  match state.envelope? with
  | some envelope => .ok envelope
  | none => .error .noEnvelope

def apply (state : State) : Step → Except StepError State
  | .cast type => .ok (state.withArray (state.array.cast type))
  | .reshape shape => ((state.array.reshape shape).mapError .array).map state.withArray
  | .zeros type shape => .ok (state.withArray (TypedArray.zeros type shape))
  | .empty type => .ok (state.withArray (TypedArray.empty type))
  | .vector => .ok (state.withArray (TypedArray.vector state.array.buffer))
  | .scalar => (firstElement state.array).map state.withArray
  | .exchange type? layout =>
      let type := type?.getD state.array.type
      ((exchange type layout state.array).mapError .array).map state.withArray
  | .decode payload => ((decode payload).mapError .payload).map state.withArray
  | .pack => .ok (state.withEnvelope (ofArray state.array))
  | .unpack => do
      let envelope ← state.envelope
      ((toArray envelope).mapError .opening).map state.withArray
  | .retag type shape => do
      let envelope ← state.envelope
      ((make envelope.buffer type shape).mapError .coercion).map state.withEnvelope
  | .readDocument text =>
      ((Envelopes.Document.ofDocument text).mapError .json).map state.withEnvelope

/-- The state after a step, which is the same as before if the step fails. -/
def advance (state : State) (step : Step) : State :=
  match apply state step with
  | .ok next => next
  | .error _ => state

def run (state : State) (steps : List Step) : State :=
  steps.foldl advance state

end Apportion.Session
