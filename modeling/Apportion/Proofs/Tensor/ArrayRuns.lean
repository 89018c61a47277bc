import Apportion.Session
import Apportion.Proofs.Outcomes

/-!
Arrays that are worked on for a long time. Whatever is done to an array, made anew, converted,
rearranged, or read from bytes that anyone may have written, its buffer holds as many elements as
its shape demands after every step, and the elements are of the type that the array names.
-/

namespace Apportion.Proofs.Tensor.ArrayRuns

open Apportion.Envelopes.Packing
open Apportion.Payload.Decoding
open Apportion.Session
open Apportion.Tensor.Elements
open Apportion.Tensor.Buffers
open Apportion.Tensor.Shapes
open Apportion.Tensor.Arrays
open Apportion.Tensor.Axes
open Apportion.Proofs.Outcomes

/-- What can be done to an array. Some operations put a new array in its place. -/
inductive Operation where
  | make (shape : Shape) (buffer : Buffer)
  | vector (buffer : Buffer)
  | scalar (type : ElementType) (element : type.Element)
  | zeros (type : ElementType) (shape : Shape)
  | empty (type : ElementType)
  | cast (type : ElementType)
  | reshape (shape : Shape)
  | rebuild (change : Shape → Buffer → Shape × Buffer)
  | exchange (type : ElementType) (layout : Layout)
  | decode (payload : List UInt8)
  | unpack (envelope : Envelope)

namespace Operation

def perform (array : TypedArray) : Operation → Except StepError TypedArray
  | .make shape buffer => (TypedArray.ofBuffer shape buffer).mapError .array
  | .vector buffer => .ok (.vector buffer)
  | .scalar type element => .ok (.scalar type element)
  | .zeros type shape => .ok (.zeros type shape)
  | .empty type => .ok (.empty type)
  | .cast type => .ok (array.cast type)
  | .reshape shape => (array.reshape shape).mapError .array
  | .rebuild change =>
      let parts := change array.shape array.buffer
      (TypedArray.ofBuffer parts.1 parts.2).mapError .array
  | .exchange type layout => (Apportion.Tensor.Axes.exchange type layout array).mapError .array
  | .decode payload => (Apportion.Payload.Decoding.decode payload).mapError .payload
  | .unpack envelope => (toArray envelope).mapError .opening

/-- The array after an operation, which is the same as before if the operation fails. -/
def advance (array : TypedArray) (operation : Operation) : TypedArray :=
  match operation.perform array with
  | .ok next => next
  | .error _ => array

def run (array : TypedArray) (operations : List Operation) : TypedArray :=
  operations.foldl advance array

end Operation

/-- The two parts of an array agree: there are as many elements as the shape demands, and they can
be had as elements of the array's own type and of no other. -/
structure Consistent (array : TypedArray) : Prop where
  count : array.buffer.length = array.shape.count
  type : array.type = array.buffer.type
  elements : ∀ type, type = array.type ↔
    ∃ elements, array.elements? type = some elements ∧ elements.length = array.shape.count

theorem consistent_of_wellFormed {array : TypedArray} (hformed : array.WellFormed) :
    Consistent array where
  count := hformed
  type := rfl
  elements := by
    intro type
    constructor
    · rintro rfl
      exact ⟨array.buffer.elements, dif_pos rfl, hformed⟩
    · rintro ⟨elements, hsome, -⟩
      unfold TypedArray.elements? at hsome
      split at hsome
      · rename_i hsame
        exact hsame.symm
      · cases hsome

theorem wellFormed_of_ofBuffer {shape : Shape} {buffer : Buffer} {array : TypedArray}
    (hmade : TypedArray.ofBuffer shape buffer = .ok array) : array.WellFormed :=
  (TypedArray.ofBuffer_eq_ok_iff.mp hmade).2

theorem wellFormed_of_decode {payload : List UInt8} {array : TypedArray}
    (hdecoded : decode payload = .ok array) : array.WellFormed := by
  rw [decode, bind_eq_ok_iff] at hdecoded
  obtain ⟨parts, -, hdecoded⟩ := hdecoded
  obtain ⟨buffer, -, hdecoded⟩ := bind_eq_ok_iff.mp hdecoded
  obtain ⟨shape, -, hdecoded⟩ := bind_eq_ok_iff.mp hdecoded
  exact wellFormed_of_ofBuffer (mapError_eq_ok_iff.mp hdecoded)

theorem wellFormed_of_applyShape {shape : Shape} {array shaped : TypedArray}
    (hformed : array.WellFormed) (hshaped : applyShape shape array = .ok shaped) :
    shaped.WellFormed := by
  unfold applyShape at hshaped
  split at hshaped
  · split at hshaped
    · cases hshaped
    · cases hshaped
      exact hformed
  · exact wellFormed_of_ofBuffer (mapError_eq_ok_iff.mp hshaped)

theorem wellFormed_of_toArray {envelope : Envelope} {array : TypedArray}
    (hopened : toArray envelope = .ok array) : array.WellFormed := by
  rw [toArray, bind_eq_ok_iff] at hopened
  obtain ⟨bytes, -, hopened⟩ := hopened
  obtain ⟨decoded, hdecoded, hopened⟩ := bind_eq_ok_iff.mp hopened
  obtain ⟨shaped, hshaped, hopened⟩ := bind_eq_ok_iff.mp hopened
  have hformed := wellFormed_of_decode (mapError_eq_ok_iff.mp hdecoded)
  cases hopened
  exact (wellFormed_of_applyShape hformed hshaped).cast envelope.type

theorem wellFormed_of_exchange {type : ElementType} {layout : Layout} {array next : TypedArray}
    (hformed : array.WellFormed) (hexchanged : exchange type layout array = .ok next) :
    next.WellFormed := by
  unfold exchange at hexchanged
  split at hexchanged
  · cases hexchanged
  · split at hexchanged
    · cases hexchanged
      exact wellFormed_rearrange layout hformed
    · cases hexchanged

theorem wellFormed_of_perform {array next : TypedArray} {operation : Operation}
    (hformed : array.WellFormed) (hperformed : operation.perform array = .ok next) :
    next.WellFormed := by
  cases operation with
  | make shape buffer => exact wellFormed_of_ofBuffer (mapError_eq_ok_iff.mp hperformed)
  | vector buffer =>
      cases hperformed
      exact TypedArray.wellFormed_vector buffer
  | scalar type element =>
      cases hperformed
      exact TypedArray.wellFormed_scalar type element
  | zeros type shape =>
      cases hperformed
      exact TypedArray.wellFormed_zeros type shape
  | empty type =>
      cases hperformed
      exact TypedArray.wellFormed_zeros type [0]
  | cast type =>
      cases hperformed
      exact hformed.cast type
  | reshape shape => exact wellFormed_of_ofBuffer (mapError_eq_ok_iff.mp hperformed)
  | rebuild change => exact wellFormed_of_ofBuffer (mapError_eq_ok_iff.mp hperformed)
  | exchange type layout =>
      exact wellFormed_of_exchange hformed (mapError_eq_ok_iff.mp hperformed)
  | decode payload => exact wellFormed_of_decode (mapError_eq_ok_iff.mp hperformed)
  | unpack envelope => exact wellFormed_of_toArray (mapError_eq_ok_iff.mp hperformed)

theorem wellFormed_advance {array : TypedArray} (hformed : array.WellFormed)
    (operation : Operation) : (Operation.advance array operation).WellFormed := by
  unfold Operation.advance
  split
  · rename_i next hperformed
    exact wellFormed_of_perform hformed hperformed
  · exact hformed

theorem wellFormed_run {array : TypedArray} (hformed : array.WellFormed)
    (operations : List Operation) : (Operation.run array operations).WellFormed := by
  induction operations generalizing array with
  | nil => exact hformed
  | cons operation operations ih => exact ih (wellFormed_advance hformed operation)

theorem array_of_map_withArray {state next : State} {outcome : Except StepError TypedArray}
    (happlied : outcome.map state.withArray = .ok next) : outcome = .ok next.array := by
  cases outcome with
  | error cause => cases happlied
  | ok array =>
      cases happlied
      rfl

theorem array_of_map_withEnvelope {state next : State} {outcome : Except StepError Envelope}
    (happlied : outcome.map state.withEnvelope = .ok next) : next.array = state.array := by
  cases outcome with
  | error cause => cases happlied
  | ok envelope =>
      cases happlied
      rfl

theorem array_of_apply {state next : State} {step : Step} (happlied : apply state step = .ok next) :
    next.array = state.array ∨
      ∃ operation : Operation, operation.perform state.array = .ok next.array := by
  cases step with
  | cast type =>
      cases happlied
      exact .inr ⟨.cast type, rfl⟩
  | reshape shape => exact .inr ⟨.reshape shape, array_of_map_withArray happlied⟩
  | zeros type shape =>
      cases happlied
      exact .inr ⟨.zeros type shape, rfl⟩
  | empty type =>
      cases happlied
      exact .inr ⟨.empty type, rfl⟩
  | vector =>
      cases happlied
      exact .inr ⟨.vector state.array.buffer, rfl⟩
  | scalar =>
      have hfirst := array_of_map_withArray happlied
      unfold firstElement at hfirst
      split at hfirst
      · cases hfirst
      · rename_i element others _
        exact .inr ⟨.scalar state.array.buffer.type element, hfirst⟩
  | exchange type? layout =>
      exact .inr ⟨.exchange (type?.getD state.array.type) layout, array_of_map_withArray happlied⟩
  | decode payload => exact .inr ⟨.decode payload, array_of_map_withArray happlied⟩
  | pack =>
      cases happlied
      exact .inl rfl
  | unpack =>
      obtain ⟨envelope, -, hopened⟩ := bind_eq_ok_iff.mp happlied
      exact .inr ⟨.unpack envelope, array_of_map_withArray hopened⟩
  | retag type shape =>
      obtain ⟨envelope, -, hmade⟩ := bind_eq_ok_iff.mp happlied
      exact .inl (array_of_map_withEnvelope hmade)
  | readDocument text => exact .inl (array_of_map_withEnvelope happlied)

theorem array_of_advance (state : State) (step : Step) :
    ∃ operations, (advance state step).array = Operation.run state.array operations := by
  unfold advance
  split
  · rename_i next happlied
    rcases array_of_apply happlied with hsame | ⟨operation, hperformed⟩
    · exact ⟨[], hsame⟩
    · have hadvanced : Operation.advance state.array operation = next.array := by
        rw [Operation.advance, hperformed]
      exact ⟨[operation], hadvanced.symm⟩
  · exact ⟨[], rfl⟩

theorem array_of_session (state : State) (steps : List Step) :
    ∃ operations, (run state steps).array = Operation.run state.array operations := by
  induction steps generalizing state with
  | nil => exact ⟨[], rfl⟩
  | cons step steps ih =>
      obtain ⟨first, hfirst⟩ := array_of_advance state step
      obtain ⟨others, hothers⟩ := ih (advance state step)
      refine ⟨first ++ others, ?_⟩
      rw [Operation.run, List.foldl_append]
      exact hothers.trans (congrArg (Operation.run · others) hfirst)

/-- An array that could be made is consistent after every run of operations, and so is the array of
every session that begins with it. -/
theorem consistent_run {shape : Shape} {buffer : Buffer} {start : TypedArray}
    (hmade : TypedArray.ofBuffer shape buffer = .ok start) :
    (∀ operations, Consistent (Operation.run start operations)) ∧
      ∀ envelope? steps, Consistent (run ⟨start, envelope?⟩ steps).array := by
  have hformed := wellFormed_of_ofBuffer hmade
  constructor
  · intro operations
    exact consistent_of_wellFormed (wellFormed_run hformed operations)
  · intro envelope? steps
    obtain ⟨operations, harray⟩ := array_of_session ⟨start, envelope?⟩ steps
    rw [harray]
    exact consistent_of_wellFormed (wellFormed_run hformed operations)

def table : TypedArray :=
  ⟨[2, 3], ⟨.int16, [1, -2, 300, 4, 5, -6]⟩⟩

/-- The second operation and the fourth fail: six elements fill no vector of four, and the payload
is cut off behind its first byte. -/
def tableOperations : List Operation :=
  [.exchange .int16 .reversed, .reshape [4], .cast .uint8, .decode [0x85],
    .rebuild fun shape buffer => (shape ++ [1], buffer)]

theorem consistent_run_table :
    TypedArray.ofBuffer [2, 3] ⟨.int16, [1, -2, 300, 4, 5, -6]⟩ = .ok table ∧
      Operation.run table tableOperations = ⟨[3, 2, 1], ⟨.uint8, [1, 4, 254, 5, 44, 250]⟩⟩ ∧
      Consistent (Operation.run table tableOperations) ∧
      Consistent (run ⟨table, none⟩ [.pack, .retag .absent (.text "[7]"), .unpack]).array := by
  have hmade : TypedArray.ofBuffer [2, 3] ⟨.int16, [1, -2, 300, 4, 5, -6]⟩ = .ok table := rfl
  obtain ⟨hruns, hsessions⟩ := consistent_run hmade
  exact ⟨hmade, by rfl, hruns tableOperations, hsessions none _⟩

end Apportion.Proofs.Tensor.ArrayRuns
