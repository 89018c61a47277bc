import Apportion.Proofs.Envelopes.ShapeTexts
import Apportion.Proofs.Envelopes.WrittenDocuments

namespace Apportion.Proofs.Envelopes.ShapeForms

open Apportion.Json.Writing
open Apportion.Envelopes.Packing
open Apportion.Envelopes.Document
open Apportion.Tensor.Arrays
open Apportion.Proofs.Envelopes.ShapeTexts
open Apportion.Proofs.Envelopes.WrittenDocuments

/-- What is read from the documents that give an envelope's parts, with the shape in either form. -/
structure BothForms (envelope : Envelope) : Prop where
  text :
    ofDocument (documentWith envelope.buffer envelope.type.name (writeText envelope.shape.text)) =
      .ok envelope
  list : (∀ dimension ∈ envelope.shape, dimension ≤ largestDimension) →
    ofDocument (toDocument envelope) = .ok envelope
  refused : (∃ dimension ∈ envelope.shape, largestDimension < dimension) →
    ofDocument (toDocument envelope) = .error (.content (.noForm "RawShape"))

theorem bothForms_of_word {envelope : Envelope}
    (hword : ∀ dimension ∈ envelope.shape, dimension < UInt64.size) : BothForms envelope where
  text := by
    have hread := readShape_writeText envelope.shape.text ['\x7d']
    exact ofDocument_of_readShape hread envelope.buffer envelope.type (shapeOfText_text hword)
  list hbound := by
    have hread := readShape_dimensions hbound ['\x7d']
    have hcoerced := shapeOfDimensions_natCast envelope.shape
    exact ofDocument_of_readShape hread envelope.buffer envelope.type hcoerced
  refused := by
    rintro ⟨dimension, hmem, hlarge⟩
    have hread := readShape_refused hword hmem hlarge ['\x7d']
    exact ofDocument_of_readShape_error hread envelope.buffer envelope.type.name

/-- An array without elements, one of whose dimensions is no signed integer. -/
def wide : TypedArray :=
  .zeros .int8 [9223372036854775808, 0]

theorem bothForms_wide :
    wide.WellFormed ∧ (∀ dimension ∈ (ofArray wide).shape, dimension < UInt64.size) ∧
      ofDocument (documentWith (ofArray wide).buffer "int8"
        (writeText "[9223372036854775808, 0]")) = .ok (ofArray wide) ∧
      ofDocument (toDocument (ofArray wide)) = .error (.content (.noForm "RawShape")) := by
  have hword : ∀ dimension ∈ (ofArray wide).shape, dimension < UInt64.size := by decide
  have hforms := bothForms_of_word hword
  exact ⟨TypedArray.wellFormed_zeros _ _, hword, hforms.text,
    hforms.refused ⟨9223372036854775808, by decide, by decide⟩⟩

end Apportion.Proofs.Envelopes.ShapeForms
