import Apportion.Proofs.Envelopes.WrittenDocuments

namespace Apportion.Proofs.Envelopes.DocumentRoundTrip

open Apportion.Envelopes.Packing
open Apportion.Envelopes.Document
open Apportion.Proofs.Envelopes.WrittenDocuments

theorem ofDocument_toDocument {envelope : Envelope}
    (hbound : ∀ dimension ∈ envelope.shape, dimension ≤ largestDimension) :
    ofDocument (toDocument envelope) = .ok envelope := by
  have hread := readShape_dimensions hbound ['\x7d']
  have hcoerced := shapeOfDimensions_natCast envelope.shape
  rw [toDocument_eq]
  exact ofDocument_of_readShape hread envelope.buffer envelope.type hcoerced

/-- Buffer text with every kind of character that is escaped, one that takes two UTF-16 units and
dimensions at both ends of their range. -/
def awkward : Envelope where
  buffer := "\"\\/\x00\x08\t\n\x0c\r\x1f\x7f é 𝄞"
  type := .bool
  shape := [0, 9223372036854775807]

theorem ofDocument_toDocument_awkward :
    (∀ dimension ∈ awkward.shape, dimension ≤ largestDimension) ∧
      ofDocument (toDocument awkward) = .ok awkward := by
  have hbound : ∀ dimension ∈ awkward.shape, dimension ≤ largestDimension := by decide
  exact ⟨hbound, ofDocument_toDocument hbound⟩

end Apportion.Proofs.Envelopes.DocumentRoundTrip
