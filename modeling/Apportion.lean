import Apportion.Session
import Apportion.Version
import Apportion.Weights.Dense
import Apportion.Weights.PolicyFile
import Apportion.Weights.Processing
import Apportion.Proofs.Number.ExactArithmetic
import Apportion.Proofs.Weights.CapPasses
import Apportion.Proofs.Weights.WaterFilling
import Apportion.Proofs.Outcomes
import Apportion.Proofs.Weights.Checks
import Apportion.Proofs.Weights.CappedNormalization
import Apportion.Proofs.Weights.OrderStatistics
import Apportion.Proofs.Weights.ProcessingSteps
import Apportion.Proofs.Weights.PolicyConformance
import Apportion.Proofs.Base64
import Apportion.Proofs.Payload.WrittenPayload
import Apportion.Proofs.Envelopes.RoundTrip
import Apportion.Proofs.Number.DoubleGrid
import Apportion.Proofs.Number.DoubleRounding
import Apportion.Proofs.Number.DoubleOperations
import Apportion.Proofs.Number.DoubleWords
import Apportion.Proofs.Number.Doubles
import Apportion.Proofs.Number.DoubleSums
import Apportion.Proofs.Weights.DoubleShares
import Apportion.Proofs.Weights.EmissionOfProcessed
import Apportion.Proofs.MessagePack.Delimiting
import Apportion.Proofs.MessagePack.SkippedValues
import Apportion.Proofs.Payload.Layouts
import Apportion.Proofs.Payload.SelfDelimiting
import Apportion.Proofs.Tensor.SwappedBytes
import Apportion.Proofs.Payload.SwappedPayloads
import Apportion.Proofs.Json.WrittenCollections
import Apportion.Proofs.Envelopes.DocumentRoundTrip
import Apportion.Proofs.Envelopes.Numerals
import Apportion.Proofs.Envelopes.ShapeTexts
import Apportion.Proofs.Envelopes.ShapeForms
import Apportion.Proofs.Envelopes.DeclaredShapes
import Apportion.Proofs.Number.WholeRounding
import Apportion.Proofs.Tensor.ArrayRuns
import Apportion.Proofs.Tensor.IntegerCasts
import Apportion.Proofs.Number.FormatRounding
import Apportion.Proofs.Tensor.FloatCasts
import Apportion.Proofs.Weights.EmissionCap
import Apportion.Proofs.Weights.ProportionalEmission
import Apportion.Proofs.Weights.WidthRefinement
import Apportion.Proofs.Weights.UnavailableSubnets
import Apportion.Proofs.Weights.FirstRefusal
import Apportion.Proofs.Number.NearestWords
import Apportion.Proofs.Number.ShortestDecimals
import Apportion.Proofs.Number.ReadDecimals
import Apportion.Proofs.Json.WrittenDoubles
import Apportion.Proofs.Weights.PolicyRoundTrip
import Apportion.Proofs.Weights.ShareRules
import Apportion.Proofs.Weights.ShareSymmetries
import Apportion.Proofs.Weights.LimitContinuity
import Apportion.Proofs.Weights.ExactCeiling
import Apportion.Proofs.Number.RoundingErrors
import Apportion.Proofs.Weights.SumOfShares
import Apportion.Proofs.Sparse.LastWrites
import Apportion.Proofs.Sparse.AvailableParts
import Apportion.Proofs.Weights.DenseShares
import Apportion.Proofs.Weights.TailExclusion
import Apportion.Proofs.Weights.UnitLimit
import Apportion.Proofs.Weights.TotalBounds
import Apportion.Proofs.Weights.QuantileCounts
import Apportion.Proofs.Tensor.StridedViews
import Apportion.Proofs.Weights.PartialPolicies
