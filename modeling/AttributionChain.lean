import AttributionChain.Go
import AttributionChain.Sorting
import AttributionChain.HashChain
import AttributionChain.Histories
import AttributionChain.AppendLog
import AttributionChain.SimplePaths
import AttributionChain.NoisyOr
import AttributionChain.BigEndian
import AttributionChain.Hex
import AttributionChain.Pattern
import AttributionChain.Sha256
import AttributionChain.Ecdsa
import AttributionChain.CborHead
import AttributionChain.CborMap
import AttributionChain.CborLibrary
import AttributionChain.Platform
import AttributionChain.LedgerCodec
import AttributionChain.LedgerEvent
import AttributionChain.LedgerRecord
import AttributionChain.LedgerCanonical
import AttributionChain.LedgerChain
import AttributionChain.Signers
import AttributionChain.EndorsementPayload
import AttributionChain.EndorsementCanonical
import AttributionChain.SignedStatements
import AttributionChain.LedgerStore
import AttributionChain.StoreRefinement
import AttributionChain.Graph
import AttributionChain.GraphIndex
import AttributionChain.GraphRepresentation
import AttributionChain.Projector
import AttributionChain.ProjectionFrame
import AttributionChain.PagedReplay
import AttributionChain.FailClosed
import AttributionChain.Projection
import AttributionChain.Admission
import AttributionChain.AdmissionRuns
import AttributionChain.AdmissionLog
import AttributionChain.HttpApi
import AttributionChain.Contention
import AttributionChain.Projectability
import AttributionChain.SignedEdges
import AttributionChain.Evaluator
import AttributionChain.PathSearch
import AttributionChain.QualifyingPaths
import AttributionChain.Provenance
import AttributionChain.Reproducibility
import AttributionChain.Confidence
import AttributionChain.AdmissionOrder
import AttributionChain.LedgerIsolation
import AttributionChain.Influence
import AttributionChain.ConfidenceApi
import AttributionChain.TrustChains
import AttributionChain.ReadApi
