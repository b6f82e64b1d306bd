import TableSchema.AsciiFold
import TableSchema.Blank
import TableSchema.ColumnType
import TableSchema.Cut
import TableSchema.Event
import TableSchema.IdIndex
import TableSchema.Ident
import TableSchema.Lookup
import TableSchema.NodeWalk
import TableSchema.Numeral
import TableSchema.PathIndex
import TableSchema.Place
import TableSchema.Primitive
import TableSchema.PrimitiveReader
import TableSchema.Proofs.BuildsOnDemand
import TableSchema.Proofs.CanonicalPaths
import TableSchema.Proofs.Consultation
import TableSchema.Proofs.DirectLookup
import TableSchema.Proofs.ElidedHops
import TableSchema.Proofs.ExtentAgreement
import TableSchema.Proofs.FaithfulRuns
import TableSchema.Proofs.FirstCome
import TableSchema.Proofs.FoldedPaths
import TableSchema.Proofs.FullProjection
import TableSchema.Proofs.IdLookup
import TableSchema.Proofs.IdPositions
import TableSchema.Proofs.JoinedProjection
import TableSchema.Proofs.Kept
import TableSchema.Proofs.LeafEnds
import TableSchema.Proofs.LeafGrammar
import TableSchema.Proofs.LeafRoundTrip
import TableSchema.Proofs.NarrowedLookup
import TableSchema.Proofs.Narrowing
import TableSchema.Proofs.Outcome
import TableSchema.Proofs.PathClashes
import TableSchema.Proofs.PathDescent
import TableSchema.Proofs.PathLookup
import TableSchema.Proofs.PathSelection
import TableSchema.Proofs.PathWalk
import TableSchema.Proofs.Projection
import TableSchema.Proofs.Pruned
import TableSchema.Proofs.Remembered
import TableSchema.Proofs.RepeatedSelection
import TableSchema.Proofs.Resolution
import TableSchema.Proofs.Restriction
import TableSchema.Proofs.SelectionOrder
import TableSchema.Proofs.Sharing
import TableSchema.Proofs.Slots
import TableSchema.Proofs.StagedProjection
import TableSchema.Proofs.Survivors
import TableSchema.Proofs.UnambiguousText
import TableSchema.Pruning
import TableSchema.Samples
import TableSchema.Schema
import TableSchema.SchemaDebug
import TableSchema.SchemaError
import TableSchema.TypeText
import TableSchema.Workspace
