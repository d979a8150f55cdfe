import StateSlice.Command
import StateSlice.Host
import StateSlice.Structure.Text
import StateSlice.Proofs.Combination
import StateSlice.Proofs.Locations
import StateSlice.Proofs.Batches
import StateSlice.Proofs.Resolution
import StateSlice.Proofs.Conformance
import StateSlice.Proofs.Compilation
import StateSlice.Proofs.Walks
import StateSlice.Proofs.AuditedCompilation
import StateSlice.Proofs.Paths
import StateSlice.Proofs.Positions
import StateSlice.Proofs.ResetAll
import StateSlice.Proofs.Addressing
import StateSlice.Proofs.Visits
import StateSlice.Proofs.IgnoredBoundaries
import StateSlice.Proofs.Defaults
import StateSlice.Proofs.Slices
import StateSlice.Proofs.Isolation
import StateSlice.Proofs.Selection
import StateSlice.Proofs.Descents
import StateSlice.Proofs.Declarations
import StateSlice.Proofs.WireForm
import StateSlice.Proofs.InnerNodes
import StateSlice.Proofs.KeptDefaults
import StateSlice.Proofs.Alarms
import StateSlice.Proofs.Similarity
import StateSlice.Proofs.Expansion
import StateSlice.Proofs.Pruning
import StateSlice.Proofs.Reordering
import StateSlice.Proofs.Occurrences
import StateSlice.Proofs.Rewrapping
import StateSlice.Proofs.Updates
import StateSlice.Proofs.Building
import StateSlice.Proofs.SingleValues
import StateSlice.Proofs.Overriding
import StateSlice.Proofs.Projections
import StateSlice.Proofs.Redeclarations
import StateSlice.Proofs.Insides
import StateSlice.Proofs.MatchedScalars
import StateSlice.Proofs.Reports
import StateSlice.Proofs.LeafPaths
import StateSlice.Proofs.Meanings
import StateSlice.Proofs.Hops
