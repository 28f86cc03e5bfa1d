import JsonShape.Value.Reader
import JsonShape.Workspace
import JsonShape.Proofs.Entries
import JsonShape.Proofs.Induction
import JsonShape.Proofs.Outcome
import JsonShape.Proofs.Rules
import JsonShape.Proofs.Views
import JsonShape.Proofs.Value.Indexed
import JsonShape.Proofs.Value.Refinement
import JsonShape.Proofs.Checks
import JsonShape.Proofs.Preservation
import JsonShape.Proofs.Exhaustive
import JsonShape.Proofs.Value.Navigation
import JsonShape.Proofs.Location
import JsonShape.Proofs.Resolution
import JsonShape.Proofs.Failing
import JsonShape.Proofs.Lockstep
import JsonShape.Proofs.Value.Height
import JsonShape.Proofs.Enlargement
import JsonShape.Proofs.Depth
import JsonShape.Proofs.Linking
import JsonShape.Proofs.Rereading
import JsonShape.Proofs.Revalidation
import JsonShape.Proofs.SideBySide
import JsonShape.Proofs.Stability
import JsonShape.Proofs.Value.Disregard
import JsonShape.Proofs.UnknownKeys
import JsonShape.Proofs.Handles
import JsonShape.Proofs.Number.Nearest
import JsonShape.Proofs.Number.Decimals
import JsonShape.Proofs.Number.Comparison
import JsonShape.Proofs.Value.Equality
import JsonShape.Proofs.Value.Reading
import JsonShape.Proofs.WellFormed
import JsonShape.Proofs.Literals
import JsonShape.Proofs.Fields
import JsonShape.Proofs.Records
import JsonShape.Proofs.Merging
import JsonShape.Proofs.Remaining
import JsonShape.Proofs.Inlining
import JsonShape.Proofs.Cycles
import JsonShape.Proofs.Unions
import JsonShape.Proofs.Text.Quoted
import JsonShape.Proofs.Text.Bytes
import JsonShape.Proofs.Unresolved
import JsonShape.Proofs.PathText
