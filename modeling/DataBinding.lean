import DataBinding.Action
import DataBinding.Document
import DataBinding.Json.Printer
import DataBinding.Nested.Forest
import DataBinding.Proofs.DataPath
import DataBinding.Proofs.DataSource.MergeOrder
import DataBinding.Proofs.DataSource.ShallowMerge
import DataBinding.Proofs.Evaluation.Convergence
import DataBinding.Proofs.Evaluation.Lookup
import DataBinding.Proofs.Evaluation.Passes
import DataBinding.Proofs.Mapping.Atomicity
import DataBinding.Proofs.Mapping.MissingSource
import DataBinding.Proofs.Nested.Delivery
import DataBinding.Proofs.Nested.Lifetime
import DataBinding.Proofs.Nested.LocalWrite
import DataBinding.Proofs.Nested.Places
import DataBinding.Proofs.Nested.Projection
import DataBinding.Proofs.Nested.ReadYourWrites
import DataBinding.Proofs.Nested.References
import DataBinding.Proofs.Nested.Resync
import DataBinding.Proofs.Nested.Translation
import DataBinding.Proofs.Nested.View
import DataBinding.Proofs.Network.ActionEffects
import DataBinding.Proofs.Network.FailedProcessors
import DataBinding.Proofs.Network.SubmissionPayload
import DataBinding.Proofs.Payload.RoundTrip
import DataBinding.Proofs.Reaction.Isolation
import DataBinding.Proofs.Reference.AncestorSearch
import DataBinding.Proofs.Reference.Destinations
import DataBinding.Proofs.Store.Revision
import DataBinding.Proofs.Store.RevisionCount
import DataBinding.Proofs.Update.Append
import DataBinding.Proofs.Update.Aside
import DataBinding.Proofs.Update.Commute
import DataBinding.Proofs.Update.Congruence
import DataBinding.Proofs.Update.Deletion
import DataBinding.Proofs.Update.Frame
import DataBinding.Proofs.Update.Order
import DataBinding.Proofs.Update.Rearrange
import DataBinding.Proofs.Update.Refresh
import DataBinding.Proofs.Update.Reposition
import DataBinding.Proofs.Update.Subtree
import DataBinding.Reaction
