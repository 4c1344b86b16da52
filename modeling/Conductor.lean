import Conductor.Proofs.Cancellation.Contexts
import Conductor.Proofs.Composition.Purposes
import Conductor.Proofs.Composition.Revalidation
import Conductor.Proofs.Composition.SizingReports
import Conductor.Proofs.Composition.SizingRule
import Conductor.Proofs.Config.Layers
import Conductor.Proofs.Engine.Attribution
import Conductor.Proofs.Engine.BuildOrder
import Conductor.Proofs.Engine.Completeness
import Conductor.Proofs.Engine.FailedBuilds
import Conductor.Proofs.Engine.Failures
import Conductor.Proofs.Engine.Fingerprints
import Conductor.Proofs.Engine.Gate
import Conductor.Proofs.Engine.Lifecycle
import Conductor.Proofs.Engine.Plan
import Conductor.Proofs.Engine.Preflight
import Conductor.Proofs.Engine.RunInput
import Conductor.Proofs.Engine.Service
import Conductor.Proofs.Engine.Sharing
import Conductor.Proofs.Engine.Transparency
import Conductor.Proofs.Engine.UnknownSelectors
import Conductor.Proofs.Event.RoundTrip
import Conductor.Proofs.Health.Fixers
import Conductor.Proofs.Local.Outputs
import Conductor.Proofs.Local.Parameters
import Conductor.Proofs.Local.Refusals
import Conductor.Proofs.Local.Tracking
import Conductor.Proofs.Log.Pieces
import Conductor.Proofs.Run.Bookkeeping
import Conductor.Proofs.Run.Classification
import Conductor.Proofs.Run.Delivery
import Conductor.Proofs.Run.FinishEvents
import Conductor.Proofs.Run.Roster
import Conductor.Proofs.Selector
import Conductor.Proofs.Table
import Conductor.Rehearsal.Directions
import Conductor.Rehearsal.Machine
