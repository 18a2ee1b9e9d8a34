import EffectGraph.Value.TaggedText
import EffectGraph.Graph.Inspection
import EffectGraph.Main
import EffectGraph.Proofs.Program.Meaning
import EffectGraph.Proofs.Program.Running
import EffectGraph.Proofs.Graph.Nodes
import EffectGraph.Proofs.Graph.Walk
import EffectGraph.Proofs.Graph.Wiring
import EffectGraph.Proofs.Graph.Below
import EffectGraph.Proofs.Graph.Growth
import EffectGraph.Proofs.Graph.Removal
import EffectGraph.Proofs.Event.Subscriptions
import EffectGraph.Proofs.Session.Actions
import EffectGraph.Proofs.Program.Over
import EffectGraph.Proofs.Session.Steps
import EffectGraph.Proofs.Session.Stepping
import EffectGraph.Proofs.Session.Levels
import EffectGraph.Proofs.Session.Reachable
import EffectGraph.Proofs.Graph.Resolving
import EffectGraph.Proofs.Session.Currency
import EffectGraph.Proofs.Session.Sound
import EffectGraph.Proofs.Session.Steady
import EffectGraph.Proofs.Session.Scripts
import EffectGraph.Proofs.Session.Passes
import EffectGraph.Proofs.Session.Rounds
import EffectGraph.Proofs.Session.Consistency
import EffectGraph.Proofs.Session.Evaluations
import EffectGraph.Proofs.Session.Spans
import EffectGraph.Proofs.Session.Attempts
import EffectGraph.Proofs.Session.Batches
import EffectGraph.Proofs.Event.Reaching
import EffectGraph.Proofs.Session.FoldCells
import EffectGraph.Proofs.Session.Deliveries
import EffectGraph.Proofs.Session.Folds
import EffectGraph.Proofs.Program.Contexts
import EffectGraph.Proofs.Session.Works
import EffectGraph.Proofs.Session.Stages
import EffectGraph.Proofs.Session.Applications
import EffectGraph.Proofs.Session.Agreement
import EffectGraph.Proofs.Program.Costs
import EffectGraph.Proofs.Program.Resolved
import EffectGraph.Proofs.Program.Collecting
import EffectGraph.Proofs.Event.Expanding
import EffectGraph.Proofs.Session.Readings
import EffectGraph.Proofs.Session.Operations
import EffectGraph.Proofs.Session.Watching
import EffectGraph.Proofs.Session.Telling
import EffectGraph.Proofs.Session.Bindings
import EffectGraph.Proofs.Failures
import EffectGraph.Proofs.Program.Performing
import EffectGraph.Proofs.Catalog.Forms
import EffectGraph.Proofs.Session.Reasons
import EffectGraph.Proofs.Session.Keeping
import EffectGraph.Proofs.Session.Checks
import EffectGraph.Proofs.Catalog.Neutral
import EffectGraph.Proofs.Demo.Page
import EffectGraph.Proofs.Graph.Spare
import EffectGraph.Proofs.Session.Overlooking
import EffectGraph.Proofs.Session.Pairs
import EffectGraph.Proofs.Session.Blind
import EffectGraph.Proofs.Session.Observing
import EffectGraph.Proofs.Program.Catching
import EffectGraph.Proofs.Session.Teardown
import EffectGraph.Proofs.Event.Exchanging
import EffectGraph.Proofs.Session.Mirroring
import EffectGraph.Proofs.Session.MirroringSessions
import EffectGraph.Proofs.Session.Commands
import EffectGraph.Proofs.Session.Modifying
import EffectGraph.Proofs.Program.EffectFree
import EffectGraph.Proofs.Session.Reducers
import EffectGraph.Proofs.Session.Attaching
import EffectGraph.Proofs.Catalog.Cases
import EffectGraph.Proofs.Session.Following
import EffectGraph.Proofs.Session.Selecting
import EffectGraph.Proofs.Graph.Tracked
import EffectGraph.Proofs.Value.Json
import EffectGraph.Proofs.Program.Named
import EffectGraph.Proofs.Catalog.Functions
import EffectGraph.Proofs.Session.Functions
import EffectGraph.Proofs.Catalog.Showing
import EffectGraph.Proofs.Program.Queues
