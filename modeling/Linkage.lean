import Linkage.Files.Load
import Linkage.Session
import Linkage.Store.ComponentCalls
import Linkage.Proofs.Entity.Handles
import Linkage.Proofs.Store.Registry
import Linkage.Proofs.World.Keeps
import Linkage.Proofs.Bus.Rewiring
import Linkage.Proofs.Bus.Emission
import Linkage.Proofs.Joint.Lifecycle
import Linkage.Proofs.World.Commands
import Linkage.Proofs.World.Reaction
import Linkage.Proofs.World.Soundness
import Linkage.Proofs.World.Deeds
import Linkage.Proofs.World.Paths
import Linkage.Proofs.Scene.Spawning
import Linkage.Proofs.Bus.Announcement
import Linkage.Proofs.Joint.Ties
import Linkage.Proofs.Joint.Agreement
import Linkage.Proofs.World.Onward
import Linkage.Proofs.World.Turns
import Linkage.Proofs.Joint.Custody
import Linkage.Proofs.Joint.Command
import Linkage.Proofs.Joint.Encounters
import Linkage.Proofs.Joint.Account
import Linkage.Proofs.Store.Selection
import Linkage.Proofs.Joint.Discovery
import Linkage.Proofs.Store.Lives
import Linkage.Proofs.Store.Issued
import Linkage.Proofs.Scene.Additions
import Linkage.Proofs.Scene.Placement
import Linkage.Proofs.World.Lineage
import Linkage.Proofs.Joint.Ends
import Linkage.Proofs.Bus.Connections
import Linkage.Proofs.Joint.Routing
import Linkage.Proofs.Joint.Attaching
import Linkage.Proofs.Joint.SceneJoints
import Linkage.Proofs.Scene.Listing
import Linkage.Proofs.World.Hearing
import Linkage.Proofs.Joint.Churn
import Linkage.Proofs.Scene.Mirror
import Linkage.Proofs.World.Removal
import Linkage.Proofs.World.Driver
import Linkage.Proofs.World.Clock
import Linkage.Proofs.World.Timing
import Linkage.Proofs.Bus.Guests
import Linkage.Proofs.World.Sharing
import Linkage.Proofs.Joint.Provenance
import Linkage.Proofs.Joint.Outcome
import Linkage.Proofs.World.Alike
import Linkage.Proofs.Joint.Order
import Linkage.Proofs.Store.Lifetimes
import Linkage.Proofs.Scene.Naming
import Linkage.Proofs.World.Snapshot
import Linkage.Proofs.Transport.Calls
import Linkage.Proofs.Transport.Delivery
import Linkage.Proofs.World.Revision
import Linkage.Proofs.Joint.Configuration
import Linkage.Proofs.Scene.Stages
import Linkage.Proofs.World.Settling
import Linkage.Proofs.Scene.Admission
import Linkage.Proofs.Scene.Spawned
import Linkage.Proofs.Bus.Moves
import Linkage.Proofs.Bus.Unwinding
import Linkage.Proofs.Topic.Repair
import Linkage.Proofs.Store.Queries
import Linkage.Proofs.Text.Trimming
import Linkage.Proofs.Topic.Rejoining
import Linkage.Proofs.Element.Writing
import Linkage.Proofs.Scene.Plugins
import Linkage.Proofs.Json.Completeness
import Linkage.Proofs.Scene.IntegerParameters
import Linkage.Proofs.Files.Joining
import Linkage.Proofs.Files.Loading
import Linkage.Proofs.Store.Dropping
