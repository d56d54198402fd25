import Lumencast.Foundation.Run
import Lumencast.Foundation.Trace
import Lumencast.Foundation.Tickets
import Lumencast.Foundation.Overwrite
import Lumencast.Foundation.Broadcast
import Lumencast.Foundation.Numbers
import Lumencast.Foundation.Fresh
import Lumencast.Foundation.Traversal
import Lumencast.Foundation.Watch
import Lumencast.Foundation.Replacement
import Lumencast.Foundation.Json
import Lumencast.Foundation.Fields
import Lumencast.Foundation.Leaves
import Lumencast.Foundation.Text
import Lumencast.Foundation.Position
import Lumencast.Foundation.Spacing
import Lumencast.Foundation.Cadence
import Lumencast.Foundation.Calendar
import Lumencast.Foundation.Conservation
import Lumencast.Foundation.Machine
import Lumencast.Foundation.Success
import Lumencast.Foundation.Record
import Lumencast.Foundation.Effect
import Lumencast.Foundation.Tail
import Lumencast.Protocol.Errors
import Lumencast.Protocol.LeafPath
import Lumencast.Protocol.Frames
import Lumencast.Protocol.Sequence
import Lumencast.Protocol.SequenceRuns
import Lumencast.Protocol.Serde
import Lumencast.Protocol.Codec
import Lumencast.Protocol.RoundTrip
import Lumencast.Protocol.PathGrammar
import Lumencast.Protocol.ScopeSubstitution
import Lumencast.Protocol.Bundle
import Lumencast.Protocol.LayoutWalk
import Lumencast.Protocol.DecodedFrames
import Lumencast.Protocol.Canonical
import Lumencast.Server.Role
import Lumencast.Server.InputSpec
import Lumencast.Server.ReplayBuffer
import Lumencast.Server.Scene
import Lumencast.Server.Flatten
import Lumencast.Server.Handler
import Lumencast.Server.InputAtomicity
import Lumencast.Server.InputFlow
import Lumencast.Server.RateLimit
import Lumencast.Server.Timestamp
import Lumencast.Server.WebsocketSubscribe
import Lumencast.Server.ErrorPaths
import Lumencast.Server.SceneOp
import Lumencast.Server.SceneCell
import Lumencast.Server.WriteOrder
import Lumencast.Server.WireOrder
import Lumencast.Server.Resume
import Lumencast.Server.SingleEmitter
import Lumencast.Server.Periodic
import Lumencast.Server.Publication
import Lumencast.Server.PublishedOnce
import Lumencast.Server.Registry
import Lumencast.Server.Connection
import Lumencast.Server.World
import Lumencast.Server.RegistrySafety
import Lumencast.Server.Delivery
import Lumencast.Server.NoLoss
import Lumencast.Server.Queue
import Lumencast.Server.ResumeDelivery
import Lumencast.Server.RetainedState
import Lumencast.Server.Acknowledgement
import Lumencast.Server.ActiveScene
import Lumencast.Server.Rejection
import Lumencast.Server.WriteAuthority
import Lumencast.Server.Scopes
import Lumencast.Server.Recoverability
import Lumencast.Server.BundleScenes
import Lumencast.Server.BundleRoute
import Lumencast.Server.Wire
import Lumencast.Server.Grammar
import Lumencast.Server.Authenticator
import Lumencast.Server.TestControl
import Lumencast.Server.SetupIsolation
import Lumencast.Server.ControlHttp
import Lumencast.Client.Manager
import Lumencast.Client.GapDetection
import Lumencast.Client.Lifecycle
import Lumencast.Client.TokenRotation
import Lumencast.Client.Opening
import Lumencast.Client.Notices
import Lumencast.Conformance.StructuralMatch
import Lumencast.Conformance.Placeholders
import Lumencast.Conformance.Control
import Lumencast.Conformance.Scenario
import Lumencast.Conformance.Player
import Lumencast.Conformance.Conversation
import Lumencast.Conformance.Harness
import Lumencast.Conformance.InProcess
import Lumencast.EndToEnd.ErrorFrames
import Lumencast.EndToEnd.Migration
import Lumencast.EndToEnd.Shadow
import Lumencast.EndToEnd.Opening
