import NmosReference.Ccf.CapsJson
import NmosReference.Ccf.CapsJsonExact
import NmosReference.Ccf.CapsJsonRanges
import NmosReference.Ccf.Constriction
import NmosReference.Ccf.Natives
import NmosReference.Ccf.Normalize
import NmosReference.Ccf.NormalizeExact
import NmosReference.Ccf.Operators
import NmosReference.Ccf.Range
import NmosReference.Ccf.RangeInclusion
import NmosReference.Ccf.RangeIntersection
import NmosReference.Ccf.RangeKinds
import NmosReference.Ccf.RangeShapes
import NmosReference.Ccf.Sets
import NmosReference.Ccf.Values
import NmosReference.Cluster.ClusterSteps
import NmosReference.Cluster.LiveNodes
import NmosReference.Cluster.NodeHealth
import NmosReference.Cluster.RaftBackend
import NmosReference.Connection.Activation
import NmosReference.Connection.Atomicity
import NmosReference.Connection.Constraints
import NmosReference.Connection.ConstraintsExact
import NmosReference.Connection.EngineWrites
import NmosReference.Connection.Flip
import NmosReference.Connection.FlipWrites
import NmosReference.Connection.Schedule
import NmosReference.Connection.ScheduleRuns
import NmosReference.Connection.ScheduleSteps
import NmosReference.Controller.Cache
import NmosReference.Controller.CacheListener
import NmosReference.Controller.CacheStatus
import NmosReference.Controller.CacheStatusRuns
import NmosReference.Controller.CacheStores
import NmosReference.Controller.Compat
import NmosReference.Controller.CompatExact
import NmosReference.Controller.RdsWebSocket
import NmosReference.Controller.RdsWebSocketRuns
import NmosReference.Controller.RdsWebSocketSystem
import NmosReference.Controller.RdsWebSocketViews
import NmosReference.Json.Engine
import NmosReference.Json.EngineRuns
import NmosReference.Json.EngineText
import NmosReference.Library.Ancestry
import NmosReference.Library.Base64
import NmosReference.Library.Bisect
import NmosReference.Library.BitFields
import NmosReference.Library.Bounds
import NmosReference.Library.CounterMode
import NmosReference.Library.Crc
import NmosReference.Library.Dict
import NmosReference.Library.Handler
import NmosReference.Library.Json
import NmosReference.Library.JsonLayout
import NmosReference.Library.JsonReading
import NmosReference.Library.JsonWriting
import NmosReference.Library.Protobuf
import NmosReference.Library.Quorum
import NmosReference.Library.Rounding
import NmosReference.Library.Searches
import NmosReference.Library.Sort
import NmosReference.Library.Text
import NmosReference.Library.Transition
import NmosReference.Library.Utf8
import NmosReference.Pep.Ipmx
import NmosReference.Pep.RtpStream
import NmosReference.Pep.Segments
import NmosReference.Query.Instance
import NmosReference.Query.InstanceRuns
import NmosReference.Query.PageWindows
import NmosReference.Query.Paging
import NmosReference.Query.PagingLinks
import NmosReference.Query.PagingParameters
import NmosReference.Query.PagingReference
import NmosReference.Query.PagingRuns
import NmosReference.Query.PagingWalk
import NmosReference.Query.Subscriptions
import NmosReference.Raft.Agreement
import NmosReference.Raft.Assembly
import NmosReference.Raft.Batching
import NmosReference.Raft.Capture
import NmosReference.Raft.CatchUp
import NmosReference.Raft.CatchUpRuns
import NmosReference.Raft.Cluster
import NmosReference.Raft.ClusterRefines
import NmosReference.Raft.CodecRoundTrip
import NmosReference.Raft.Commitment
import NmosReference.Raft.Completeness
import NmosReference.Raft.CursorMarks
import NmosReference.Raft.CursorRuns
import NmosReference.Raft.CursorStore
import NmosReference.Raft.Cursors
import NmosReference.Raft.Durable
import NmosReference.Raft.Elections
import NmosReference.Raft.FrameCodec
import NmosReference.Raft.Frames
import NmosReference.Raft.Lineage
import NmosReference.Raft.Link
import NmosReference.Raft.Log
import NmosReference.Raft.LogMatching
import NmosReference.Raft.Machine
import NmosReference.Raft.MachinePublish
import NmosReference.Raft.MachineSound
import NmosReference.Raft.MessageRoundTrip
import NmosReference.Raft.Messages
import NmosReference.Raft.Node
import NmosReference.Raft.NodeFrames
import NmosReference.Raft.NodeGrowth
import NmosReference.Raft.NodeHandlers
import NmosReference.Raft.NodeIndexes
import NmosReference.Raft.NodeInstalls
import NmosReference.Raft.NodeRuns
import NmosReference.Raft.NodeSnapshots
import NmosReference.Raft.OperationCodec
import NmosReference.Raft.OperationRoundTrip
import NmosReference.Raft.Operations
import NmosReference.Raft.Ownership
import NmosReference.Raft.Parties
import NmosReference.Raft.Party
import NmosReference.Raft.PartyAnswers
import NmosReference.Raft.PartyHandlers
import NmosReference.Raft.PartyMoves
import NmosReference.Raft.PartyReplication
import NmosReference.Raft.Persist
import NmosReference.Raft.Readers
import NmosReference.Raft.Safety
import NmosReference.Raft.Snapshot
import NmosReference.Raft.SnapshotCapture
import NmosReference.Raft.SnapshotCodec
import NmosReference.Raft.SnapshotInstall
import NmosReference.Raft.SnapshotPinned
import NmosReference.Raft.SnapshotRuns
import NmosReference.Raft.SnapshotWalk
import NmosReference.Registry.Envelopes
import NmosReference.Registry.EtcdView
import NmosReference.Registry.Keys
import NmosReference.Registry.Spans
import NmosReference.Registry.Store
import NmosReference.Registry.StoreCascade
import NmosReference.Registry.StoreCursors
import NmosReference.Registry.StoreForget
import NmosReference.Registry.StoreIntervals
import NmosReference.Registry.StoreMirror
import NmosReference.Registry.StoreOrder
import NmosReference.Registry.StorePublish
import NmosReference.Registry.StoreRegister
import NmosReference.Registry.StoreRuns
import NmosReference.Registry.StoreSound
import NmosReference.Registry.StoreTree
import NmosReference.Registry.Types
import NmosReference.Reservation.ExclusiveSession
import NmosReference.Reservation.ExclusiveSessionRuns
import NmosReference.Status.Monitor
import NmosReference.Status.MonitorRuns
import NmosReference.Status.MonitorSteps
import NmosReference.Uuid.Base62
import NmosReference.Uuid.ResourceUuid
import NmosReference.Uuid.ResourceUuidCodec
import NmosReference.Uuid.ResourceUuidRoundTrip
import NmosReference.Uuid.ResourceUuidText
