import Wire.Engine.ChainCleanup
import Wire.Engine.EndOfInput
import Wire.Coordinator.Placement
import Wire.Coordinator.Savepoints
import Wire.Coordinator.Rescaling
import Wire.Coordinator.Recovery
import Wire.Coordinator.Completion
import Wire.Coordinator.Overlap
import Wire.Coordinator.PrefixScan
import Wire.Worker.Reservations
import Wire.Planner.Routing
import Wire.Planner.FullCopy
import Wire.Engine.WindowSnapshot
import Wire.Engine.CheckpointStore
import Wire.Engine.CheckpointUpload
import Wire.Engine.SourceWatermark
import Wire.Engine.ErrorHandler
import Wire.Sdk.PartitionRouter
import Wire.Protocol.Frame
import Wire.Transport.FrameStream
import Wire.Transport.PeerAddress
import Wire.Cluster.Decisions
import Wire.Cluster.Rescale
import Wire.Engine.WindowMemory
