import StreamingPlatform.Broker.Connection
import StreamingPlatform.Broker.FrameSize
import StreamingPlatform.Cluster.BatchAgreement
import StreamingPlatform.Cluster.BatchQuorum
import StreamingPlatform.Cluster.Commit
import StreamingPlatform.Cluster.CursorBound
import StreamingPlatform.Cluster.Disks
import StreamingPlatform.Cluster.Election
import StreamingPlatform.Cluster.Failover
import StreamingPlatform.Cluster.Forwarding
import StreamingPlatform.Cluster.Isolation
import StreamingPlatform.Cluster.Limits
import StreamingPlatform.Cluster.LogMatching
import StreamingPlatform.Cluster.Ownership
import StreamingPlatform.Cluster.Quorum
import StreamingPlatform.Cluster.ReplicationCalls
import StreamingPlatform.Cluster.Requests
import StreamingPlatform.Cluster.WorkerLimit
import StreamingPlatform.Core.Balance
import StreamingPlatform.Lib.Format
import StreamingPlatform.Lib.Interleave
import StreamingPlatform.Network.WorkerPool
import StreamingPlatform.Protocol.Cursor
import StreamingPlatform.Protocol.Frame
import StreamingPlatform.Protocol.Responses
import StreamingPlatform.Storage.Directories
import StreamingPlatform.Storage.FailedAppends
import StreamingPlatform.Storage.InterruptedRecovery
import StreamingPlatform.Storage.Restart
import StreamingPlatform.Storage.SegmentBound
import StreamingPlatform.Storage.SyncWindow
