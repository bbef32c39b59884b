import Nsq.Lib.OrderedMap
import Nsq.Lib.BigEndian
import Nsq.Lib.ByteSlice
import Nsq.Lib.SortedList
import Nsq.Lib.BinaryHeap
import Nsq.Lib.RangeChain
import Nsq.Lib.BinarySearch
import Nsq.Lib.Segments
import Nsq.Lib.ByteStream
import Nsq.Lib.ExceptBind
import Nsq.Lib.SliceEdit
import Nsq.Lib.AckLog
import Nsq.DiskQueue.Basic
import Nsq.DiskQueue.Writer
import Nsq.DiskQueue.Reader
import Nsq.DiskQueue.Frames
import Nsq.DiskQueue.WriterSpec
import Nsq.DiskQueue.ReaderSpec
import Nsq.DiskQueue.Agreement
import Nsq.DiskQueue.Depth
import Nsq.Channel.Confirm
import Nsq.Channel.Intervals
import Nsq.Channel.ConfirmSpec
import Nsq.Channel.InFlight
import Nsq.Channel.InFlightQueue
import Nsq.Channel.InFlightSpec
import Nsq.Channel.InFlightSteps
import Nsq.Channel.InFlightSlice
import Nsq.CommitLog.Basic
import Nsq.CommitLog.Read
import Nsq.CommitLog.Search
import Nsq.CommitLog.Files
import Nsq.CommitLog.View
import Nsq.CommitLog.Ops
import Nsq.CommitLog.Clean
import Nsq.CommitLog.Invariant
import Nsq.CommitLog.ReadSpec
import Nsq.CommitLog.Positions
import Nsq.CommitLog.Ends
import Nsq.CommitLog.History
import Nsq.CommitLog.Reopen
import Nsq.CommitLog.SearchSpec
import Nsq.Message.Codec
import Nsq.DelayQueue.Keys
import Nsq.DelayQueue.Store
import Nsq.DelayQueue.Queue
import Nsq.DelayQueue.StoreSpec
import Nsq.DelayQueue.Consistency
import Nsq.DelayQueue.Calls
import Nsq.DelayQueue.Peek
import Nsq.DiskQueue.Positions
import Nsq.DiskQueue.ResetRead
import Nsq.DiskQueue.ResetWrite
import Nsq.DiskQueue.Snapshot
import Nsq.DiskQueue.SnapshotSpec
import Nsq.Topic.Put
import Nsq.Topic.Rollback
import Nsq.Placement.Leader
import Nsq.Placement.Alloc
import Nsq.Protocol.Frames
import Nsq.Protocol.FramesSpec
import Nsq.Lookup.Registration
import Nsq.Lookup.RegistrationSpec
import Nsq.DiskQueue.Session
import Nsq.DiskQueue.Delivery
import Nsq.Channel.Backend
import Nsq.Cluster.Coord
import Nsq.Cluster.SyncOp
import Nsq.Cluster.SyncOpSpec
import Nsq.Topic.Replica
import Nsq.Cluster.PutMessage
