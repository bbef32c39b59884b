import Nsq.CommitLog.Basic
import Nsq.Topic.Put

/-!
# Topic coordinators: their data, their checks and their errors

Each node of a cluster runs an `NsqdCoordinator`, which keeps a `TopicCoordinator` for every
topic partition the node replicates. The coordinator's `coordData` holds what the lookup service
last told it: the partition's leader, its in-sync replicas (`ISR`), how many replicas it should
have, the epoch writes are made under (`EpochForWrite`), and the leader session. The
coordinator also carries the flags `disableWrite` and `exiting`, which other goroutines set.

The write path reads only these fields; the model keeps them and leaves out the rest of
`TopicPartitionMetaInfo` (channels, the catch-up list, the retention settings) and of the
session. A partition is fixed, so the topic's name and partition number are left out too.

`CoordErr` is the coordinator's error: a message, an RPC code and a type. The message is the
text of a fixed error or the `Error()` text of an error the coordinator wraps; `ErrMsg` keeps
which, so the text can be read back. The requests a coordinator sends to the lookup service
(`requestLeaveFromISR` and the others) are recorded as `LookupRequest`s.
-/

namespace Nsq.Coord

/-- `CoordErrType`, in the order of its `iota` constants. -/
inductive CoordErrType where
  | coordNoErr
  | coordCommonErr
  | coordNetErr
  | coordElectionErr
  | coordElectionTmpErr
  | coordClusterErr
  | coordSlaveErr
  | coordLocalErr
  | coordLocalTmpErr
  | coordTmpErr
  | coordClusterNoRetryWriteErr
  deriving DecidableEq, Repr

/-- The `ErrRPCRetCode`s of the write path. -/
inductive ErrRPCRetCode where
  | rpcNoErr
  | rpcCommonErr
  | rpcErrNotTopicLeader
  | rpcErrEpochMismatch
  | rpcErrWriteQuorumFailed
  | rpcErrMissingTopicLeaderSession
  | rpcErrWriteDisabled
  | rpcErrTopicNotExist
  | rpcErrMissingTopicCoord
  | rpcErrWriteOnNonISR
  deriving DecidableEq, Repr

/-- The `ErrMsg` of a `CoordErr`: a fixed text, or the `Error()` text of the error wrapped. -/
inductive ErrMsg where
  | text (s : String)
  /-- a topic's publish error -/
  | topic (e : TopicError)
  /-- a commit log error -/
  | commitLog (e : CommitLogError)
  /-- the transport's error text of a failed RPC -/
  | net (s : String)
  deriving DecidableEq, Repr

/-- `CoordErr` -/
structure CoordErr where
  errMsg : ErrMsg
  errCode : ErrRPCRetCode
  errType : CoordErrType
  deriving DecidableEq, Repr

/-- `NewCoordErr`: an error with the common RPC code. -/
def newCoordErr (msg : ErrMsg) (etype : CoordErrType) : CoordErr := ⟨msg, .rpcCommonErr, etype⟩

/-- `NewCoordErrWithCode` -/
def newCoordErrWithCode (msg : ErrMsg) (etype : CoordErrType) (code : ErrRPCRetCode) : CoordErr :=
  ⟨msg, code, etype⟩

/-- `MAX_WRITE_RETRY` -/
def maxWriteRetry : Nat := 10

namespace CoordErr

/-- `HasError`: anything but the zero value. -/
def hasError (e : CoordErr) : Bool := !(e.errType == .coordNoErr && e.errCode == .rpcNoErr)

/-- `IsNetErr` -/
def isNetErr (e : CoordErr) : Bool := e.errType == .coordNetErr

/-- `CanRetryWrite`: whether a write that failed with this error may be tried again after
`retryTimes` rounds. -/
def canRetryWrite (e : CoordErr) (retryTimes : Nat) : Bool :=
  if e.errType = .coordClusterNoRetryWriteErr then false
  else if e.errType = .coordElectionErr then !(retryTimes > maxWriteRetry)
  else if e.errType = .coordTmpErr ∨ e.errType = .coordElectionTmpErr ∨
      e.errType = .coordLocalTmpErr then !(retryTimes > maxWriteRetry * 3)
  else e.errType == .coordSlaveErr || e.isNetErr

end CoordErr

/-! ## The errors of the write path -/

/-- `ErrTopicExiting` -/
def errTopicExiting : CoordErr :=
  newCoordErr (.text "topic coordinator is exiting") .coordLocalTmpErr

/-- `ErrTopicExitingOnSlave` -/
def errTopicExitingOnSlave : CoordErr :=
  newCoordErr (.text "topic coordinator is exiting on slave") .coordTmpErr

/-- `ErrNotTopicLeader` -/
def errNotTopicLeader : CoordErr :=
  newCoordErrWithCode (.text "not topic leader") .coordClusterNoRetryWriteErr .rpcErrNotTopicLeader

/-- `ErrEpochMismatch` -/
def errEpochMismatch : CoordErr :=
  newCoordErrWithCode (.text "commit epoch not match") .coordElectionTmpErr .rpcErrEpochMismatch

/-- `ErrWriteQuorumFailed` -/
def errWriteQuorumFailed : CoordErr :=
  newCoordErrWithCode (.text "write to quorum failed.") .coordElectionTmpErr
    .rpcErrWriteQuorumFailed

/-- `ErrMissingTopicLeaderSession` -/
def errMissingTopicLeaderSession : CoordErr :=
  newCoordErrWithCode (.text "missing topic leader session") .coordElectionErr
    .rpcErrMissingTopicLeaderSession

/-- `ErrWriteDisabled` -/
def errWriteDisabled : CoordErr :=
  newCoordErrWithCode (.text "write is disabled on the topic") .coordElectionErr
    .rpcErrWriteDisabled

/-- `ErrTopicWriteOnNonISR` -/
def errTopicWriteOnNonISR : CoordErr :=
  newCoordErrWithCode (.text "topic write on a node not in ISR") .coordTmpErr .rpcErrWriteOnNonISR

/-- `ErrMissingTopicCoord` -/
def errMissingTopicCoord : CoordErr :=
  newCoordErrWithCode (.text "missing topic coordinator") .coordClusterErr .rpcErrMissingTopicCoord

/-! ## The coordinator's data -/

/-- The fields of `TopicPartitionMetaInfo` the write path reads. -/
structure TopicPartitionMetaInfo where
  leader : String
  isr : List String
  replica : Nat
  epochForWrite : Int
  /-- `Partition` -/
  partition : Int
  deriving DecidableEq, Repr

/-- `TopicLeaderSession`: the leader node's ID (`LeaderNode`, `nil` as `none`) and the session. -/
structure TopicLeaderSession where
  leaderNode : Option String
  session : String
  deriving DecidableEq, Repr

/-- `coordData` -/
structure CoordData where
  topicInfo : TopicPartitionMetaInfo
  topicLeaderSession : TopicLeaderSession
  forceLeave : Bool
  deriving DecidableEq, Repr

namespace CoordData

/-- `GetLeaderSessionID`: the leader node's ID, empty without one. -/
def getLeaderSessionID (d : CoordData) : String := d.topicLeaderSession.leaderNode.getD ""

/-- `IsMineISR`: `FindSlice(ISR, id) != -1`. -/
def isMineISR (d : CoordData) (id : String) : Bool := d.topicInfo.isr.contains id

/-- `GetTopicEpochForWrite` -/
def getTopicEpochForWrite (d : CoordData) : Int := d.topicInfo.epochForWrite

/-- `checkWriteForLeader`: a node may lead writes when it is not forced to leave, it is both the
leader and the session's leader node, and the session is set. -/
def checkWriteForLeader (d : CoordData) (myID : String) : Option CoordErr :=
  if d.forceLeave then some errNotTopicLeader
  else if d.getLeaderSessionID ≠ myID ∨ d.topicInfo.leader ≠ myID then some errNotTopicLeader
  else if d.topicLeaderSession.session = "" then some errMissingTopicLeaderSession
  else none

/-- `IsISRReadyForWrite`: more than half of the replicas are in the ISR, and the node is. -/
def isISRReadyForWrite (d : CoordData) (myID : String) : Bool :=
  decide (d.topicInfo.isr.length > d.topicInfo.replica / 2) && d.isMineISR myID

/-- The copy the leader keeps when it gives up leading (`LeaderNode = nil`). -/
def withoutLeaderNode (d : CoordData) : CoordData :=
  { d with topicLeaderSession := { d.topicLeaderSession with leaderNode := none } }

end CoordData

/-- The `TopicCoordinator` of a partition: its data and its two flags. -/
structure TopicCoordinator where
  coordData : CoordData
  disableWrite : Bool
  exiting : Bool
  deriving DecidableEq, Repr

/-- The requests a coordinator sends to the lookup service about the partition. -/
inductive LookupRequest where
  /-- `requestLeaveFromISR` -/
  | leaveFromISR
  /-- `requestLeaveFromISRByLeader`, for a node of the ISR -/
  | leaveFromISRByLeader (nid : String)
  /-- `requestCheckTopicConsistence` -/
  | checkTopicConsistence
  /-- `requestNotifyNewTopicInfo` -/
  | notifyNewTopicInfo
  deriving DecidableEq, Repr

end Nsq.Coord
