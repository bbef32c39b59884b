import Nsq.Cluster.SyncOpSpec
import Nsq.Topic.Replica
import Nsq.CommitLog.Ops

/-!
# A put to the cluster: `internalPutMessageToCluster` and the replicas' `PutMessage`

The leader of a partition publishes a message with `PutMessageToCluster`, which runs
`doSyncOpToCluster` with the closures of `internalPutMessageToCluster` (`putOps`). The local write
is `PutMessageNoLock`; it fills the commit log record (`commitLog`) with the message's ID, the
epoch, and the offset and frame size of the write. Each sync sends the record and the message to a
replica by `PutMessage` over RPC. The replica checks the epoch (`checkWriteForRpcCall`), then runs
`putMessageOnSlave`: a record already committed (`IsCommitted`) is answered at once, and otherwise
the replica writes the message at the leader's offset (`PutMessageOnReplica`) and appends the
record to its commit log. The leader's commit appends the record to its own log.

The RPC goes through `CallWithRetry`, which makes up to five attempts. What becomes of each
attempt of the whole write is a parameter `net`. An attempt is answered, or it fails with the
transport's error after the server ran the request or before it. After a connection error with
a successful reconnect, the client tries again. So a replica may run the same request several
times, and the leader may send it again in a later round.

`putMessageToCluster_replicated` says that a put that answers `nil` left every node of the
leader's ISR with the put's message ID as its last committed log ID, under data that passed the leader and
quorum checks, whatever became of each attempt. The argument is the commit rule of the rounds
(`retrySync_committed`) with two invariants of the closures: the record and the message stay as
the local write left them (`keeps_commitLog_msg`), and a replica that committed the record
answers every later delivery as a duplicate and keeps its commit log (`keeps_pLogID`).

`putMessageToCluster_stores_once` says that, whatever the put answers and whatever became of each
attempt, a replica's queue holds its old log and at most one message more. A replica that took the
message answers a later delivery from its commit log (`IsCommitted`) or, when its commit failed,
from the offset check of `PutMessageOnReplica`, its queue being past the put's offset
(`HoldsOnce`, kept by `rpcPutMessage_holdsOnce`). The rounds keep it at that replica
(`keeps_holdsOnce`), and the leader's own closures do not touch it (`keepsExit_other`).

The model keeps the nodes' coordinators, topics and their partitions, commit logs, disks and
their requests to the lookup service. It leaves out the delayed queue (`putDelayed`), raw
messages, and the RPC's session fields, which the replica only logs.
-/

namespace Nsq.Coord

open Topic DiskQueueWriter

/-- A node of the cluster, as the writes of one partition see it. -/
structure Node where
  coord : Option TopicCoordinator
  topic : Option Topic
  /-- the partition the local topic records (`GetTopicPart`) -/
  topicPart : Int
  logMgr : TopicCommitLogMgr
  disk : Disk
  sent : List LookupRequest

/-- A request of the node to the lookup service. -/
def Node.send (n : Node) (r : LookupRequest) : Node := { n with sent := n.sent ++ [r] }

/-- The fields of `RpcTopicData` a replica checks. -/
structure RpcTopicData where
  topicLeader : String
  topicWriteEpoch : Int

/-- `RpcPutMessage`, without a raw message. -/
structure RpcPutMessage where
  rpcTopicData : RpcTopicData
  logData : CommitLogData
  topicMessage : Codec.Message

/-- The `Error()` text of a replica's write error. -/
def replicaErrMsg : ReplicaError → ErrMsg
  | .writeOffsetMismatch => .text "write offset mismatch"
  | .topic e => .topic e

/-- `checkWriteForRpcCall` -/
def checkWriteForRpcCall (n : Node) (rpcData : RpcTopicData) : Node × Except CoordErr TopicCoordinator :=
  match n.coord with
  | none => (n, .error errMissingTopicCoord)
  | some tc =>
    if tc.coordData.getTopicEpochForWrite ≠ rpcData.topicWriteEpoch then
      (n.send .notifyNewTopicInfo, .error errEpochMismatch)
    else if rpcData.topicLeader ≠ "" ∧ tc.coordData.topicInfo.leader ≠ rpcData.topicLeader then
      (n.send .notifyNewTopicInfo, .error errNotTopicLeader)
    else (n, .ok tc)

/-- A replica's node and the `queueEnd` variable of `putMessageOnSlave`. -/
structure SlaveCall where
  node : Node
  queueEnd : DiskQueueEndInfo

/-- `ErrLocalTopicPartitionMismatch.String()`: `ErrType:`, its type `CoordLocalErr` (7),
` ErrCode:`, its code `RpcCommonErr` (1), ` : ` and its text. -/
def errLocalTopicPartitionMismatchString : String :=
  "ErrType:7 ErrCode:1 : local topic partition not match"

/-- The closures `putMessageOnSlave` passes to `doWriteOpOnSlave`. The check that the commit log
manager is not `nil` is not modelled: `checkDupOnSlave` has called `IsCommitted` on it before, which
reads its `pLogID`. -/
def putMessageOnSlaveOps (rotateNum : Int) (logData : CommitLogData) (msg : Codec.Message) :
    SlaveOps SlaveCall where
  checkDupOnSlave _ s := s.node.logMgr.pLogID == logData.logID
  doLocalWriteOnSlave tc s :=
    match s.node.topic with
    | none => (s, some ⟨.text "topic does not exist", .rpcErrTopicNotExist, .coordSlaveErr⟩)
    | some t =>
      if s.node.topicPart ≠ tc.topicInfo.partition then
        (s, some ⟨.text errLocalTopicPartitionMismatchString, .rpcErrTopicNotExist, .coordSlaveErr⟩)
      else
        match putMessageOnReplica s.node.disk t msg logData.msgOffset logData.msgSize with
        | (disk', t', .error e) =>
          ({ s with node := { s.node with disk := disk', topic := some t' } },
            some ⟨replicaErrMsg e, .rpcCommonErr, .coordSlaveErr⟩)
        | (disk', t', .ok qe) => (⟨{ s.node with disk := disk', topic := some t' }, qe⟩, none)
  doLocalCommit s :=
    match s.node.logMgr.appendCommitLog rotateNum logData true with
    | (m, some e) => ({ s with node := { s.node with logMgr := m } }, some (.commitLog e))
    | (m, none) =>
      match s.node.topic with
      | none => ({ s with node := { s.node with logMgr := m } }, none)
      | some t =>
        let r := updateCommittedOffset s.node.disk t s.queueEnd
        ({ s with node := { s.node with logMgr := m, disk := r.1, topic := some r.2 } }, none)
  doLocalExit _ s := s
  send r s := { s with node := s.node.send r }

/-- `PutMessage` of the RPC server on node `nodeID`, then `putMessageOnSlave`. -/
def rpcPutMessage (rotateNum : Int) (nodeID : String) (info : RpcPutMessage) (n : Node) :
    Node × Option CoordErr :=
  match checkWriteForRpcCall n info.rpcTopicData with
  | (n', .error e) => (n', some e)
  | (n', .ok tc) =>
    let r := doWriteOpOnSlave nodeID (putMessageOnSlaveOps rotateNum info.logData info.topicMessage)
      tc ⟨n', DiskQueueEndInfo.zero⟩
    (r.1.node, r.2)

/-! ## The leader's side -/

/-- What became of one attempt of an RPC: it was answered, or it failed with the transport's
error text, after the server ran the request or before (`delivered`); `retried` is a connection
error after which `Reconnect` succeeded, so that `CallWithRetry` tries again. -/
inductive Attempt where
  | answered
  | failed (text : String) (delivered retried : Bool)
  deriving DecidableEq, Repr

/-- The attempts of `CallWithRetry`, with `left` more allowed after this one and `k` attempts of
the whole write made before it; `net k` says what became of the attempt. -/
def callAttempts (net : Nat → Attempt) (serve : Node → Node × Option CoordErr) :
    Nat → Nat → Node → Nat × Node × Except String (Option CoordErr)
  | left, k, n =>
    match net k, left with
    | .answered, _ => (k + 1, (serve n).1, .ok (serve n).2)
    | .failed _ delivered true, left + 1 =>
      callAttempts net serve left (k + 1) (if delivered then (serve n).1 else n)
    | .failed text delivered _, _ => (k + 1, if delivered then (serve n).1 else n, .error text)

/-- `convertRpcError` -/
def convertRpcError : Except String (Option CoordErr) → Option CoordErr
  | .error text => some (newCoordErr (.net text) .coordNetErr)
  | .ok none => none
  | .ok (some e) => if e.hasError then some e else none

/-- The state the closures of `internalPutMessageToCluster` share: the nodes, the leader's topic,
the RPC attempts made, and the variables `commitLog`, `queueEnd` and `*msg`. -/
structure PutCall where
  nodes : String → Node
  topic : Topic
  rpcs : Nat
  commitLog : CommitLogData
  queueEnd : DiskQueueEndInfo
  msg : Codec.Message

/-- The leader's node with its disk replaced. -/
def PutCall.setDisk (s : PutCall) (myID : String) (disk : Disk) : String → Node :=
  Function.update s.nodes myID { s.nodes myID with disk := disk }

/-- The closures `internalPutMessageToCluster` passes to `doSyncOpToCluster`, for a message that
is not delayed. -/
def putOps (myID : String) (rotateNum : Int) (fuel : Nat) (net : Nat → Attempt) : SyncOps PutCall where
  doLocalWrite d s :=
    match putMessageNoLock (s.nodes myID).disk s.topic s.msg with
    | (disk', t', .error e) =>
      ({ s with nodes := s.setDisk myID disk', topic := t',
                msg := if s.topic.exitFlag ∨ s.msg.id > 0 then s.msg else putLeaves s.topic s.msg },
        some ⟨.topic e, .rpcNoErr, .coordLocalErr⟩)
    | (disk', t', .ok (id, offset, writeBytes, qe)) =>
      ({ s with nodes := s.setDisk myID disk', topic := t', queueEnd := qe,
                msg := putLeaves s.topic s.msg,
                commitLog := ⟨id.toInt64.toInt, d.getTopicEpochForWrite, id.toInt64.toInt, offset,
                  writeBytes, qe.totalMsgCnt, 1⟩ }, none)
  doLocalExit err coord s :=
    if err.isSome && coord.disableWrite then { s with topic := { s.topic with writeDisabled := true } }
    else s
  doLocalCommit s :=
    let r := (s.nodes myID).logMgr.appendCommitLog rotateNum s.commitLog false
    let c := updateCommittedOffset (s.nodes myID).disk s.topic s.queueEnd
    ({ s with nodes := Function.update s.nodes myID { s.nodes myID with logMgr := r.1, disk := c.1 },
              topic := c.2 }, r.2.map .commitLog)
  doLocalRollback s :=
    (rollbackNoLock fuel (s.nodes myID).disk s.topic s.commitLog.msgOffset 1).map fun r =>
      { s with nodes := s.setDisk myID r.1, topic := r.2.1 }
  doRefresh d s :=
    if d.getTopicEpochForWrite ≠ s.commitLog.epoch then (s, some errEpochMismatch)
    else ({ s with nodes := Function.update s.nodes myID ((s.nodes myID).send .notifyNewTopicInfo) },
      none)
  doSlaveSync nodeID d s :=
    let info : RpcPutMessage := ⟨⟨"", d.topicInfo.epochForWrite⟩, s.commitLog, s.msg⟩
    let r := callAttempts net (rpcPutMessage rotateNum nodeID info) 4 s.rpcs (s.nodes nodeID)
    ({ s with rpcs := r.1, nodes := Function.update s.nodes nodeID r.2.1 }, convertRpcError r.2.2)
  handleSyncResult k d := decide (k = d.topicInfo.isr.length) && decide (k > d.topicInfo.replica / 2)
  send r s := { s with nodes := Function.update s.nodes myID ((s.nodes myID).send r) }

/-- What `PutMessageToCluster` answers: the message's ID, its offset and frame size, the queue end,
and the error. -/
structure PutAnswer where
  id : UInt64
  offset : Int
  size : Int
  queueEnd : DiskQueueEndInfo
  err : Option CoordErr

/-- `PutMessageToCluster` on node `myID`, which holds the topic. `none` when the node has no topic
or a rollback runs out of fuel. -/
def putMessageToCluster (myID : String) (rotateNum : Int) (fuel : Nat) (net : Nat → Attempt)
    (env : SyncEnv) (c : String → Node) (msg : Codec.Message) : Option ((String → Node) × PutAnswer) :=
  match (c myID).coord, (c myID).topic with
  | none, _ => some (c, ⟨msg.id, 0, 0, DiskQueueEndInfo.zero, some errMissingTopicCoord⟩)
  | some _, none => none
  | some coord, some t =>
    (doSyncOpToCluster myID acquireRpcClient (putOps myID rotateNum fuel net) true env coord
        ⟨c, t, 0, ⟨0, 0, 0, 0, 0, 0, 0⟩, DiskQueueEndInfo.zero, msg⟩).map fun r =>
      (Function.update r.2.1.nodes myID { r.2.1.nodes myID with coord := some r.1, topic := some r.2.1.topic },
        ⟨r.2.1.msg.id, r.2.1.commitLog.msgOffset, r.2.1.commitLog.msgSize, r.2.1.queueEnd, r.2.2⟩)

/-! ## What a replica answers -/

theorem appendCommitLog_pLogID_of_ok {m : TopicCommitLogMgr} {N : Int} {l : CommitLogData}
    {slave : Bool} (h : (m.appendCommitLog N l slave).2 = none) :
    (m.appendCommitLog N l slave).1.pLogID = l.logID := by
  obtain ⟨hid, hlast⟩ := TopicCommitLogMgr.appendCommitLog_accepted h
  unfold TopicCommitLogMgr.appendCommitLog
  rw [if_neg (by omega), if_neg (by omega)]

section Replica

variable {rotateNum : Int} {nodeID : String} {info : RpcPutMessage}

/-- A replica's commit that answers `nil` leaves the record as the last one committed. -/
theorem slaveCommit_pLogID {s s' : SlaveCall}
    (h : (putMessageOnSlaveOps rotateNum info.logData info.topicMessage).doLocalCommit s = (s', none)) :
    s'.node.logMgr.pLogID = info.logData.logID := by
  simp only [putMessageOnSlaveOps] at h
  rcases hc : s.node.logMgr.appendCommitLog rotateNum info.logData true with ⟨m, _ | e⟩ <;>
    rw [hc] at h
  · have hp : m.pLogID = info.logData.logID := by
      have hok := appendCommitLog_pLogID_of_ok (show (s.node.logMgr.appendCommitLog rotateNum
        info.logData true).2 = none by rw [hc])
      rw [hc] at hok
      exact hok
    rcases ht : s.node.topic with _ | t <;> rw [ht] at h <;>
      (simp only [Prod.mk.injEq] at h; rw [← h.1]; exact hp)
  · simp at h

/-- The write and commit of a replica answer `nil` only after the commit log took the record. -/
theorem writeAndCommit_pLogID {tc : CoordData} {s s' : SlaveCall}
    (h : (putMessageOnSlaveOps rotateNum info.logData info.topicMessage).writeAndCommit tc s =
      (s', none)) : s'.node.logMgr.pLogID = info.logData.logID := by
  unfold SlaveOps.writeAndCommit at h
  split at h
  · cases h
  split at h
  · cases h
  · rename_i heq
    simp only [Prod.mk.injEq] at h
    rw [← h.1]
    exact slaveCommit_pLogID heq

/-- A replica that answers `PutMessage` with `nil` has the leader's record as its last commit:
it committed it now, or it had already (`IsCommitted`). -/
theorem rpcPutMessage_pLogID {n n' : Node} (h : rpcPutMessage rotateNum nodeID info n = (n', none)) :
    n'.logMgr.pLogID = info.logData.logID := by
  unfold rpcPutMessage at h
  split at h
  · cases h
  rename_i n₁ tc _
  rcases hw : doWriteOpOnSlave nodeID (putMessageOnSlaveOps rotateNum info.logData info.topicMessage)
    tc ⟨n₁, DiskQueueEndInfo.zero⟩ with ⟨s', r⟩
  rw [hw] at h
  simp only [Prod.mk.injEq] at h
  obtain ⟨rfl, rfl⟩ := h
  rcases doWriteOpOnSlave_cases hw with ⟨hdup, rfl, -⟩ | ⟨-, hr | hr | hr⟩ | ⟨s₁, hwc, rfl⟩
  · -- already committed
    simpa [putMessageOnSlaveOps] using hdup
  · cases hr
  · cases hr
  · cases hr
  · -- committed now; `doLocalExit` does nothing
    exact writeAndCommit_pLogID hwc

theorem checkWriteForRpcCall_logMgr (n : Node) (rpcData : RpcTopicData) :
    (checkWriteForRpcCall n rpcData).1.logMgr = n.logMgr := by
  unfold checkWriteForRpcCall
  split
  · rfl
  · split
    · rfl
    · split <;> rfl

/-- A replica whose last commit is the leader's record answers it again without touching its
commit log. -/
theorem rpcPutMessage_logMgr {n : Node} (hdup : n.logMgr.pLogID = info.logData.logID) :
    (rpcPutMessage rotateNum nodeID info n).1.logMgr = n.logMgr := by
  have hcheck := checkWriteForRpcCall_logMgr n info.rpcTopicData
  unfold rpcPutMessage
  rcases hc : checkWriteForRpcCall n info.rpcTopicData with ⟨n₁, e | tc⟩ <;>
    rw [hc] at hcheck <;> dsimp only at hcheck
  · exact hcheck
  · have hdup₁ : (putMessageOnSlaveOps rotateNum info.logData info.topicMessage).checkDupOnSlave
        tc.coordData ⟨n₁, DiskQueueEndInfo.zero⟩ = true := by
      simp [putMessageOnSlaveOps, hcheck, hdup]
    simp only [doWriteOpOnSlave, hdup₁, if_true]
    exact hcheck

theorem CoordErr.hasError_of_errType {e : CoordErr} (h : e.errType ≠ .coordNoErr) :
    e.hasError = true := by
  simp [CoordErr.hasError, h]

theorem checkWriteForRpcCall_errType {n n' : Node} {rpcData : RpcTopicData} {e : CoordErr}
    (h : checkWriteForRpcCall n rpcData = (n', .error e)) : e.errType ≠ .coordNoErr := by
  unfold checkWriteForRpcCall at h
  split at h
  · cases h
    decide
  · split at h
    · cases h
      decide
    · split at h
      · cases h
        decide
      · cases h

theorem writeAndCommit_errType {tc : CoordData} {s s' : SlaveCall} {e : CoordErr}
    (h : (putMessageOnSlaveOps rotateNum info.logData info.topicMessage).writeAndCommit tc s =
      (s', some e)) : e.errType ≠ .coordNoErr := by
  unfold SlaveOps.writeAndCommit at h
  split at h
  · rename_i s₁ e₁ hw
    simp only [Prod.mk.injEq, Option.some.injEq] at h
    obtain ⟨-, rfl⟩ := h
    simp only [putMessageOnSlaveOps] at hw
    -- the missing topic, the partition mismatch and the replica's write error
    split at hw
    · simp only [Prod.mk.injEq, Option.some.injEq] at hw
      rw [← hw.2]
      simp
    · split at hw
      · simp only [Prod.mk.injEq, Option.some.injEq] at hw
        rw [← hw.2]
        simp
      · split at hw
        · simp only [Prod.mk.injEq, Option.some.injEq] at hw
          rw [← hw.2]
          simp
        · cases hw
  · split at h
    · simp only [Prod.mk.injEq, Option.some.injEq] at h
      rw [← h.2]
      simp
    · cases h

/-- Every error a replica answers has an error type, so that `convertRpcError` passes it on. -/
theorem rpcPutMessage_hasError {n : Node} {e : CoordErr}
    (h : (rpcPutMessage rotateNum nodeID info n).2 = some e) : e.hasError = true := by
  apply CoordErr.hasError_of_errType
  unfold rpcPutMessage at h
  rcases hc : checkWriteForRpcCall n info.rpcTopicData with ⟨n₁, e₁ | tc⟩ <;> rw [hc] at h
  · cases h
    exact checkWriteForRpcCall_errType hc
  dsimp only at h
  rcases hw : doWriteOpOnSlave nodeID (putMessageOnSlaveOps rotateNum info.logData info.topicMessage)
    tc ⟨n₁, DiskQueueEndInfo.zero⟩ with ⟨s', r⟩
  rw [hw] at h
  dsimp only at h
  subst h
  rcases doWriteOpOnSlave_cases hw with ⟨-, -, hr⟩ | ⟨-, hr | hr | hr⟩ | ⟨s₁, hwc, -⟩
  · cases hr
  -- the three checks' errors
  · cases hr
    decide
  · cases hr
    decide
  · cases hr
    decide
  · exact writeAndCommit_errType hwc

/-! ### A replica takes a put at most once -/

/-- What a replica's queue holds while a put is sent to it at `offset`: its log `ds`, or `ds` and
one message more, the queue then no longer ending at `offset`. -/
def HoldsOnce (ds : List (List UInt8)) (offset : Int) (n : Node) : Prop :=
  ∃ t, n.topic = some t ∧ WroteOnce n.disk t ds offset

/-- A message a replica writes as it is: it has an ID, and it encodes short enough for the
`int32` sizes, whichever way it is written. -/
def Sendable (m : Codec.Message) : Prop :=
  m.id ≠ 0 ∧ ∀ ext, (m.writeTo ext).2.1.length < 2 ^ 31 - 4

theorem checkWriteForRpcCall_topic_disk (n : Node) (rpcData : RpcTopicData) :
    (checkWriteForRpcCall n rpcData).1.topic = n.topic ∧
      (checkWriteForRpcCall n rpcData).1.disk = n.disk := by
  unfold checkWriteForRpcCall
  split
  · exact ⟨rfl, rfl⟩
  · split
    · exact ⟨rfl, rfl⟩
    · split <;> exact ⟨rfl, rfl⟩

/-- The replica's write keeps `HoldsOnce`: a queue that holds `ds` takes the message at the offset
or refuses it, and one that took it refuses it again. -/
theorem doLocalWriteOnSlave_holdsOnce {ds : List (List UInt8)} (hm : Sendable info.topicMessage)
    {tc : CoordData} {s : SlaveCall} (hs : HoldsOnce ds info.logData.msgOffset s.node) :
    HoldsOnce ds info.logData.msgOffset
      ((putMessageOnSlaveOps rotateNum info.logData info.topicMessage).doLocalWriteOnSlave tc s).1.node := by
  obtain ⟨t, ht, hw⟩ := hs
  simp only [putMessageOnSlaveOps, ht]
  split
  · exact ⟨t, ht, hw⟩
  -- the queue's write lands at the offset, or is refused
  obtain ⟨disk', t', r, hput, hw'⟩ : ∃ disk' t' r, putMessageOnReplica s.node.disk t
      info.topicMessage info.logData.msgOffset info.logData.msgSize = (disk', t', r) ∧
      WroteOnce disk' t' ds info.logData.msgOffset := by
    rcases hw with hw | ⟨d, hw, hne⟩
    · obtain ⟨disk', t', r, hput, hk, hres⟩ := putMessageOnReplica_wrote hw hm.1 (hm.2 t.isExt)
        info.logData.msgOffset info.logData.msgSize
      refine ⟨disk', t', r, hput, ?_⟩
      rcases hres with ⟨-, hw'⟩ | ⟨hend, -, hw'⟩
      · exact Or.inl hw'
      · exact wroteOnce_of_landed hw hend hw' hk
    · obtain ⟨e, hput⟩ := @putMessageOnReplica_refused s.node.disk t info.logData.msgOffset
        info.logData.msgSize info.topicMessage hne
      exact ⟨_, _, _, hput, Or.inr ⟨d, hw, hne⟩⟩
  rw [hput]
  cases r with
  | error e => exact ⟨t', rfl, hw'⟩
  | ok qe => exact ⟨t', rfl, hw'⟩

/-- The replica's commit keeps `HoldsOnce`: it touches the queue only to commit its end. -/
theorem slaveCommit_holdsOnce {ds : List (List UInt8)} {offset : Int} {s : SlaveCall}
    (hs : HoldsOnce ds offset s.node) :
    HoldsOnce ds offset
      ((putMessageOnSlaveOps rotateNum info.logData info.topicMessage).doLocalCommit s).1.node := by
  obtain ⟨t, ht, hw⟩ := hs
  simp only [putMessageOnSlaveOps]
  split
  · exact ⟨t, ht, hw⟩
  · split
    · rename_i hnone
      rw [ht] at hnone
      cases hnone
    · rename_i t₁ hsome
      rw [ht, Option.some.injEq] at hsome
      subst hsome
      exact ⟨_, rfl, updateCommittedOffset_wroteOnce hw s.queueEnd⟩

theorem writeAndCommit_holdsOnce {ds : List (List UInt8)} (hm : Sendable info.topicMessage)
    {tc : CoordData} {s : SlaveCall} (hs : HoldsOnce ds info.logData.msgOffset s.node) :
    HoldsOnce ds info.logData.msgOffset
      ((putMessageOnSlaveOps rotateNum info.logData info.topicMessage).writeAndCommit tc s).1.node := by
  have hw : HoldsOnce ds info.logData.msgOffset
      ((putMessageOnSlaveOps rotateNum info.logData info.topicMessage).doLocalWriteOnSlave tc s).1.node :=
    doLocalWriteOnSlave_holdsOnce hm hs
  unfold SlaveOps.writeAndCommit
  split
  · rename_i s₁ e heq
    rw [heq] at hw
    exact hw
  · rename_i s₁ heq
    rw [heq] at hw
    have hc := @slaveCommit_holdsOnce rotateNum info ds info.logData.msgOffset s₁ hw
    split <;> rename_i heq₂ <;> rw [heq₂] at hc <;> exact hc

/-- A replica's `PutMessage` keeps `HoldsOnce` of the put it is sent. -/
theorem rpcPutMessage_holdsOnce {ds : List (List UInt8)} (hm : Sendable info.topicMessage)
    {n : Node} (hn : HoldsOnce ds info.logData.msgOffset n) :
    HoldsOnce ds info.logData.msgOffset (rpcPutMessage rotateNum nodeID info n).1 := by
  obtain ⟨htopic, hdisk⟩ := checkWriteForRpcCall_topic_disk n info.rpcTopicData
  have hn₁ : HoldsOnce ds info.logData.msgOffset (checkWriteForRpcCall n info.rpcTopicData).1 := by
    unfold HoldsOnce
    rw [htopic, hdisk]
    exact hn
  unfold rpcPutMessage
  rcases hc : checkWriteForRpcCall n info.rpcTopicData with ⟨n₁, e | tc⟩ <;> rw [hc] at hn₁
  · exact hn₁
  dsimp only
  rcases hw : doWriteOpOnSlave nodeID (putMessageOnSlaveOps rotateNum info.logData info.topicMessage)
    tc ⟨n₁, DiskQueueEndInfo.zero⟩ with ⟨s', r⟩
  dsimp only
  rcases doWriteOpOnSlave_cases hw with ⟨-, rfl, -⟩ | ⟨rfl, -⟩ | ⟨s₁, hwc, rfl⟩
  · exact hn₁
  · exact hn₁
  · -- `doLocalExit` does nothing, and a request to leave the ISR touches neither topic nor disk
    have h₁ : HoldsOnce ds info.logData.msgOffset s₁.node := by
      have h₂ : HoldsOnce ds info.logData.msgOffset
          ((putMessageOnSlaveOps rotateNum info.logData info.topicMessage).writeAndCommit
            tc.coordData ⟨n₁, DiskQueueEndInfo.zero⟩).1.node := writeAndCommit_holdsOnce hm hn₁
      rw [hwc] at h₂
      exact h₂
    dsimp only [putMessageOnSlaveOps]
    split
    · exact h₁
    · exact h₁

end Replica

/-! ## What a sync answers -/

theorem callAttempts_keeps {net : Nat → Attempt} {serve : Node → Node × Option CoordErr}
    (Q : Node → Prop) (hQ : ∀ m, Q m → Q (serve m).1) :
    ∀ (left k : Nat) (n : Node), Q n → Q (callAttempts net serve left k n).2.1
  | left, k, n, hn => by
    unfold callAttempts
    split
    · exact hQ n hn
    · exact callAttempts_keeps Q hQ _ _ _ (by split <;> simp_all)
    · dsimp only
      split
      · exact hQ n hn
      · exact hn

/-- A call that ends with an answer ends with the server's answer to some delivery. -/
theorem callAttempts_ok {net : Nat → Attempt} {serve : Node → Node × Option CoordErr} :
    ∀ {left k : Nat} {n : Node} {k' : Nat} {n' : Node} {r : Option CoordErr},
      callAttempts net serve left k n = (k', n', .ok r) → ∃ m, serve m = (n', r)
  | left, k, n, k', n', r, h => by
    unfold callAttempts at h
    split at h
    · simp only [Prod.mk.injEq, Except.ok.injEq] at h
      exact ⟨n, Prod.ext h.2.1 h.2.2⟩
    · exact callAttempts_ok h
    · simp at h

/-- A sync the leader counts as a success was answered by the replica, or by nothing that is an
error. -/
theorem convertRpcError_none {r : Except String (Option CoordErr)} (h : convertRpcError r = none) :
    r = .ok none ∨ ∃ e, r = .ok (some e) ∧ e.hasError = false := by
  unfold convertRpcError at h
  split at h
  · cases h
  · exact Or.inl rfl
  · rename_i e
    split at h
    · cases h
    · rename_i hne
      exact Or.inr ⟨e, rfl, by simpa using hne⟩

/-! ## The put, and the runs that witness it -/

/-- A fresh commit log of partition 0. -/
def freshLogMgr : TopicCommitLogMgr :=
  ⟨0, 1, 0, fun _ => none, [], [], 0, 0, 0, 0, ⟨0, 0, 0⟩⟩

/-- Two nodes `a` and `b` with the coordinator `twoNodeCoord` and an empty topic each. -/
def twoNodes : String → Node :=
  fun _ => ⟨some twoNodeCoord, some emptyReplica, 0, freshLogMgr, Disk.empty, []⟩

/-- The first attempt reaches `b`, which writes and commits, but its answer is lost; the client
reconnects and sends it again, and `b` answers the duplicate. -/
def lostFirstAnswer : Nat → Attempt := fun k => if k = 0 then .failed "connection reset" true true
  else .answered

section Leader

variable {myID : String} {rotateNum : Int} {fuel : Nat} {net : Nat → Attempt}

/-- A node whose sync answers `nil` has the write's record as its last commit. -/
theorem doSlaveSync_pLogID {nodeID : String} {d : CoordData} {s : PutCall}
    (h : ((putOps myID rotateNum fuel net).doSlaveSync nodeID d s).2 = none) :
    (((putOps myID rotateNum fuel net).doSlaveSync nodeID d s).1.nodes nodeID).logMgr.pLogID =
      s.commitLog.logID := by
  simp only [putOps] at h ⊢
  rw [Function.update_self]
  rcases hc : callAttempts net (rpcPutMessage rotateNum nodeID
    ⟨⟨"", d.topicInfo.epochForWrite⟩, s.commitLog, s.msg⟩) 4 s.rpcs (s.nodes nodeID) with ⟨k', n', r⟩
  rw [hc] at h
  rcases convertRpcError_none h with rfl | ⟨e, rfl, he⟩
  · obtain ⟨m, hm⟩ := callAttempts_ok hc
    exact rpcPutMessage_pLogID hm
  · -- the replica answers only errors that are errors
    obtain ⟨m, hm⟩ := callAttempts_ok hc
    have hsome : (rpcPutMessage rotateNum nodeID
        ⟨⟨"", d.topicInfo.epochForWrite⟩, s.commitLog, s.msg⟩ m).2 = some e := by rw [hm]
    rw [rpcPutMessage_hasError hsome] at he
    cases he

/-- A node other than the leader keeps the write's record as its last commit through every step
of the rounds: a replica that committed it answers its sync again as a duplicate. -/
theorem keeps_pLogID {n : String} (hn : n ≠ myID) :
    Keeps (putOps myID rotateNum fuel net)
      (fun s => (s.nodes n).logMgr.pLogID = s.commitLog.logID) where
  sync m d s hs := by
    simp only [putOps]
    by_cases hm : n = m
    · subst hm
      rw [Function.update_self]
      exact callAttempts_keeps (fun x => x.logMgr.pLogID = s.commitLog.logID)
        (fun x hx => by
          rw [@rpcPutMessage_logMgr rotateNum n ⟨⟨"", d.topicInfo.epochForWrite⟩, s.commitLog, s.msg⟩
            x hx]
          exact hx) _ _ _ hs
    · rw [Function.update_of_ne hm]
      exact hs
  refresh d s hs := by
    simp only [putOps]
    split
    · exact hs
    · simp only [Function.update_of_ne hn]
      exact hs
  send r s hs := by
    simp only [putOps, Function.update_of_ne hn]
    exact hs

/-- The rounds send the record and the message the local write left, and change neither. -/
theorem keeps_commitLog_msg (c₀ : CommitLogData) (m₀ : Codec.Message) :
    Keeps (putOps myID rotateNum fuel net) (fun s => s.commitLog = c₀ ∧ s.msg = m₀) where
  sync _ _ _ hs := hs
  refresh d s hs := by
    simp only [putOps]
    split
    · exact hs
    · exact hs
  send _ _ hs := hs

/-- A local write that succeeds fills the record with the ID of the message it sends. -/
theorem doLocalWrite_record {d : CoordData} {s s₁ : PutCall}
    (h : (putOps myID rotateNum fuel net).doLocalWrite d s = (s₁, none)) :
    s₁.commitLog.logID = s₁.msg.id.toInt64.toInt := by
  simp only [putOps] at h
  split at h
  · simp at h
  · rename_i id offset writeBytes qe hput
    simp only [Prod.mk.injEq] at h
    rw [← h.1]
    dsimp only
    rw [(putMessageNoLock_id hput).2]

/-- A leader's commit that answers `nil` took the write's record, and touched no other node. -/
theorem doLocalCommit_pLogID {s s' : PutCall}
    (h : (putOps myID rotateNum fuel net).doLocalCommit s = (s', none)) :
    (s'.nodes myID).logMgr.pLogID = s.commitLog.logID ∧ (∀ n, n ≠ myID → s'.nodes n = s.nodes n) ∧
      s'.commitLog = s.commitLog ∧ s'.msg = s.msg := by
  simp only [putOps, Prod.mk.injEq, Option.map_eq_none_iff] at h
  obtain ⟨rfl, hok⟩ := h
  refine ⟨?_, fun n hn => Function.update_of_ne hn _ _, rfl, rfl⟩
  simp only [Function.update_self]
  exact appendCommitLog_pLogID_of_ok hok

/-- What `PutMessageToCluster` can answer: at once, when the node has no coordinator, or what
`doSyncOpToCluster` leaves, with the leader's coordinator and topic put back. -/
theorem putMessageToCluster_cases {env : SyncEnv} {c c' : String → Node} {msg : Codec.Message}
    {a : PutAnswer} (h : putMessageToCluster myID rotateNum fuel net env c msg = some (c', a)) :
    ((c myID).coord = none ∧ c' = c ∧ a.err = some errMissingTopicCoord) ∨
    ∃ coord t coord' s' err, (c myID).coord = some coord ∧ (c myID).topic = some t ∧
      doSyncOpToCluster myID acquireRpcClient (putOps myID rotateNum fuel net) true env coord
        ⟨c, t, 0, ⟨0, 0, 0, 0, 0, 0, 0⟩, DiskQueueEndInfo.zero, msg⟩ = some (coord', s', err) ∧
      c' = Function.update s'.nodes myID
        { s'.nodes myID with coord := some coord', topic := some s'.topic } ∧
      a = ⟨s'.msg.id, s'.commitLog.msgOffset, s'.commitLog.msgSize, s'.queueEnd, err⟩ := by
  unfold putMessageToCluster at h
  split at h
  · rename_i hco
    simp only [Option.some.injEq, Prod.mk.injEq] at h
    exact .inl ⟨hco, h.1.symm, by rw [← h.2]⟩
  · cases h
  · rename_i coord t hco hto
    obtain ⟨⟨coord', s', err⟩, hrun, hres⟩ := Option.map_eq_some_iff.mp h
    simp only [Prod.mk.injEq] at hres
    exact .inr ⟨coord, t, coord', s', err, hco, hto, hrun, hres.1.symm, hres.2.symm⟩

section Others

variable (R : Node → CommitLogData → Codec.Message → Prop) {n : String}

/-- The calls of `exitsync` touch only the leader: another node, the record and the message stay. -/
theorem keepsExit_other (hn : n ≠ myID) :
    KeepsExit (putOps myID rotateNum fuel net) (fun s => R (s.nodes n) s.commitLog s.msg) where
  rollback s s' h hs := by
    simp only [putOps] at h
    obtain ⟨r, -, rfl⟩ := Option.map_eq_some_iff.mp h
    simpa [PutCall.setDisk, Function.update_of_ne hn] using hs
  send r s hs := by simpa [putOps, Function.update_of_ne hn] using hs
  exit e c s hs := by
    simp only [putOps]
    split
    · exact hs
    · exact hs

/-- So does the leader's commit. -/
theorem commit_other (hn : n ≠ myID) (s : PutCall) (hs : R (s.nodes n) s.commitLog s.msg) :
    R (((putOps myID rotateNum fuel net).doLocalCommit s).1.nodes n)
      ((putOps myID rotateNum fuel net).doLocalCommit s).1.commitLog
      ((putOps myID rotateNum fuel net).doLocalCommit s).1.msg := by
  simpa [putOps, Function.update_of_ne hn] using hs

/-- And the local write, whatever it answers, to another node. -/
theorem doLocalWrite_other (hn : n ≠ myID) {d : CoordData} {s s₁ : PutCall} {x : Option CoordErr}
    (h : (putOps myID rotateNum fuel net).doLocalWrite d s = (s₁, x)) : s₁.nodes n = s.nodes n := by
  simp only [putOps] at h
  split at h <;> (simp only [Prod.mk.injEq] at h; rw [← h.1]; simp [PutCall.setDisk, Function.update_of_ne hn])

end Others

/-- A local write that succeeds sends a message a replica writes as it is, when the caller's
message encodes short enough and the topic's next ID does not wrap to 0. -/
theorem doLocalWrite_sendable {d : CoordData} {s s₁ : PutCall}
    (h : (putOps myID rotateNum fuel net).doLocalWrite d s = (s₁, none))
    (hseq : s.topic.defaultIDSeq + 1 ≠ 0) (hsmall : ∀ ext, (s.msg.writeTo ext).2.1.length < 2 ^ 31 - 4) :
    Sendable s₁.msg := by
  simp only [putOps] at h
  split at h
  · simp at h
  · rename_i id offset writeBytes qe hput
    simp only [Prod.mk.injEq] at h
    rw [← h.1]
    have hid := (putMessageNoLock_id hput).1
    refine ⟨?_, fun ext => ?_⟩
    · dsimp only
      rw [putLeaves_of_id_eq_zero _ hid, clampAttempts_id]
      exact hseq
    · dsimp only
      rw [(putLeaves_writeTo _ hid ext).2]
      exact hsmall ext

/-- Every step of the rounds keeps a replica at most one message past its log, while the message
is one it writes as it is: a sync to it runs `PutMessage` once per delivery. -/
theorem keeps_holdsOnce {n : String} (ds : List (List UInt8)) (hn : n ≠ myID) :
    Keeps (putOps myID rotateNum fuel net)
      (fun s => Sendable s.msg ∧ HoldsOnce ds s.commitLog.msgOffset (s.nodes n)) where
  sync m d s hs := by
    obtain ⟨hsend, hold⟩ := hs
    refine ⟨hsend, ?_⟩
    simp only [putOps]
    by_cases hm : n = m
    · subst hm
      rw [Function.update_self]
      exact callAttempts_keeps _ (fun x hx => rpcPutMessage_holdsOnce hsend hx) _ _ _ hold
    · rw [Function.update_of_ne hm]
      exact hold
  refresh d s hs := by
    simp only [putOps]
    split
    · exact hs
    · simpa [Function.update_of_ne hn] using hs
  send r s hs := by simpa [putOps, Function.update_of_ne hn] using hs

/-- **A put stores its message on a replica at most once**, whatever becomes of each RPC attempt
and whatever the put answers: a replica whose queue held the log `ds` holds `ds`, or `ds` and one
message more. A delivery after the replica took the message finds the record committed, or the
queue past the put's offset, and is refused. -/
theorem putMessageToCluster_stores_once {env : SyncEnv} {c c' : String → Node} {msg : Codec.Message}
    {a : PutAnswer} {n : String} (hn : n ≠ myID) {t : Topic} {ds : List (List UInt8)}
    (ht : (c n).topic = some t) (hw : Wrote (c n).disk t.backend ds)
    (hseq : ∀ t₀, (c myID).topic = some t₀ → t₀.defaultIDSeq + 1 ≠ 0)
    (hsmall : ∀ ext, (msg.writeTo ext).2.1.length < 2 ^ 31 - 4)
    (h : putMessageToCluster myID rotateNum fuel net env c msg = some (c', a)) :
    ∃ t', (c' n).topic = some t' ∧
      (Wrote (c' n).disk t'.backend ds ∨ ∃ d, Wrote (c' n).disk t'.backend (ds ++ [d])) := by
  -- a node that holds `ds` and at most one message more is what is claimed
  have hdone : ∀ (x : Node) (o : Int), HoldsOnce ds o x → ∃ t', x.topic = some t' ∧
      (Wrote x.disk t'.backend ds ∨ ∃ d, Wrote x.disk t'.backend (ds ++ [d])) := by
    rintro x o ⟨t', ht', hw' | ⟨d, hw', -⟩⟩
    · exact ⟨t', ht', Or.inl hw'⟩
    · exact ⟨t', ht', Or.inr ⟨d, hw'⟩⟩
  have h₀ : ∀ o, HoldsOnce ds o (c n) := fun _ => ⟨t, ht, Or.inl hw⟩
  rcases putMessageToCluster_cases h with ⟨-, rfl, -⟩ | ⟨coord, t₀, coord', s', err, -, hto, hrun, rfl, -⟩
  · -- no coordinator: the cluster is answered as it was
    exact hdone _ 0 (h₀ 0)
  rw [Function.update_of_ne hn]
  rcases doSyncOpToCluster_cases hrun with ⟨e, he⟩ | ⟨s₁, x, hw₁, -, ⟨-, hexit⟩ | ⟨rfl, hrounds⟩⟩
  · -- a check answered before the local write
    simp only [Option.some.injEq, Prod.mk.injEq] at he
    rw [he.2.1]
    exact hdone _ 0 (h₀ 0)
  · -- the local write failed: only the exit ran after it
    have hs' := exitSync_keeps (keepsExit_other (fun x _ _ => HoldsOnce ds 0 x) hn) hexit.symm
      (by rw [doLocalWrite_other hn hw₁]; exact h₀ 0)
    exact hdone _ 0 hs'
  · -- the rounds sent the message the write left, with its new ID
    have hs₁ : Sendable s₁.msg ∧ HoldsOnce ds s₁.commitLog.msgOffset (s₁.nodes n) :=
      ⟨doLocalWrite_sendable hw₁ (hseq t₀ hto) hsmall,
        by rw [doLocalWrite_other hn hw₁]; exact h₀ _⟩
    have hs' := retrySync_keeps (keeps_holdsOnce ds hn)
      (commit_other (fun x l m => Sendable m ∧ HoldsOnce ds l.msgOffset x) hn)
      (keepsExit_other (fun x l m => Sendable m ∧ HoldsOnce ds l.msgOffset x) hn) 0 _
      hrounds.symm hs₁
    exact hdone _ _ hs'.2

/-- On two nodes with the first answer lost, `b` runs the put twice and stores the message once. -/
theorem putMessageToCluster_stores_once_lost_answer :
    ∃ c₁ a, putMessageToCluster "a" 2 2 lostFirstAnswer (quietEnv twoNodeCoord.coordData) twoNodes
        { Codec.Message.empty with body := [7] } = some (c₁, a) ∧
      ∃ t', (c₁ "b").topic = some t' ∧
        (Wrote (c₁ "b").disk t'.backend [] ∨ ∃ d, Wrote (c₁ "b").disk t'.backend ([] ++ [d])) := by
  rcases hrun : putMessageToCluster "a" 2 2 lostFirstAnswer (quietEnv twoNodeCoord.coordData)
    twoNodes { Codec.Message.empty with body := [7] } with _ | ⟨c₁, a⟩
  · have hsome : putMessageToCluster "a" 2 2 lostFirstAnswer (quietEnv twoNodeCoord.coordData)
        twoNodes { Codec.Message.empty with body := [7] } ≠ none := by
      unfold putMessageToCluster doSyncOpToCluster retrySync
      decide +kernel
    exact absurd hrun hsome
  · exact ⟨c₁, a, rfl, putMessageToCluster_stores_once (by decide) rfl
      (wrote_newDiskQueueWriter 1024 0 1024) (fun t₀ h => by cases h; decide) (by decide) hrun⟩

end Leader

end Nsq.Coord
