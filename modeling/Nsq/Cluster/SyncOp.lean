import Nsq.Cluster.Coord

/-!
# The replicated write: `doSyncOpToCluster` and `doWriteOpOnSlave`

A leader makes every write to a partition in `doSyncOpToCluster`. It writes locally
(`doLocalWrite`), then, round after round, sends the write to each other node of the ISR
(`doSlaveSync`), and commits locally (`doLocalCommit`) once `handleSyncResult` accepts the
round's successes. A round that fails is retried with the coordinator's data read again
(`doRefresh`); a leader that gives up with its write standing rolls it back (`doLocalRollback`),
gives up the leader session and disables writes. The operations are closures over variables
they share, such as the commit log record the local write builds; here they are functions over
a state `σ` (`SyncOps`), so this module says nothing about what is written. A replica runs the
write it is sent in `doWriteOpOnSlave`, over closures of the same kind (`SlaveOps`).

What other goroutines write while the leader runs shows as what it reads (`SyncEnv`): the
`exiting` flag after `MAX_WRITE_RETRY` rounds, the data each refresh reads, and the lookup
service's answer to a request that a failed node leave the ISR. The write runs under
`writeHold`, and the model assumes that this fences the coordinator's data: it changes only as the
leader reads it at a refresh. So `exitsync`, which copies the coordinator's current data
(`coordData.GetCopy()`) to drop the leader node, is given the data the leader read last. The
leader's sleeps between rounds, its statistics and its logging are left out. `failedNodes` is a Go map, whose order of
iteration is not fixed; it is kept in the order the nodes failed.

A node's RPC client comes from `acquireRpcClient`, which here never fails, because
`NewNsqdRpcClient` never answers an error; `doSyncOpToCluster` takes it as an argument, so that
what the loop does with a client it cannot get can be stated too.
-/

namespace Nsq.Coord

/-- `acquireRpcClient`: the cached client of a node, or a new one from `NewNsqdRpcClient`, which
always answers a client. -/
def acquireRpcClient (_nid : String) : Option CoordErr := none

/-- The closures `doSyncOpToCluster` is called with, over the state `σ` they share. -/
structure SyncOps (σ : Type) where
  doLocalWrite : CoordData → σ → σ × Option CoordErr
  doLocalExit : Option CoordErr → TopicCoordinator → σ → σ
  doLocalCommit : σ → σ × Option ErrMsg
  /-- `none` when the rollback does not finish within its fuel -/
  doLocalRollback : σ → Option σ
  doRefresh : CoordData → σ → σ × Option CoordErr
  doSlaveSync : String → CoordData → σ → σ × Option CoordErr
  handleSyncResult : Nat → CoordData → Bool
  /-- a request of the node to the lookup service -/
  send : LookupRequest → σ → σ

/-- What other goroutines decide while `doSyncOpToCluster` runs, by the round it is read in:
`IsExiting()` at the top of a late round, `GetData()` at a refresh, and the answer to
`requestLeaveFromISRByLeader` for a failed node. -/
structure SyncEnv where
  exiting : Nat → Bool
  getData : Nat → CoordData
  leaveFromISRByLeader : Nat → String → Option CoordErr

/-- The variables of `doSyncOpToCluster` that live across rounds. -/
structure Loop (σ : Type) where
  tcData : CoordData
  clusterWriteErr : Option CoordErr
  needRefreshISR : Bool
  needLeaveISR : Bool
  state : σ

/-- The variables a pass over the ISR changes. The pass also sets `needRefreshISR` for a node
whose client it cannot get, which no path reads before setting it again. -/
structure Pass (σ : Type) where
  state : σ
  success : Nat
  failedNodes : List String
  exitErr : Nat
  clusterWriteErr : Option CoordErr

/-- `failedNodes[nodeID] = struct{}{}`: the set of failed nodes, in the order they failed. -/
def addFailed (failed : List String) (n : String) : List String :=
  if n ∈ failed then failed else failed ++ [n]

section Leader

variable {σ : Type} (myID : String) (acquire : String → Option CoordErr) (ops : SyncOps σ)

/-- The `for` loop of a round over the ISR, with `retryCnt` counting the round. A node is a
success when it is this one or its sync answers no error; the pass stops (`true`) once more than
half of the ISR failed with errors that may not be retried. -/
def syncPass (d : CoordData) (retryCnt : Nat) : List String → Pass σ → Pass σ × Bool
  | [], p => (p, false)
  | nodeID :: rest, p =>
    if nodeID = myID then syncPass d retryCnt rest { p with success := p.success + 1 }
    else match acquire nodeID with
      | some _ => syncPass d retryCnt rest { p with failedNodes := addFailed p.failedNodes nodeID }
      | none =>
        match ops.doSlaveSync nodeID d p.state with
        | (s, none) => syncPass d retryCnt rest { p with state := s, success := p.success + 1 }
        | (s, some e) =>
          let p₁ := { p with state := s, clusterWriteErr := some e,
                             failedNodes := addFailed p.failedNodes nodeID }
          if e.canRetryWrite retryCnt then syncPass d retryCnt rest p₁
          else if p₁.exitErr + 1 > d.topicInfo.isr.length / 2 then
            ({ p₁ with exitErr := p₁.exitErr + 1 }, true)
          else syncPass d retryCnt rest { p₁ with exitErr := p₁.exitErr + 1 }

/-- After `MAX_WRITE_RETRY` rounds with a quorum of successes, the leader asks the lookup
service to take each failed node out of the ISR, and stops at the first request that fails. -/
def requestLeaves (env : SyncEnv) (retryCnt : Nat) : List String → σ → σ
  | [], s => s
  | nid :: rest, s =>
    match env.leaveFromISRByLeader retryCnt nid with
    | some _ => ops.send (.leaveFromISRByLeader nid) s
    | none => requestLeaves env retryCnt rest (ops.send (.leaveFromISRByLeader nid) s)

/-- The `exitsync` label. A leader that must leave the ISR rolls its write back, drops the
leader node from its data, disables writes and asks to leave; a failed write disables writes and
asks for a consistency check; then `doLocalExit` runs. The coordinator's data is the last the
leader read, where Go copies the coordinator's current data: the two agree while `writeHold`
fences the data, as the module assumes. `none` when the rollback does not finish within its fuel. -/
def exitSync (isWrite : Bool) (coord : TopicCoordinator) (l : Loop σ) :
    Option (TopicCoordinator × σ × Option CoordErr) :=
  let coord₀ := { coord with coordData := l.tcData }
  let left : Option (TopicCoordinator × σ) :=
    if l.needLeaveISR then
      (ops.doLocalRollback l.state).map fun s =>
        ({ coord₀ with coordData := l.tcData.withoutLeaderNode, disableWrite := true },
          ops.send .leaveFromISR s)
    else some (coord₀, l.state)
  left.map fun cs =>
    let cs₂ : TopicCoordinator × σ :=
      if l.clusterWriteErr.isSome && isWrite then
        ({ cs.1 with disableWrite := true }, ops.send .checkTopicConsistence cs.2)
      else cs
    (cs₂.1, ops.doLocalExit l.clusterWriteErr cs₂.1 cs₂.2, l.clusterWriteErr)

/-- The refresh at the top of a round that follows a failure: read the data again, check that
this node still leads, let `doRefresh` check the data, and check the ISR again. `.inl` is a
`goto exitsync`. -/
def refresh (isWrite : Bool) (env : SyncEnv) (retryCnt : Nat) (l : Loop σ) : Loop σ ⊕ Loop σ :=
  if !l.needRefreshISR then .inr l
  else
    let d := env.getData retryCnt
    match d.checkWriteForLeader myID with
    | some e => .inl { l with tcData := d, clusterWriteErr := some e }
    | none =>
      match ops.doRefresh d l.state with
      | (s, some e) => .inl { l with tcData := d, state := s, clusterWriteErr := some e }
      | (s, none) =>
        if isWrite && !d.isISRReadyForWrite myID then
          .inl { l with tcData := d, state := s, clusterWriteErr := some errWriteQuorumFailed }
        else
          .inr { l with tcData := d, clusterWriteErr := none,
                        state := if retryCnt > 3 then ops.send .notifyNewTopicInfo s else s }

/-- A round after its refresh, with `retryCnt` counting it: the pass over the ISR, then the
commit when `handleSyncResult` accepts the successes. `.inl` is a `goto exitsync`; `.inr` a
failed round, which leaves the ISR only without a quorum of successes. -/
def round (env : SyncEnv) (retryCnt : Nat) (l : Loop σ) : Loop σ ⊕ Loop σ :=
  let r := syncPass myID acquire ops l.tcData retryCnt l.tcData.topicInfo.isr
    ⟨l.state, 0, [], 0, l.clusterWriteErr⟩
  if r.2 then
    .inl { l with state := r.1.state, clusterWriteErr := r.1.clusterWriteErr, needLeaveISR := true }
  else if ops.handleSyncResult r.1.success l.tcData then
    match ops.doLocalCommit r.1.state with
    | (s, some m) =>
      .inl { l with state := s, needLeaveISR := true,
                    clusterWriteErr := some ⟨m, .rpcCommonErr, .coordLocalErr⟩ }
    | (s, none) => .inl { l with state := s, needLeaveISR := false, clusterWriteErr := none }
  else
    let quorum := decide (r.1.success > l.tcData.topicInfo.replica / 2)
    .inr { l with clusterWriteErr := r.1.clusterWriteErr, needLeaveISR := !quorum,
                  needRefreshISR := true,
                  state := if quorum && decide (retryCnt > maxWriteRetry) then
                      requestLeaves ops env retryCnt r.1.failedNodes r.1.state
                    else r.1.state }

/-- After `MAX_WRITE_RETRY` rounds every round refreshes. -/
def Loop.late (retryCnt : Nat) (l : Loop σ) : Loop σ :=
  if retryCnt > maxWriteRetry then { l with needRefreshISR := true } else l

/-- The rounds from the `retrysync` label on, `retryCnt` rounds having been made. After
`MAX_WRITE_RETRY` rounds each round refreshes and first checks the `exiting` flag; a failed round
after `2 * MAX_WRITE_RETRY` of them ends the write. -/
def retrySync (isWrite : Bool) (env : SyncEnv) (coord : TopicCoordinator) (retryCnt : Nat)
    (l : Loop σ) : Option (TopicCoordinator × σ × Option CoordErr) :=
  if retryCnt > maxWriteRetry ∧ env.exiting retryCnt = true then
    exitSync ops isWrite coord { l with clusterWriteErr := some errTopicExiting }
  else
    match refresh myID ops isWrite env retryCnt (l.late retryCnt) with
    | .inl l₂ => exitSync ops isWrite coord l₂
    | .inr l₂ =>
      match round myID acquire ops env (retryCnt + 1) l₂ with
      | .inl l₃ => exitSync ops isWrite coord l₃
      | .inr l₃ =>
        if h : retryCnt + 1 > maxWriteRetry * 2 then exitSync ops isWrite coord l₃
        else retrySync isWrite env coord (retryCnt + 1) l₃
termination_by maxWriteRetry * 2 + 1 - retryCnt
decreasing_by omega

/-- `doSyncOpToCluster`. It answers the coordinator and the state as it leaves them, and the
error (`nil` as `none`). The checks before the local write answer at once; every path after it
goes through `exitsync`. -/
def doSyncOpToCluster (isWrite : Bool) (env : SyncEnv) (coord : TopicCoordinator) (s : σ) :
    Option (TopicCoordinator × σ × Option CoordErr) :=
  if coord.exiting then some (coord, s, some errTopicExiting)
  else if isWrite && coord.disableWrite then some (coord, s, some errWriteDisabled)
  else
    let tcData := coord.coordData
    match tcData.checkWriteForLeader myID with
    | some e => some (coord, s, some e)
    | none =>
      if isWrite && !tcData.isISRReadyForWrite myID then some (coord, s, some errWriteQuorumFailed)
      else
        match ops.doLocalWrite tcData s with
        | (s₁, some e) => exitSync ops isWrite coord ⟨tcData, some e, false, false, s₁⟩
        | (s₁, none) => retrySync myID acquire ops isWrite env coord 0 ⟨tcData, none, false, true, s₁⟩

end Leader

/-! ## The replica's side -/

/-- The closures `doWriteOpOnSlave` is called with, over the state `σ` they share. -/
structure SlaveOps (σ : Type) where
  checkDupOnSlave : CoordData → σ → Bool
  doLocalWriteOnSlave : CoordData → σ → σ × Option CoordErr
  doLocalCommit : σ → σ × Option ErrMsg
  doLocalExit : Option CoordErr → σ → σ
  /-- a request of the node to the lookup service -/
  send : LookupRequest → σ → σ

section Slave

variable {σ : Type} (myID : String) (ops : SlaveOps σ)

/-- The write and the commit of `doWriteOpOnSlave`, up to the `exitpubslave` label. -/
def SlaveOps.writeAndCommit (tc : CoordData) (s : σ) : σ × Option CoordErr :=
  match ops.doLocalWriteOnSlave tc s with
  | (s₁, some e) => (s₁, some e)
  | (s₁, none) =>
    match ops.doLocalCommit s₁ with
    | (s₂, some m) => (s₂, some ⟨m, .rpcCommonErr, .coordLocalErr⟩)
    | (s₂, none) => (s₂, none)

/-- `doWriteOpOnSlave`: a write already committed answers at once; otherwise the replica checks
that it is running, may write and is in the ISR, writes and commits, and asks to leave the ISR
when that fails. -/
def doWriteOpOnSlave (coord : TopicCoordinator) (s : σ) : σ × Option CoordErr :=
  let tc := coord.coordData
  if ops.checkDupOnSlave tc s then (s, none)
  else if coord.exiting then (s, some errTopicExitingOnSlave)
  else if coord.disableWrite then (s, some errWriteDisabled)
  else if !tc.isMineISR myID then (s, some errTopicWriteOnNonISR)
  else
    let r := ops.writeAndCommit tc s
    let s₂ := if r.2.isSome then ops.send .leaveFromISR r.1 else r.1
    (ops.doLocalExit r.2 s₂, r.2)

end Slave

end Nsq.Coord
