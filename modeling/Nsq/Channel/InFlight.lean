import Nsq.Lib.BinaryHeap

/-!
# In-flight messages: `inFlightMessages`, `inFlightPQ` and the operations on them

A channel keeps the messages its consumers hold in two structures: the map `inFlightMessages`
from a message ID to the message, and the priority queue `inFlightPQ`, a binary heap of the same
messages ordered by `pri`, their timeout. Every message records its own cell of the heap in
`index`, which `Swap` keeps up to date, and `Remove` takes a message out by that cell.

Messages are objects shared by reference, and the heap's `Swap` writes into them, so the model
keeps them as such: `objs` is the store of message objects by reference, the map sends an ID to
a reference, and the heap's backing array holds references, its first `len` cells in use. The
consumers' `InFlightCount` counters live in the client objects; here they are `inFlightCount`,
by consumer ID (`GetID`).

The operations are those of `in_flight_pqueue.go` (`Push`, `Pop`, `Remove`, `PeekAndShift` and
the loops `up` and `down`) and of `channel.go` (`pushInFlightMessage`, `popInFlightMessage`,
`StartInFlightTimeout`, `TouchMessage`, `internalFinishMessage`, `RequeueMessage`, one round of
`processInFlightQueue`'s timeout loop, `initPQ`). What they do outside these structures is not
modelled: confirming a finished message (`ConfirmBackendQueue`, see `Nsq.Channel.Confirm`),
`doRequeue`'s requeue channel, tracing and statistics.
-/

namespace Nsq

/-- The fields of a `Message` object that in-flight bookkeeping reads and writes. -/
structure MessageObj where
  id : Nat
  belongedConsumer : Option Int
  deliveryTS : Int
  pri : Int
  index : Int
  deferredCnt : Nat
  deriving DecidableEq, Repr

namespace MessageObj

/-- `GetClientID`: the ID of the consumer the message belongs to, or 0. -/
def getClientID (m : MessageObj) : Int := m.belongedConsumer.getD 0

/-- `IsDeferred` -/
def isDeferred (m : MessageObj) : Bool := decide (0 < m.deferredCnt)

end MessageObj

/-- The options the operations read. -/
structure ChannelOptions where
  maxMsgTimeout : Int
  maxConfirmWin : Int
  deriving DecidableEq, Repr

/-- The errors the operations answer. -/
inductive FlightError where
  | consumeDisabled
  | msgAlreadyInFlight (old : Nat)
  | msgNotInFlight
  | notOwner (owner clientID : Int)
  | msgDeferred
  | msgDeferredTooMuch
  deriving DecidableEq, Repr

/-- The texts of the errors, as `channel.go` has them. -/
def FlightError.text : FlightError → String
  | .consumeDisabled => "Consume is disabled currently"
  | .msgAlreadyInFlight _ => "Message ID already in flight"
  | .msgNotInFlight => "Message ID not in flight"
  | .notOwner _ _ => "client does not own message"
  | .msgDeferred => "Message is deferred"
  | .msgDeferredTooMuch => "Too much deferred messages in flight"

/-- The part of a channel that in-flight bookkeeping reads and writes. -/
structure FlightState where
  /-- the message objects, by reference -/
  objs : Nat → MessageObj
  inFlightMessages : Nat → Option Nat
  /-- the backing array of `inFlightPQ` -/
  inFlightPQ : Nat → Nat
  /-- `len(inFlightPQ)` -/
  len : Nat
  deferredCount : Int
  /-- each consumer's `InFlightCount`, by `GetID` -/
  inFlightCount : Int → Int
  consumeDisabled : Bool
  exitFlag : Bool

namespace FlightState

/-- The heap's order: a reference's message's `pri`. -/
def priOf (s : FlightState) (r : Nat) : Int := (s.objs r).pri

/-- The message at reference `r`, with a new `index`. -/
def setIndex (s : FlightState) (r : Nat) (i : Int) : Nat → MessageObj :=
  Function.update s.objs r { s.objs r with index := i }

/-! ## `inFlightPqueue` -/

/-- `Swap`: exchange two cells and record their new cells in the messages. -/
def swap (s : FlightState) (i j : Nat) : FlightState :=
  let s₁ := { s with inFlightPQ := BinaryHeap.swap s.inFlightPQ i j }
  let s₂ := { s₁ with objs := s₁.setIndex (s₁.inFlightPQ i) i }
  { s₂ with objs := s₂.setIndex (s₂.inFlightPQ j) j }

/-- `up`: move cell `j` towards the root while its parent's `pri` is greater. -/
def up (s : FlightState) (j : Nat) : FlightState :=
  if BinaryHeap.parent j = j ∨
      s.priOf (s.inFlightPQ (BinaryHeap.parent j)) ≤ s.priOf (s.inFlightPQ j) then s
  else up (s.swap (BinaryHeap.parent j) j) (BinaryHeap.parent j)
termination_by j
decreasing_by
  rename_i h
  exact BinaryHeap.parent_lt (BinaryHeap.pos_of_parent_ne fun e => h (Or.inl e))

/-- `down`: move cell `i` away from the root, among the first `n` cells, while its least child's
`pri` is smaller. -/
def down (s : FlightState) (i n : Nat) : FlightState :=
  if 2 * i + 1 ≥ n then s
  else if s.priOf (s.inFlightPQ i) ≤
      s.priOf (s.inFlightPQ (BinaryHeap.minChild s.priOf s.inFlightPQ i n)) then s
  else down (s.swap i (BinaryHeap.minChild s.priOf s.inFlightPQ i n))
    (BinaryHeap.minChild s.priOf s.inFlightPQ i n) n
termination_by n - i
decreasing_by
  unfold BinaryHeap.minChild
  split <;> omega

/-- `Push`: the message takes the next cell and moves up. -/
def push (s : FlightState) (x : Nat) : FlightState :=
  let n := s.len
  up { s with len := n + 1, objs := s.setIndex x n,
              inFlightPQ := Function.update s.inFlightPQ n x } n

/-- The last cell is cut off, its message marked out of the heap, and answered. -/
def cutLast (s : FlightState) : FlightState × Nat :=
  let x := s.inFlightPQ (s.len - 1)
  ({ s with objs := s.setIndex x (-1), len := s.len - 1 }, x)

/-- `Pop`: the root goes to the last cell, the cell it displaced moves down, and the last cell is
cut off. -/
def pop (s : FlightState) : FlightState × Nat :=
  ((s.swap 0 (s.len - 1)).down 0 (s.len - 1)).cutLast

/-- `Remove`: unless `i` is the last cell, the last cell moves into `i` and then down and up;
the last cell is cut off. -/
def remove (s : FlightState) (i : Nat) : FlightState × Nat :=
  (if s.len - 1 ≠ i then ((s.swap i (s.len - 1)).down i (s.len - 1)).up i else s).cutLast

/-- `PeekAndShift`: the root, popped, when its `pri` is at most `max`; else how long it still
has. -/
def peekAndShift (s : FlightState) (max : Int) : FlightState × Option Nat × Int :=
  if s.len = 0 then (s, none, 0)
  else
    let x := s.inFlightPQ 0
    if (s.objs x).pri > max then (s, none, (s.objs x).pri - max)
    else (s.pop.1, some x, 0)

/-! ## The channel's operations -/

/-- The message, if it has a consumer, counts one fewer there (`FinishedMessage`,
`RequeuedMessage` and `TimedOutMessage` all do), and then belongs to none. -/
def releaseConsumer (s : FlightState) (msg : Nat) : FlightState :=
  match (s.objs msg).belongedConsumer with
  | none => s
  | some c =>
    { s with inFlightCount := Function.update s.inFlightCount c (s.inFlightCount c - 1),
             objs := Function.update s.objs msg { s.objs msg with belongedConsumer := none } }

/-- The message's `deferredCnt` is set. -/
def setDeferredCnt (s : FlightState) (msg : Nat) (v : Nat) : FlightState :=
  { s with objs := Function.update s.objs msg { s.objs msg with deferredCnt := v } }

/-- Take the message out of the heap by its recorded cell, unless it records none. -/
def removeAt (s : FlightState) (msg : Nat) : FlightState :=
  if (s.objs msg).index ≠ -1 then (s.remove (s.objs msg).index.toNat).1 else s

/-- `pushInFlightMessage` -/
def pushInFlightMessage (s : FlightState) (msg : Nat) : FlightState × Except FlightError Unit :=
  if s.consumeDisabled then (s, .error .consumeDisabled)
  else
    match s.inFlightMessages (s.objs msg).id with
    | some m => (s, .error (.msgAlreadyInFlight m))
    | none =>
      ({ s with inFlightMessages :=
          Function.update s.inFlightMessages (s.objs msg).id (some msg) }.push msg, .ok ())

/-- `popInFlightMessage` -/
def popInFlightMessage (s : FlightState) (clientID : Int) (id : Nat) (force : Bool) :
    FlightState × Except FlightError Nat :=
  match s.inFlightMessages id with
  | none => (s, .error .msgNotInFlight)
  | some msg =>
    if (s.objs msg).getClientID ≠ clientID then
      (s, .error (.notOwner (s.objs msg).getClientID clientID))
    else if !force && (s.objs msg).isDeferred then (s, .error .msgDeferred)
    else
      ({ s with inFlightMessages := Function.update s.inFlightMessages id none }.removeAt msg,
        .ok msg)

/-- `StartInFlightTimeout`: the message is given its consumer, delivery time and timeout, and
pushed in flight. -/
def startInFlightTimeout (s : FlightState) (msg : Nat) (client : Int) (now timeout : Int) :
    FlightState × Except FlightError Unit :=
  let m := { s.objs msg with belongedConsumer := some client, deliveryTS := now }
  let m := { m with pri := now + timeout }
  pushInFlightMessage { s with objs := Function.update s.objs msg m } msg

/-- A consumer's `messagePump` delivering a message: `StartInFlightTimeout`, and when it
succeeds, `SendingMessage`, which counts the message in the consumer's `InFlightCount`. -/
def startInFlightAndSend (s : FlightState) (msg : Nat) (client : Int) (now timeout : Int) :
    FlightState :=
  match s.startInFlightTimeout msg client now timeout with
  | (s', .ok ()) =>
    { s' with inFlightCount := Function.update s'.inFlightCount client (s'.inFlightCount client + 1) }
  | (s', .error _) => s'

/-- `TouchMessage`: the message's timeout moves to `clientMsgTimeout` from now, at most
`MaxMsgTimeout` after its delivery, and it takes its place in the heap again. -/
def touchMessage (s : FlightState) (opts : ChannelOptions) (clientID : Int) (id : Nat)
    (clientMsgTimeout now : Int) : FlightState × Except FlightError Unit :=
  match s.inFlightMessages id with
  | none => (s, .error .msgNotInFlight)
  | some msg =>
    if (s.objs msg).getClientID ≠ clientID then
      (s, .error (.notOwner (s.objs msg).getClientID clientID))
    else
      let newTimeout := now + clientMsgTimeout
      let newTimeout :=
        if newTimeout - (s.objs msg).deliveryTS ≥ opts.maxMsgTimeout then
          (s.objs msg).deliveryTS + opts.maxMsgTimeout
        else newTimeout
      let s₁ := { s with objs := Function.update s.objs msg { s.objs msg with pri := newTimeout } }
      ((s₁.removeAt msg).push msg, .ok ())

/-- `internalFinishMessage` (`FinishMessage` and `FinishMessageForce`): the message leaves,
its consumer counts it no more, and a deferred one leaves the deferred count. -/
def internalFinishMessage (s : FlightState) (clientID : Int) (id : Nat) (forceFin : Bool) :
    FlightState × Except FlightError Nat :=
  let clientID :=
    if forceFin then
      match s.inFlightMessages id with
      | some old => (s.objs old).getClientID
      | none => clientID
    else clientID
  match s.popInFlightMessage clientID id true with
  | (s₁, .error e) => (s₁, .error e)
  | (s₁, .ok msg) =>
    let isOldDeferred := (s₁.objs msg).isDeferred
    let s₂ := s₁.releaseConsumer msg
    if isOldDeferred then
      ({ s₂.setDeferredCnt msg 0 with deferredCount := s₂.deferredCount - 1 }, .ok msg)
    else (s₂, .ok msg)

/-- `isTooMuchDeferredInMem`, with the channel's count of messages read and not confirmed. -/
def isTooMuchDeferredInMem (opts : ChannelOptions) (waitingConfirmCnt deCnt : Int) : Bool :=
  decide (waitingConfirmCnt ≥ opts.maxConfirmWin ∧ 2 * deCnt > waitingConfirmCnt)

/-- `RequeueMessage`: with timeout 0 the message leaves for the requeue channel; with another
timeout it stays in flight, deferred to that timeout, and belongs to no consumer. The two window
checks read the channel's count of messages read and not confirmed, and `waitingConfirm`. -/
def requeueMessage (s : FlightState) (opts : ChannelOptions) (clientID : Int) (id : Nat)
    (timeout now waitingConfirmCnt waitingConfirm : Int) : FlightState × Except FlightError Unit :=
  if timeout = 0 then
    match s.popInFlightMessage clientID id false with
    | (s₁, .error e) => (s₁, .error e)
    | (s₁, .ok msg) => (s₁.releaseConsumer msg, .ok ())
  else
    match s.inFlightMessages id with
    | none => (s, .error .msgNotInFlight)
    | some msg =>
      if (s.objs msg).isDeferred then (s, .error .msgDeferred)
      else if (s.objs msg).getClientID ≠ clientID then
        (s, .error (.notOwner (s.objs msg).getClientID clientID))
      else if isTooMuchDeferredInMem opts waitingConfirmCnt s.deferredCount then
        (s, .error .msgDeferredTooMuch)
      else if waitingConfirm > opts.maxConfirmWin then (s, .error .msgDeferredTooMuch)
      else
        let s₁ := { s with deferredCount := s.deferredCount + 1,
                           objs := Function.update s.objs msg
                             { s.objs msg with pri := now + timeout,
                                               deferredCnt := (s.objs msg).deferredCnt + 1 } }
        (((s₁.releaseConsumer msg).removeAt msg).push msg, .ok ())

/-- One round of `processInFlightQueue`'s timeout loop: the earliest message due by `tnow`
leaves, as a timeout or, when deferred, as the end of its deferral. The flag says whether the
loop goes on. -/
def processInFlightOne (s : FlightState) (tnow : Int) : FlightState × Bool :=
  if s.consumeDisabled then (s, false)
  else
    match s.peekAndShift tnow with
    | (s₁, none, _) => (s₁, false)
    | (s₁, some msg, _) =>
      match s₁.inFlightMessages (s₁.objs msg).id with
      | none => (s₁, false)
      | some _ =>
        let s₂ := { s₁ with inFlightMessages := Function.update s₁.inFlightMessages
                                                  (s₁.objs msg).id none }
        let s₃ := if (s₂.objs msg).isDeferred then
          { s₂ with deferredCount := s₂.deferredCount - 1 } else s₂
        ((s₃.releaseConsumer msg).setDeferredCnt msg 0, true)

/-- The timeout loop, for at most `fuel` rounds. -/
def timeoutLoop (s : FlightState) (tnow : Int) : Nat → FlightState
  | 0 => s
  | fuel + 1 =>
    match s.processInFlightOne tnow with
    | (s', true) => timeoutLoop s' tnow fuel
    | (s', false) => s'

/-- `processInFlightQueue`'s timeout loop on a channel that is not exiting. -/
def processInFlightQueue (s : FlightState) (tnow : Int) (fuel : Nat) : FlightState :=
  if s.exitFlag then s else s.timeoutLoop tnow fuel

/-- `initPQ`: the consumers of the messages in flight are emptied, and the map, the heap and the
deferred count start anew. -/
def initPQ (s : FlightState) : FlightState :=
  { s with inFlightMessages := fun _ => none, len := 0, deferredCount := 0,
           inFlightCount := (fun c =>
             if (BinaryHeap.elems s.inFlightPQ s.len).any
                 (fun r => (s.objs r).belongedConsumer = some c) then 0
             else s.inFlightCount c) }

end FlightState

open FlightState

/-- What the channel does to its in-flight messages, each at any arguments: the pump's
`StartInFlightTimeout` and send, `FinishMessage`, `RequeueMessage`, `TouchMessage`, one step of
`processInFlightQueue` and `initPQ`. A consumer's pump only delivers a message
object that is not in flight and not deferred: one read from the backend or the delayed queue, or
one that left the in-flight structures, and those leave undeferred. -/
inductive FlightStep (opts : ChannelOptions) : FlightState → FlightState → Prop where
  | startAndSend (s : FlightState) (msg : Nat) (client now timeout : Int)
      (hout : ∀ k, k < s.len → s.inFlightPQ k ≠ msg) (hundeferred : (s.objs msg).deferredCnt = 0) :
      FlightStep opts s (s.startInFlightAndSend msg client now timeout)
  | finish (s : FlightState) (clientID : Int) (id : Nat) (forceFin : Bool) :
      FlightStep opts s (s.internalFinishMessage clientID id forceFin).1
  | requeue (s : FlightState) (clientID : Int) (id : Nat)
      (timeout now waitingConfirmCnt waitingConfirm : Int) :
      FlightStep opts s
        (s.requeueMessage opts clientID id timeout now waitingConfirmCnt waitingConfirm).1
  | touch (s : FlightState) (clientID : Int) (id : Nat) (clientMsgTimeout now : Int) :
      FlightStep opts s (s.touchMessage opts clientID id clientMsgTimeout now).1
  | timeout (s : FlightState) (tnow : Int) : FlightStep opts s (s.processInFlightOne tnow).1
  | initPQ (s : FlightState) : FlightStep opts s s.initPQ

/-- A new channel: nothing in flight, and no consumer counting any. -/
structure FlightState.Fresh (s : FlightState) : Prop where
  len_eq : s.len = 0
  map_eq : ∀ id, s.inFlightMessages id = none
  deferredCount_eq : s.deferredCount = 0
  inFlightCount_eq : ∀ c, s.inFlightCount c = 0

end Nsq
