import Nsq.DelayQueue.Store
import Nsq.DiskQueue.Writer

/-!
# The delayed queue

`DelayQueue` writes each delayed message twice: its frame to a disk queue writer (`backend`),
which replication and cleaning read, and its bytes into the bolt store (`Store`), which channels
look up by time. `put` does both, after which a channel-delayed message may lower the channel's
cached oldest timestamp (`oldestChannelDelayedTs`), which lets a peek that comes before it
return at once. Confirming a message, emptying a channel up to a point and emptying a type
delete entries; peeking reads the entries due, in key order, and resets the cached timestamp to
the first one it meets.

The state is what these functions read and write. The message ID generator is the default
sequence (`msgIDCursor` is not modelled), tracing is left out, and a Go map of channels is a
function. The clock is an argument where the code reads it.
-/

namespace Nsq

open Codec DiskQueueWriter

/-- The run-time state of `DelayQueue` that the modelled functions read and write. -/
structure DelayQueue where
  backend : DiskQueueWriter
  kvStore : DelayQueue.Store
  oldestChannelDelayedTs : List UInt8 → Option Int64
  defaultIDSeq : UInt64
  needFlush : Bool
  /-- `SyncEvery` -/
  syncEvery : Int
  lastSyncCnt : Int
  isExt : Bool
  exitFlag : Bool

namespace DelayQueue

variable [Bolt]

/-- How the delayed queue's calls fail. -/
inductive DelayQueueError where
  /-- `errors.New("exiting")`, `ErrExiting`: `exiting`. -/
  | exiting
  /-- `ErrInvalidMessageID`: `message id is invalid`. -/
  | invalidMessageID
  /-- `invalid delayed message` -/
  | invalidDelayedMessage
  /-- `ErrWriteOffsetMismatch`: `write offset mismatch`. -/
  | writeOffsetMismatch
  /-- `delayed raw message number must be 1.` -/
  | rawMessageNumber
  /-- `invalid raw message data: %v` -/
  | invalidRawMessageData (data : List UInt8)
  /-- `write message size mismatch: %v vs %v` -/
  | writeSizeMismatch (checkSize writeSize : Int)
  | codec (e : CodecError)
  | write (e : WriteError)
  | store (e : StoreError)
  deriving DecidableEq, Repr

/-- `newDelayQueue` on an empty directory: a writer with no file, three empty buckets, no cached
timestamp, and the counters Go leaves at zero. The backend takes frames of `minValidMsgLength`
to `int32(MaxMsgSize) + minValidMsgLength + 8 + 255` bytes. -/
def newDelayQueue (maxBytesPerFile maxMsgSize : Int) (isExt : Bool) : DelayQueue where
  backend := newDiskQueueWriter maxBytesPerFile minValidMsgLength
    (int32 (int32 maxMsgSize + minValidMsgLength + 8 + 255))
  kvStore := Store.empty
  oldestChannelDelayedTs := fun _ => none
  defaultIDSeq := 0
  needFlush := false
  syncEvery := 0
  lastSyncCnt := 0
  isExt := isExt
  exitFlag := false

/-- `TransactionDelayed` -/
def transactionDelayed : Int32 := 3

/-- `IsValidDelayedMessage` -/
def isValidDelayedMessage (m : Codec.Message) : Bool :=
  if m.delayedType = Codec.channelDelayed then
    m.delayedOrigID > 0 && m.delayedChannel.length > 0 && m.delayedTs > 0
  else if m.delayedType = pubDelayed then m.delayedTs > 0
  else m.delayedType = transactionDelayed

/-- A Go map assignment `mp[k] = v`. -/
def setKey {α : Type} (mp : List UInt8 → Option α) (k : List UInt8) (v : α) : List UInt8 → Option α :=
  fun k' => if k' = k then some v else mp k'

/-- `nextMsgID`, from the default sequence. -/
def nextMsgID (q : DelayQueue) : DelayQueue × UInt64 :=
  ({ q with defaultIDSeq := q.defaultIDSeq + 1 }, q.defaultIDSeq + 1)

/-- `flush`: when a write is owed a flush, record the write end's count and `Flush` the writer
(the store's `Sync` changes nothing the model holds). -/
def flush (disk : Disk) (q : DelayQueue) : Disk × DelayQueue :=
  if !q.needFlush then (disk, q)
  else
    let q := { q with needFlush := false, lastSyncCnt := q.backend.diskWriteEnd.totalMsgCnt }
    let (disk', bq, _) := q.backend.flush disk
    (disk', { q with backend := bq })

/-- What `put` writes: the message given, or the one the raw data holds after its size. -/
def putMessage (m : Codec.Message) (rawData : Option (List UInt8)) (isExt : Bool) :
    Except DelayQueueError Codec.Message :=
  match rawData with
  | none => .ok m
  | some raw =>
    if raw.length < 4 then .error (.invalidRawMessageData raw)
    else (decodeStored (raw.drop 4) isExt).mapError .codec

/-- A channel-delayed message lowers its channel's oldest timestamp. -/
def lowerOldest (mp : List UInt8 → Option Int64) (m : Codec.Message) : List UInt8 → Option Int64 :=
  match mp m.delayedChannel with
  | some oldest => if oldest = 0 ∨ m.delayedTs < oldest then setKey mp m.delayedChannel m.delayedTs else mp
  | none => setKey mp m.delayedChannel m.delayedTs

/-- The part of `put` after the backend write `r`: mark the queue as owing a flush, store and
index the message `buf` encodes, lower the channel's oldest timestamp, and flush every
`SyncEvery` messages. -/
def afterWrite (disk : Disk) (q : DelayQueue) (m : Codec.Message) (buf : List UInt8)
    (r : Except DelayQueueError (Int × Int × DiskQueueEndInfo)) :
    Disk × DelayQueue × Except DelayQueueError (UInt64 × Int × Int × DiskQueueEndInfo) :=
  let q := { q with needFlush := true }
  match r with
  | .error e => (disk, q, .error e)
  | .ok (offset, writeBytes, dend) =>
    match update q.kvStore (putTx m buf dend.offset q.isExt) with
    | (_, some e) => (disk, q, .error (.store e))
    | (store, none) =>
      let q := { q with kvStore := store }
      let q := if m.delayedType = Codec.channelDelayed then
          { q with oldestChannelDelayedTs := lowerOldest q.oldestChannelDelayedTs m }
        else q
      let (disk, q) := if q.syncEvery = 1 ∨ dend.totalMsgCnt - q.lastSyncCnt ≥ q.syncEvery then
          flush disk q
        else (disk, q)
      (disk, q, .ok (m.id, offset, writeBytes, dend))

/-- `writeDelayedMessageToBackendWithCheck`: encode the message, check the frame size against
`checkSize` when it is positive, and `PutV2` the bytes. It answers the bytes too. -/
def writeDelayedMessageToBackendWithCheck (disk : Disk) (bq : DiskQueueWriter) (msg : Codec.Message)
    (checkSize : Int) (isExt : Bool) :
    Disk × DiskQueueWriter × List UInt8 × Except DelayQueueError (Int × Int × DiskQueueEndInfo) :=
  let (_, buf, err) := msg.writeDelayedTo isExt
  match err with
  | some e => (disk, bq, buf, .error (.codec e))
  | none =>
    if checkSize > 0 ∧ checkSize ≠ buf.length + 4 then
      (disk, bq, buf, .error (.writeSizeMismatch checkSize (buf.length + 4)))
    else
      let (disk', bq', r) := bq.putV2 disk buf
      (disk', bq', buf, r.mapError .write)

/-- `put`: take the message (from the raw data when there is some), give it an ID when it has
none, write it to the backend (the raw data as it came, re-encoding the message for the store),
then store it. -/
def put (disk : Disk) (q : DelayQueue) (m : Codec.Message) (rawData : Option (List UInt8))
    (checkSize : Int) : Disk × DelayQueue × Except DelayQueueError (UInt64 × Int × Int × DiskQueueEndInfo) :=
  match putMessage m rawData q.isExt with
  | .error e => (disk, q, .error e)
  | .ok m =>
    let (q, m) := if m.id = 0 then ((nextMsgID q).1, { m with id := (nextMsgID q).2 }) else (q, m)
    match rawData with
    | some raw =>
      let (_, buf, err) := m.writeDelayedTo q.isExt
      match err with
      | some e => (disk, q, .error (.codec e))
      | none =>
        let (disk₁, bq, r) := q.backend.putRawV2 disk raw 1
        let q := { q with backend := bq }
        -- `PutRawV2` answers zeros beside its error
        let (offset, writeBytes, dend) := match r with
          | .ok w => w
          | .error _ => (0, 0, DiskQueueEndInfo.zero)
        -- the size is checked after the write, and a mismatch answers the write's own error
        if checkSize > 0 ∧ checkSize ≠ writeBytes then
          (disk₁, q, match r with
            | .ok _ => .ok (0, 0, 0, dend)
            | .error e => .error (.write e))
        -- past the check the write's error is not looked at: the code binds it in the inner
        -- scope and then tests the outer `err`, which is the decoder's
        else afterWrite disk₁ q m buf (.ok (offset, writeBytes, dend))
    | none =>
      let (disk₁, bq, buf, r) := writeDelayedMessageToBackendWithCheck disk q.backend m checkSize q.isExt
      afterWrite disk₁ { q with backend := bq } m buf r

/-- `PutDelayMessage`: put a valid delayed message that comes without an ID. -/
def putDelayMessage (disk : Disk) (q : DelayQueue) (m : Codec.Message) :
    Disk × DelayQueue × Except DelayQueueError (UInt64 × Int × Int × DiskQueueEndInfo) :=
  if q.exitFlag then (disk, q, .error .exiting)
  else if m.id > 0 then (disk, q, .error .invalidMessageID)
  else if !isValidDelayedMessage m then (disk, q, .error .invalidDelayedMessage)
  else put disk q m none 0

/-- `ResetBackendEndNoLock`: unless the write end is already there, `ResetWriteEndV2` to `vend`
with `totalCnt` messages. With `fuel` for the writer's rename loop. -/
def resetBackendEndNoLock (fuel : Nat) (disk : Disk) (q : DelayQueue) (vend totalCnt : Int) :
    Option (Disk × DelayQueue × Option WriteError) :=
  let old := q.backend.getQueueWriteEnd
  if old.offset = vend ∧ old.totalMsgCnt = totalCnt then some (disk, q, none)
  else
    (resetWriteEndV2 fuel disk q.backend vend totalCnt).map fun (disk', bq, _, err) =>
      (disk', { q with backend := bq, needFlush := true }, err)

/-- The replica puts: at the leader's offset, `put`, and on failure reset the backend to the end
before it. -/
def putOnReplica (fuel : Nat) (disk : Disk) (q : DelayQueue) (m : Codec.Message)
    (rawData : Option (List UInt8)) (checkSize : Int) :
    Option (Disk × DelayQueue × Except DelayQueueError DiskQueueEndInfo) :=
  let wend := q.backend.getQueueWriteEnd
  match put disk q m rawData checkSize with
  | (disk', q', .error e) =>
    (resetBackendEndNoLock fuel disk' q' wend.offset wend.totalMsgCnt).map fun (disk'', q'', _) =>
      (disk'', q'', .error e)
  | (disk', q', .ok (_, _, _, dend)) => some (disk', q', .ok dend)

/-- `PutMessageOnReplica` -/
def putMessageOnReplica (fuel : Nat) (disk : Disk) (q : DelayQueue) (m : Codec.Message) (offset : Int)
    (checkSize : Int) : Option (Disk × DelayQueue × Except DelayQueueError DiskQueueEndInfo) :=
  if q.exitFlag then some (disk, q, .error .exiting)
  else if q.backend.getQueueWriteEnd.offset ≠ offset then some (disk, q, .error .writeOffsetMismatch)
  else if !isValidDelayedMessage m then some (disk, q, .error .invalidDelayedMessage)
  else putOnReplica fuel disk q m none checkSize

/-- `PutRawDataOnReplica` -/
def putRawDataOnReplica (fuel : Nat) (disk : Disk) (q : DelayQueue) (rawData : List UInt8)
    (offset : Int) (checkSize : Int) (msgNum : Int) :
    Option (Disk × DelayQueue × Except DelayQueueError DiskQueueEndInfo) :=
  if q.exitFlag then some (disk, q, .error .exiting)
  else if q.backend.getQueueWriteEnd.offset ≠ offset then some (disk, q, .error .writeOffsetMismatch)
  else if msgNum ≠ 1 then some (disk, q, .error .rawMessageNumber)
  else putOnReplica fuel disk q Codec.Message.empty (some rawData) checkSize

/-- `ConfirmedMessage`: delete the entry of a message a channel finished; the message carries
the delayed ID in `DelayedOrigID`. -/
def confirmedMessage (q : DelayQueue) (msg : Codec.Message) : DelayQueue × Option StoreError :=
  let (store, err) := update q.kvStore fun tx =>
    match deleteBucketKey msg.delayedType.toInt msg.delayedChannel msg.delayedTs msg.delayedOrigID
        tx q.isExt with
    | (tx, none) => .ok tx
    | (_, some e) => .error e
  ({ q with kvStore := store }, err)

/-- `emptyDelayedUntil`: delete the entries of a type and channel before `(peekTs, id)`, and
take `peekTs` as the channel's oldest timestamp. -/
def emptyDelayedUntil (q : DelayQueue) (dt : Int) (peekTs : Int64) (id : UInt64) (ch : List UInt8) :
    Option DelayQueue :=
  let pfx := getDelayedMsgDBPrefixKey dt ch
  (emptyDelayedUntilLoop dt peekTs id ch q.isExt q.kvStore (q.kvStore.bucketDelayedMsg.scan pfx)).map
    fun store =>
      let q := { q with kvStore := store }
      if dt = Codec.channelDelayed.toInt ∧ ch ≠ [] then
        { q with oldestChannelDelayedTs := setKey q.oldestChannelDelayedTs ch peekTs }
      else q

/-- An hour, in the nanoseconds of `UnixNano`. -/
def hourNanos : Int64 := 3600000000000

/-- `emptyAllDelayedType`: delete the entries of a type (of one channel, unless `ch` is empty);
a channel emptied so has nothing before an hour from `now`. -/
def emptyAllDelayedType (q : DelayQueue) (dt : Int) (ch : List UInt8) (now : Int64) :
    Option DelayQueue :=
  let pfx := getDelayedMsgDBPrefixKey dt ch
  (emptyAllDelayedTypeLoop dt ch q.isExt q.kvStore (q.kvStore.bucketDelayedMsg.scan pfx)).map
    fun store =>
      let q := { q with kvStore := store }
      if dt = Codec.channelDelayed.toInt ∧ ch ≠ [] then
        { q with oldestChannelDelayedTs := setKey q.oldestChannelDelayedTs ch (now + hourNanos) }
      else q

/-- `EmptyDelayedType` -/
def emptyDelayedType (q : DelayQueue) (dt : Int) (now : Int64) : Option DelayQueue :=
  q.emptyAllDelayedType dt [] now

/-- `EmptyDelayedChannel`: refused for the empty name. -/
def emptyDelayedChannel (q : DelayQueue) (ch : List UInt8) (now : Int64) :
    Option (Except String DelayQueue) :=
  if ch = [] then some (.error "empty delayed channel name should be given")
  else (q.emptyAllDelayedType Codec.channelDelayed.toInt ch now).map .ok

/-- `PeekRecentTimeoutWithFilter`: the messages due at `peekTs`, at most `results` of them, in key
order, of the type `filterType` (all types when it is negative) and the channel `filterChannel`
(all when it is empty). A channel peek returns at once when the channel's oldest timestamp is
later than `peekTs`, and otherwise records the first timestamp it meets as the oldest. -/
def peekRecentTimeoutWithFilter (q : DelayQueue) (results : Nat) (peekTs : Int64)
    (filterType : Int) (filterChannel : List UInt8) : Option (DelayQueue × List Codec.Message) :=
  let cached := if filterType = Codec.channelDelayed.toInt ∧ filterChannel ≠ [] then
      q.oldestChannelDelayedTs filterChannel else none
  match cached with
  | some oldest =>
    if oldest > peekTs then some (q, [])
    else peekScan q results peekTs filterType filterChannel
  | none => peekScan q results peekTs filterType filterChannel
where
  /-- The scan of the peek, and the oldest timestamp it records. -/
  peekScan (q : DelayQueue) (results : Nat) (peekTs : Int64) (filterType : Int)
      (filterChannel : List UInt8) : Option (DelayQueue × List Codec.Message) :=
    let pfx := if filterType > 0 then getDelayedMsgDBPrefixKey filterType filterChannel else []
    (peekLoop results peekTs filterType filterChannel q.isExt 0 []
        (q.kvStore.bucketDelayedMsg.scan pfx)).map fun (msgs, oldest) =>
      (if oldest > 0 then
        { q with oldestChannelDelayedTs := setKey q.oldestChannelDelayedTs filterChannel oldest }
      else q, msgs)

/-- `PeekRecentChannelTimeout` -/
def peekRecentChannelTimeout (q : DelayQueue) (now : Int64) (results : Nat) (ch : List UInt8) :
    Option (DelayQueue × List Codec.Message) :=
  q.peekRecentTimeoutWithFilter results now Codec.channelDelayed.toInt ch

/-- `IsChannelMessageDelayed` -/
def isChannelMessageDelayed (q : DelayQueue) (msgID : UInt64) (ch : List UInt8) : Bool :=
  (q.kvStore.bucketDelayedMsgIndex.get (getDelayedMsgDBIndexKey Codec.channelDelayed.toInt ch msgID)).isSome

end DelayQueue

end Nsq
