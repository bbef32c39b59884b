import Nsq.DiskQueue.Writer
import Nsq.Message.Codec

/-!
# Publishing to a topic

`topic.go` publishes a message by encoding it (`WriteTo`) and appending the bytes to the topic's
queue writer (`PutV2`); `PutMessagesNoLock` does that for each message of a batch, and when one
fails takes the writer back to the end it had before the batch (`ResetBackendEndNoLock`, which
calls `ResetWriteEndV2`). After each write an auto-committing topic records the new end as
committed and, every `SyncEvery` messages, flushes the writer.

The model keeps what these functions read and write of the topic: its writer and the disk, the
committed end, the sync counters and flags, and the default ID sequence. Channels are not
modelled. The one thing the publish path reads of them, whether some channel waits for more data
(which decides whether `flushForChannels` writes out the writer's buffer), is a field of the
topic; the channel end updates are left out, and so are the delayed queue's flush in `flush`,
message tracing and the message ID cursor.
-/

namespace Nsq

open DiskQueueWriter

/-- The errors a publish answers: the topic's own, and those of the codec and the writer. -/
inductive TopicError where
  /-- `ErrExiting`: `exiting`. -/
  | exiting
  /-- `ErrInvalidMessageID`: `message id is invalid`. -/
  | invalidMessageID
  /-- `message write size mismatch %v vs %v`, with the size checked against and the written one. -/
  | messageWriteSizeMismatch (checkSize writeSize : Int)
  | codec (e : Codec.CodecError)
  | write (e : WriteError)
  deriving DecidableEq, Repr

/-- The run-time state of `Topic` that the publish path reads and writes. -/
structure Topic where
  backend : DiskQueueWriter
  committedOffset : Option DiskQueueEndInfo
  /-- `dynamicConf.AutoCommit`; the topic commits after each write when it is `1`. -/
  autoCommit : Int
  /-- `dynamicConf.SyncEvery` -/
  syncEvery : Int
  lastSyncCnt : Int
  needFlush : Bool
  writeDisabled : Bool
  isExt : Bool
  defaultIDSeq : UInt64
  exitFlag : Bool
  /-- Whether some channel `IsWaitingMoreData`. -/
  channelWaiting : Bool

namespace Topic

/-- `nextMsgID`, from the default sequence. -/
def nextMsgID (t : Topic) : Topic × UInt64 :=
  ({ t with defaultIDSeq := t.defaultIDSeq + 1 }, t.defaultIDSeq + 1)

/-- `writeMessageToBackendWithCheck`: encode the message, check the frame size against
`checkSize` when it is positive, and `PutV2` the bytes. It also answers the message as the
encoder leaves it. -/
def writeMessageToBackendWithCheck (disk : Disk) (bq : DiskQueueWriter) (writeExt : Bool)
    (msg : Codec.Message) (checkSize : Int) :
    Disk × DiskQueueWriter × Codec.Message × Except TopicError (Int × Int × DiskQueueEndInfo) :=
  let (msg', bytes, err) := msg.writeTo writeExt
  match err with
  | some e => (disk, bq, msg', .error (.codec e))
  | none =>
    -- there are 4 bytes of data length on disk
    if checkSize > 0 ∧ (bytes.length : Int) + 4 ≠ checkSize then
      (disk, bq, msg', .error (.messageWriteSizeMismatch checkSize (bytes.length + 4)))
    else
      let (disk', bq', r) := bq.putV2 disk bytes
      (disk', bq', msg', r.mapError .write)

/-- `flush`: when a write is owed a flush (`needFlush`, taken by compare-and-swap), record the
write end's count as the last synced and `Flush` the writer. -/
def flush (disk : Disk) (t : Topic) : Disk × Topic × Except WriteError Unit :=
  if !t.needFlush then (disk, t, .ok ())
  else
    let t₁ := { t with needFlush := false, lastSyncCnt := t.backend.diskWriteEnd.totalMsgCnt }
    let (disk', bq, r) := t₁.backend.flush disk
    (disk', { t₁ with backend := bq }, r)

/-- `flushForChannels`: when some channel waits for more data, write out the writer's buffer
(`ForceFlushForChannels`, that is `FlushBuffer`). -/
def flushForChannels (disk : Disk) (t : Topic) : Disk × Topic :=
  if t.writeDisabled then (disk, t)
  else if t.channelWaiting then
    let (disk', bq, _) := flushBuffer disk t.backend
    (disk', { t with backend := bq })
  else (disk, t)

/-- `UpdateCommittedOffset`: record the end as committed; every `SyncEvery` messages since the
last sync, flush, and otherwise let waiting channels see the buffer. -/
def updateCommittedOffset (disk : Disk) (t : Topic) (offset : DiskQueueEndInfo) : Disk × Topic :=
  let t₁ := { t with committedOffset := some offset }
  if t₁.syncEvery = 1 ∨ offset.totalMsgCnt - t₁.lastSyncCnt ≥ t₁.syncEvery then
    if !t₁.writeDisabled then
      let (disk', t₂, _) := flush disk t₁
      (disk', t₂)
    else (disk, t₁)
  else flushForChannels disk t₁

/-- `put`: give a message without an ID the next one, write it, mark the topic as owing a flush,
and commit the new end when the topic auto-commits. It answers the ID, the frame's offset and
size, and the write end after it. -/
def put (disk : Disk) (t : Topic) (m : Codec.Message) (checkSize : Int) :
    Disk × Topic × Except TopicError (UInt64 × Int × Int × DiskQueueEndInfo) :=
  let (t₁, m₁) := if m.id = 0 then ((t.nextMsgID).1, { m with id := (t.nextMsgID).2 }) else (t, m)
  let (disk₂, bq, _, r) := writeMessageToBackendWithCheck disk t₁.backend t₁.isExt m₁ checkSize
  let t₂ := { t₁ with backend := bq, needFlush := true }
  match r with
  | .error e => (disk₂, t₂, .error e)
  | .ok (offset, writeBytes, dend) =>
    let (disk₃, t₃) := if t₂.autoCommit = 1 then updateCommittedOffset disk₂ t₂ dend else (disk₂, t₂)
    (disk₃, t₃, .ok (m₁.id, offset, writeBytes, dend))

/-- `ResetBackendEndNoLock`: unless the write end is already there, `ResetWriteEndV2` to `vend`
with `totalCnt` messages and commit the end it answers. With `fuel` for the writer's rename
loop. -/
def resetBackendEndNoLock (fuel : Nat) (disk : Disk) (t : Topic) (vend totalCnt : Int) :
    Option (Disk × Topic × Option WriteError) :=
  let old := t.backend.getQueueWriteEnd
  if old.offset = vend ∧ old.totalMsgCnt = totalCnt then some (disk, t, none)
  else
    (resetWriteEndV2 fuel disk t.backend vend totalCnt).map fun (disk₁, bq, dend, err) =>
      let t₁ := { t with backend := bq }
      match err with
      | some e => (disk₁, t₁, some e)
      | none =>
        let (disk₂, t₂) := updateCommittedOffset disk₁ t₁ dend
        (disk₂, t₂, none)

/-- What `PutMessagesNoLock` answers: the first message's ID, offset and count, the bytes the
batch wrote, the last end (`nil` as `none`), and the error. -/
structure BatchResult where
  firstMsgID : UInt64
  firstOffset : Int
  batchBytes : Int
  firstCnt : Int
  diskEnd : Option DiskQueueEndInfo
  err : Option TopicError
  deriving DecidableEq, Repr

/-- The accumulators of `PutMessagesNoLock`'s loop. -/
structure BatchAcc where
  firstMsgID : UInt64
  firstOffset : Int
  firstCnt : Int
  diskEnd : DiskQueueEndInfo
  batchBytes : Int
  deriving DecidableEq, Repr

/-- Their values before the first message: no offset yet (`-1`), a zero end. -/
def BatchAcc.init : BatchAcc := ⟨0, -1, 0, ⟨⟨0, 0⟩, 0, 0⟩, 0⟩

/-- The loop of `PutMessagesNoLock` over the messages left; `wend` is the write end before the
batch, which a failing message resets the writer to. -/
def putMessagesLoop (fuel : Nat) (wend : DiskQueueEndInfo) :
    Disk → Topic → BatchAcc → List Codec.Message → Option (Disk × Topic × BatchResult)
  | disk, t, acc, [] =>
    some (disk, t, ⟨acc.firstMsgID, acc.firstOffset, acc.batchBytes, acc.firstCnt, some acc.diskEnd,
      none⟩)
  | disk, t, acc, m :: ms =>
    if m.id > 0 then
      (resetBackendEndNoLock fuel disk t wend.offset wend.totalMsgCnt).map fun (disk', t', _) =>
        (disk', t', ⟨0, 0, 0, 0, none, some .invalidMessageID⟩)
    else
      match put disk t m 0 with
      | (disk₁, t₁, .error e) =>
        (resetBackendEndNoLock fuel disk₁ t₁ wend.offset wend.totalMsgCnt).map fun (disk', t', _) =>
          (disk', t', ⟨acc.firstMsgID, acc.firstOffset, acc.batchBytes, acc.firstCnt,
            some acc.diskEnd, some e⟩)
      | (disk₁, t₁, .ok (id, offset, bytes, dend)) =>
        -- `batchBytes` is an `int32`
        let acc₁ := { acc with diskEnd := dend, batchBytes := int32 (acc.batchBytes + bytes) }
        let acc₂ := if acc₁.firstOffset = -1 then
            { acc₁ with firstOffset := offset, firstMsgID := id, firstCnt := dend.totalMsgCnt }
          else acc₁
        putMessagesLoop fuel wend disk₁ t₁ acc₂ ms

/-- `PutMessagesNoLock`: put each message of the batch; a message with an ID, or one whose put
fails, resets the writer to its end before the batch. With `fuel` for the writer's rename loop. -/
def putMessagesNoLock (fuel : Nat) (disk : Disk) (t : Topic) (msgs : List Codec.Message) :
    Option (Disk × Topic × BatchResult) :=
  if t.exitFlag then some (disk, t, ⟨0, 0, 0, 0, none, some .exiting⟩)
  else putMessagesLoop fuel t.backend.getQueueWriteEnd disk t BatchAcc.init msgs

end Topic

end Nsq
