import Nsq.DiskQueue.Writer

/-!
# The disk queue reader

`diskQueueReader` reads the frames of a queue from its read position up to the queue end it has
been told about, and remembers how far its consumer has confirmed. Its three positions are
`readQueueInfo`, `queueEndInfo` and `confirmedQueueInfo`.

`readOne` is the loop and the parser. It first walks off the end of every file that is not the
queue end's file (the `CheckFileOpen` label), then reads a frame through a read-ahead buffer of
at least `readBufferSize` bytes (`ensureReadBuffer`), bounded by the queue end inside the last
file and by the file's size before it. Every failure after the file is open empties the buffer
and closes the file (its deferred cleanup). `TryReadOne` calls it while the queue end lies ahead,
and with `autoSkipError` skips a failing file and tries again; that retry loop need not stop, so
its model takes fuel, and `none` means it did not return within it.

The reader never writes the disk; within one call the disk is fixed. The metadata file the
reader persists (its `sync`) is not modelled: no modelled function reads it back.
-/

namespace Nsq

/-- How a reader call fails. -/
inductive ReaderError where
  /-- `ErrExiting`. -/
  | exiting
  /-- `ErrReadQueueCountMissing`. -/
  | readQueueCountMissing
  /-- The `*os.PathError` of opening or reading a file that does not exist. -/
  | fileNotExist
  /-- `ErrInvalidReadable`. -/
  | invalidReadable
  /-- `io.EOF` or `io.ErrUnexpectedEOF`: a read ran off the end of a file or of the buffer. -/
  | eof
  /-- `invalid message read size (%d)`. -/
  | invalidMessageReadSize (msgSize : Int)
  /-- `exceed end of queue`. -/
  | exceedEndOfQueue
  /-- `ErrConfirmSizeInvalid`. -/
  | confirmSizeInvalid
  /-- `ErrConfirmCntInvalid`. -/
  | confirmCntInvalid
  /-- `ErrMoveOffsetInvalid`. -/
  | moveOffsetInvalid
  /-- `ErrMoveOffsetOverflowed`. -/
  | moveOffsetOverflowed
  /-- `ErrReadQueueAlreadyCleaned`. -/
  | readQueueAlreadyCleaned
  /-- `offset invalid: ...`, from `stepOffset`. -/
  | offsetInvalid
  /-- `move offset step %v from %v to exceed begin`. -/
  | moveOffsetExceedBegin
  /-- `move offset step %v from %v exceed max: %v`. -/
  | moveOffsetExceedMax
  deriving DecidableEq, Repr

/-- `ReadResult`: where the frame started, how far the read position moved, the message count
after it, the payload, and the error. -/
structure ReadResult where
  offset : Int
  movedSize : Int
  curCnt : Int
  data : List UInt8
  err : Option ReaderError
  deriving DecidableEq, Repr

/-- `ReadResult{}`. -/
def ReadResult.empty : ReadResult := ⟨0, 0, 0, [], none⟩

/-- `readBufferSize`: the least the reader reads ahead. -/
def readBufferSize : Int := 1024 * 4

/-- `MAX_POSSIBLE_MSG_SIZE`. -/
def maxPossibleMsgSize : Int := 2 ^ 28

/-- The run-time state of `diskQueueReader` that the modelled functions read and write. -/
structure DiskQueueReader where
  readQueueInfo : DiskQueueEndInfo
  queueEndInfo : DiskQueueEndInfo
  confirmedQueueInfo : DiskQueueEndInfo
  depth : Int
  depthSize : Int
  exitFlag : Bool
  /-- The open data file, if any. -/
  readFile : Option OsFile
  /-- The bytes `readBuffer` holds: read from the file, not yet parsed. -/
  readBuffer : List UInt8
  autoSkipError : Bool
  waitingMoreData : Bool

namespace DiskQueueReader

/-- `updateDepth`: recompute the depth from the queue end and the confirmed position. A zero
depth in bytes with a non-zero count is a conflict, which it settles by moving the confirmed
position to the queue end. -/
def updateDepth (d : DiskQueueReader) : DiskQueueReader :=
  if d.confirmedQueueInfo.endOffset.fileNum > d.queueEndInfo.endOffset.fileNum then
    -- `newDepth` stays 0 on this branch
    { d with depth := 0, depthSize := 0, waitingMoreData := true }
  else
    let newDepthSize := d.queueEndInfo.offset - d.confirmedQueueInfo.offset
    let newDepth := d.queueEndInfo.totalMsgCnt - d.confirmedQueueInfo.totalMsgCnt
    let d₁ := { d with depth := newDepth, depthSize := newDepthSize }
    if newDepthSize = 0 then
      -- the stored depth is not recomputed after the fix-up
      let d₂ := if newDepth ≠ 0 then { d₁ with confirmedQueueInfo := d₁.queueEndInfo } else d₁
      { d₂ with waitingMoreData := true }
    else if newDepth = 0 then { d₁ with waitingMoreData := true }
    else d₁

/-- `newDiskQueueReader` on a directory with no reader metadata: every position starts at the
given end, or at zero when there is none. -/
def newDiskQueueReader (readEnd : Option DiskQueueEndInfo) (autoSkip : Bool) :
    DiskQueueReader :=
  let base : DiskQueueReader :=
    ⟨.zero, .zero, .zero, 0, 0, false, none, [], autoSkip, false⟩
  match readEnd with
  | some e => updateDepth { base with confirmedQueueInfo := e, readQueueInfo := e, queueEndInfo := e }
  | none => base

/-- `skipToEndofQueue`: drop the open file and the buffer, and move read and confirmed to the
queue end. -/
def skipToEndofQueue (d : DiskQueueReader) : DiskQueueReader :=
  updateDepth { d with
    readFile := none, readBuffer := [], readQueueInfo := d.queueEndInfo
    confirmedQueueInfo := d.queueEndInfo }

/-- The loop of `skipToNextFile`: find the offset meta of the confirmed file, stepping over
files whose meta is missing while more than one file is left, and move the confirmed position to
the start of the next file with the totals the meta records. -/
def skipMetaLoop (disk : Disk) (d : DiskQueueReader) : DiskQueueReader × Option ReaderError :=
  match disk.offsetMeta d.confirmedQueueInfo.endOffset.fileNum with
  | some m =>
    ({ d with
      confirmedQueueInfo := ⟨⟨d.confirmedQueueInfo.endOffset.fileNum + 1, 0⟩, m.endPos, m.cnt⟩ },
      none)
  | none =>
    if d.confirmedQueueInfo.endOffset.fileNum < d.queueEndInfo.endOffset.fileNum - 1 then
      skipMetaLoop disk { d with confirmedQueueInfo := d.confirmedQueueInfo.nextFile }
    else (d, some .fileNotExist)
termination_by (d.queueEndInfo.endOffset.fileNum - 1 - d.confirmedQueueInfo.endOffset.fileNum).toNat
decreasing_by simp only [DiskQueueEndInfo.nextFile]; omega

/-- `skipToNextFile`: abandon the confirmed file and move read and confirmed to the start of the
next one; at the queue end's file, skip to the queue end. -/
def skipToNextFile (disk : Disk) (d : DiskQueueReader) : DiskQueueReader × Option ReaderError :=
  if d.confirmedQueueInfo.endOffset.fileNum ≥ d.queueEndInfo.endOffset.fileNum then
    (skipToEndofQueue d, none)
  else
    match skipMetaLoop disk { d with readFile := none, readBuffer := [] } with
    | (d₁, some e) => (d₁, some e)
    | (d₁, none) => (updateDepth { d₁ with readQueueInfo := d₁.confirmedQueueInfo }, none)

/-- `handleReadError`: skip to the next file; a failed skip is only logged. -/
def handleReadError (disk : Disk) (d : DiskQueueReader) : DiskQueueReader :=
  (skipToNextFile disk d).1

/-- Opening the read file, if none is open: the data file of the read position, sought to the
read position. Opening a file that does not exist fails. -/
def openReadFile (disk : Disk) (d : DiskQueueReader) : Option OsFile :=
  match d.readFile with
  | some h => some h
  | none =>
    let p := d.readQueueInfo.endOffset
    (disk.dataFile p.fileNum).map fun _ => ⟨p.fileNum, if p.pos > 0 then p.pos.toNat else 0⟩

/-- The `CheckFileOpen` loop of `readOne`: open the read file, and while the read position is at
or past the end of a file before the queue end's file, close it and move to the next file. It
answers the open file, or the error of an open that failed. -/
def checkFileOpen (disk : Disk) (d : DiskQueueReader) : DiskQueueReader × Except ReaderError OsFile :=
  match openReadFile disk d with
  | none => (d, .error .fileNotExist)
  | some h =>
    if d.readQueueInfo.endOffset.fileNum < d.queueEndInfo.endOffset.fileNum ∧
        d.readQueueInfo.endOffset.pos ≥ ((disk.contents h.fileNum).length : Int) then
      checkFileOpen disk { d with readQueueInfo := d.readQueueInfo.nextFile, readFile := none }
    else ({ d with readFile := some h }, .ok h)
termination_by (d.queueEndInfo.endOffset.fileNum - d.readQueueInfo.endOffset.fileNum).toNat
decreasing_by simp only [DiskQueueEndInfo.nextFile]; omega

/-- `ensureReadBuffer`: make the buffer hold at least `dataNeed` bytes, reading from the open
file at least `readBufferSize` bytes but never past `currentFileEnd`. A failure leaves the state
to the caller's cleanup, which discards the buffer and the file, so its partial bytes are not
kept here. -/
def ensureReadBuffer (disk : Disk) (d : DiskQueueReader) (h : OsFile)
    (dataNeed currentRead currentFileEnd : Int) :
    Except ReaderError (DiskQueueReader × OsFile) :=
  if (d.readBuffer.length : Int) < dataNeed then
    let readable := currentFileEnd - currentRead
    if readable < dataNeed then .error .invalidReadable
    else
      let bufDataSize := min (max dataNeed readBufferSize) readable
      let n := (bufDataSize - d.readBuffer.length).toNat
      -- `io.CopyN` from the file's cursor
      let avail := (disk.contents h.fileNum).drop h.cursor
      if avail.length < n then .error .eof
      else .ok ({ d with readBuffer := d.readBuffer ++ avail.take n }, { h with cursor := h.cursor + n })
  else .ok (d, h)

/-- The frame-reading half of `readOne`, from the open file `h`: the length, the payload, and
the advance of the read position, which moves on to the next file when it reaches the end of a
file before the queue end's file. -/
def readFrame (disk : Disk) (d : DiskQueueReader) (h : OsFile) : DiskQueueReader × ReadResult :=
  let r := d.readQueueInfo
  let q := d.queueEndInfo
  -- every failure below runs the deferred cleanup: the buffer is reset and the file closed
  let fail (err : ReaderError) (data : List UInt8) : DiskQueueReader × ReadResult :=
    ({ d with readBuffer := [], readFile := none }, ⟨r.offset, 0, 0, data, some err⟩)
  let currentFileEnd? : Option Int :=
    if r.endOffset.fileNum = q.endOffset.fileNum then some q.endOffset.pos
    else if r.endOffset.fileNum < q.endOffset.fileNum then some (disk.contents h.fileNum).length
    else none
  match currentFileEnd? with
  | none => fail .exceedEndOfQueue []
  | some currentFileEnd =>
    match ensureReadBuffer disk d h 4 r.endOffset.pos currentFileEnd with
    | .error e => fail e []
    | .ok (d₁, h₁) =>
      if d₁.readBuffer.length < 4 then fail .eof [] else
      let msgSize := BigEndian.decodeInt 4 (d₁.readBuffer.take 4)
      let d₂ := { d₁ with readBuffer := d₁.readBuffer.drop 4 }
      if msgSize ≤ 0 ∨ msgSize > maxPossibleMsgSize then fail (.invalidMessageReadSize msgSize) []
      else
        let zeros := List.replicate msgSize.toNat 0
        match ensureReadBuffer disk d₂ h₁ msgSize (r.endOffset.pos + 4) currentFileEnd with
        | .error e => fail e zeros
        | .ok (d₃, h₃) =>
          -- `io.ReadFull` copies what the buffer holds before it fails
          if (d₃.readBuffer.length : Int) < msgSize then
            fail .eof (d₃.readBuffer ++ zeros.drop d₃.readBuffer.length) else
          let totalBytes := 4 + msgSize
          let curCnt := r.totalMsgCnt + 1
          let vEnd := r.virtualEnd + totalBytes
          let r' : DiskQueueEndInfo :=
            ⟨⟨r.endOffset.fileNum, r.endOffset.pos + totalBytes⟩, vEnd,
              if vEnd = q.virtualEnd then q.totalMsgCnt else curCnt⟩
          let d₄ := { d₃ with
            readBuffer := d₃.readBuffer.drop msgSize.toNat, readFile := some h₃
            readQueueInfo := r' }
          let isEnd := r'.endOffset.fileNum < q.endOffset.fileNum ∧ r'.endOffset.pos ≥ currentFileEnd
          let d₅ :=
            if isEnd then { d₄ with readFile := none, readBuffer := [], readQueueInfo := r'.nextFile }
            else d₄
          (d₅, ⟨r.offset, totalBytes, curCnt, d₃.readBuffer.take msgSize.toNat, none⟩)

/-- `readOne`: read the frame at the read position. -/
def readOne (disk : Disk) (d : DiskQueueReader) : DiskQueueReader × ReadResult :=
  if d.readQueueInfo.totalMsgCnt ≤ 0 ∧ d.readQueueInfo.offset > 0 then
    (d, { ReadResult.empty with err := some .readQueueCountMissing })
  else
    match checkFileOpen disk d with
    | (d₁, .error e) => (d₁, ⟨d₁.readQueueInfo.offset, 0, 0, [], some e⟩)
    | (d₁, .ok h) => readFrame disk d₁ h

/-- `TryReadOne`, with at most `fuel` turns of its retry loop: while the queue end lies ahead,
read one frame; with `autoSkipError`, a failure other than a missing count skips to the next
file and tries again. It answers the read and whether there was data to read. -/
def tryReadOne : Nat → Disk → DiskQueueReader → Option (DiskQueueReader × ReadResult × Bool)
  | 0, _, _ => none
  | fuel + 1, disk, d =>
    if d.queueEndInfo.endOffset.greatThan d.readQueueInfo.endOffset then
      let (d', r) := readOne disk d
      match r.err with
      | some e =>
        if e ≠ .readQueueCountMissing ∧ d'.autoSkipError then
          tryReadOne fuel disk (handleReadError disk d')
        else some (d', r, true)
      | none => some (d', r, true)
    else some (d, .empty, false)

/-- `internalUpdateEnd` for a new end: an end behind the read position is taken only with
`forceReload`, and then resets the read position to it; confirmed is pulled back to read when
ahead of it; and a reload drops the open file and the buffer. It answers whether the end
changed. -/
def internalUpdateEnd (d : DiskQueueReader) (endPos : DiskQueueEndInfo) (forceReload : Bool) :
    DiskQueueReader × Bool :=
  if endPos.offset = d.queueEndInfo.offset ∧ endPos.totalMsgCnt = d.queueEndInfo.totalMsgCnt then
    (d, false)
  else
    let behind := d.readQueueInfo.endOffset.greatThan endPos.endOffset ∨
      d.readQueueInfo.offset > endPos.offset
    if behind ∧ !forceReload then (d, false)
    else
      let reload := behind ∨ forceReload
      let d₁ := if behind then { d with readQueueInfo := endPos } else d
      let d₂ :=
        if d₁.confirmedQueueInfo.endOffset.greatThan d₁.readQueueInfo.endOffset ∨
            d₁.confirmedQueueInfo.offset > d₁.readQueueInfo.offset then
          { d₁ with confirmedQueueInfo := d₁.readQueueInfo }
        else d₁
      let d₃ := if endPos.offset > d₂.confirmedQueueInfo.offset then
          { d₂ with waitingMoreData := false } else d₂
      let d₄ := updateDepth { d₃ with queueEndInfo := endPos }
      (if reload then { d₄ with readFile := none, readBuffer := [] } else d₄, true)

/-- `UpdateQueueEnd` with a non-nil end. -/
def updateQueueEnd (d : DiskQueueReader) (e : DiskQueueEndInfo) (forceReload : Bool) :
    DiskQueueReader × Except ReaderError Bool :=
  if d.exitFlag then (d, .error .exiting)
  else
    let (d', changed) := internalUpdateEnd d e forceReload
    (d', .ok changed)

/-! ## Repositioning -/

/-- `getQueueSegmentEnd`: a data file's size, from `os.Stat`; a file that does not exist is a
`*os.PathError`. -/
def getQueueSegmentEnd (disk : Disk) (fileNum : Int) : Except ReaderError Int :=
  match disk.dataFile fileNum with
  | some f => .ok f.length
  | none => .error .fileNotExist

/-- The backward loop of `stepOffset`: while the distance left is more than the position, move to
the end of the previous file, taking its size from `os.Stat`. -/
def stepBack (disk : Disk) (step : Int) (o : DiskQueueOffset) :
    Except ReaderError DiskQueueOffset :=
  if step > o.pos then
    if o.fileNum - 1 < 0 then .error .moveOffsetInvalid
    else
      match disk.dataFile (o.fileNum - 1) with
      | none => .error .readQueueAlreadyCleaned
      | some f => stepBack disk (step - o.pos) ⟨o.fileNum - 1, f.length⟩
  else .ok ⟨o.fileNum, o.pos - step⟩
termination_by o.fileNum.toNat
decreasing_by omega

/-- The forward loop of `stepOffset`: while the distance left is more than what is left of the
file, move to the start of the next file. A file ends at its size while `cur` lies in a file
before `maxStep`'s, and at `maxStep`'s position otherwise. -/
def stepForward (disk : Disk) (cur maxStep : DiskQueueOffset) (step : Int) (o : DiskQueueOffset) :
    Except ReaderError DiskQueueOffset :=
  match (if cur.fileNum < maxStep.fileNum then getQueueSegmentEnd disk o.fileNum
      else .ok maxStep.pos) with
  | .error e => .error e
  | .ok fileEnd =>
    let diff := fileEnd - o.pos
    if step > diff then
      if _ : (⟨o.fileNum + 1, 0⟩ : DiskQueueOffset).greatThan maxStep then .error .offsetInvalid
      else if step - diff = 0 then .ok ⟨o.fileNum + 1, 0⟩
      else stepForward disk cur maxStep (step - diff) ⟨o.fileNum + 1, 0⟩
    else if (⟨o.fileNum, o.pos + step⟩ : DiskQueueOffset).greatThan maxStep then
      .error .offsetInvalid
    else .ok ⟨o.fileNum, o.pos + step⟩
termination_by (maxStep.fileNum - o.fileNum).toNat
decreasing_by
  have := DiskQueueOffset.greatThan_eq_false_iff.mp (Bool.eq_false_iff.mpr ‹_›)
  unfold DiskQueueOffset.Le at this
  dsimp only at this
  omega

/-- `stepOffset`: the position `step` bytes of virtual offset from `cur`, walking the files,
within the virtual range `[0, maxStep]`. -/
def stepOffset (disk : Disk) (cur : DiskQueueEndInfo) (step : Int) (maxStep : DiskQueueEndInfo) :
    Except ReaderError DiskQueueOffset :=
  if cur.endOffset.fileNum > maxStep.endOffset.fileNum then .error .offsetInvalid
  else if step = 0 then .ok cur.endOffset
  else if cur.offset + step < 0 then .error .moveOffsetExceedBegin
  else if cur.offset + step > maxStep.offset then .error .moveOffsetExceedMax
  else if step < 0 then stepBack disk (-step) cur.endOffset
  else stepForward disk cur.endOffset maxStep.endOffset step cur.endOffset

/-- The fallback of `internalSkipTo` when `stepOffset` met a missing data file: walk the files
from `newPos` by their offset meta, stepping over files without one, to the file whose range
holds `voffset`; in the queue end's file the position is counted back from the end. A start past
the end's file, where the Go loop would not stop, is never reached (`stepOffset` rejects it with
another error first); the model stops there with the error it had. -/
def skipByMeta (disk : Disk) (queueEnd : DiskQueueEndInfo) (voffset : Int)
    (newPos : DiskQueueOffset) : Except ReaderError DiskQueueOffset :=
  if newPos.fileNum = queueEnd.endOffset.fileNum then
    let pos := voffset - (queueEnd.offset - queueEnd.endOffset.pos)
    if pos < 0 then .error .fileNotExist else .ok ⟨newPos.fileNum, pos⟩
  else if newPos.fileNum < queueEnd.endOffset.fileNum then
    match disk.offsetMeta newPos.fileNum with
    | none => skipByMeta disk queueEnd voffset ⟨newPos.fileNum + 1, 0⟩
    | some m =>
      if voffset ≥ m.endPos then skipByMeta disk queueEnd voffset ⟨newPos.fileNum + 1, 0⟩
      else .ok ⟨newPos.fileNum, voffset - m.startPos⟩
  else .error .fileNotExist
termination_by (queueEnd.endOffset.fileNum - newPos.fileNum).toNat

/-- `internalSkipTo`: move read and confirmed to the virtual offset `voffset` with message count
`cnt`. Moving to the read or the confirmed position takes that position; moving below confirmed
needs `backToConfirmed`; otherwise the target is the queue end, or found by `stepOffset` from the
read position. A target other than the read position drops the open file and the buffer. -/
def internalSkipTo (disk : Disk) (d : DiskQueueReader) (voffset cnt : Int)
    (backToConfirmed : Bool) : DiskQueueReader × Option ReaderError :=
  if voffset = d.readQueueInfo.offset then
    let r := if cnt ≠ 0 ∧ d.readQueueInfo.totalMsgCnt ≠ cnt then
      { d.readQueueInfo with totalMsgCnt := cnt } else d.readQueueInfo
    (updateDepth { d with readQueueInfo := r, confirmedQueueInfo := r }, none)
  else
    let d := { d with readFile := none, readBuffer := [] }
    if voffset = d.confirmedQueueInfo.offset then
      let c := if cnt ≠ 0 ∧ d.confirmedQueueInfo.totalMsgCnt ≠ cnt then
        { d.confirmedQueueInfo with totalMsgCnt := cnt } else d.confirmedQueueInfo
      (updateDepth { d with confirmedQueueInfo := c, readQueueInfo := c }, none)
    else if voffset < d.confirmedQueueInfo.offset ∧ !backToConfirmed then (d, some .moveOffsetInvalid)
    else if voffset > d.queueEndInfo.offset ∨ cnt > d.queueEndInfo.totalMsgCnt then
      (d, some .moveOffsetOverflowed)
    else
      let target : Except ReaderError (DiskQueueOffset × Int) :=
        if voffset = d.queueEndInfo.offset then
          if cnt = 0 then .ok (d.queueEndInfo.endOffset, d.queueEndInfo.totalMsgCnt)
          else if cnt ≠ d.queueEndInfo.totalMsgCnt then .error .moveOffsetInvalid
          else .ok (d.queueEndInfo.endOffset, cnt)
        else if cnt = 0 ∧ voffset ≠ 0 then .error .moveOffsetInvalid
        else
          match stepOffset disk d.readQueueInfo (voffset - d.readQueueInfo.offset) d.queueEndInfo with
          | .ok p => .ok (p, cnt)
          | .error .fileNotExist =>
            (skipByMeta disk d.queueEndInfo voffset d.readQueueInfo.endOffset).map (·, cnt)
          | .error e => .error e
      match target with
      | .error e => (d, some e)
      | .ok (newPos, cnt) =>
        let r : DiskQueueEndInfo := ⟨newPos, voffset, cnt⟩
        -- a position past the queue end is pulled back to it
        let r := if r.endOffset.greatThan d.queueEndInfo.endOffset then d.queueEndInfo else r
        (updateDepth { d with readQueueInfo := r, confirmedQueueInfo := r }, none)

/-- `ResetReadToOffset`: drop the open file and the buffer, and skip to `offset`, back below
confirmed if need be. It answers the confirmed position and the error. -/
def resetReadToOffset (disk : Disk) (d : DiskQueueReader) (offset cnt : Int) :
    DiskQueueReader × Option DiskQueueEndInfo × Option ReaderError :=
  if d.exitFlag then (d, none, some .exiting)
  else
    let d := { d with readFile := none, readBuffer := [] }
    let (d', err) := internalSkipTo disk d offset cnt (offset < d.confirmedQueueInfo.offset)
    (d', some d'.confirmedQueueInfo, err)

/-- `SkipReadToOffset`: skip forward to `offset`, never below confirmed. -/
def skipReadToOffset (disk : Disk) (d : DiskQueueReader) (offset cnt : Int) :
    DiskQueueReader × Option DiskQueueEndInfo × Option ReaderError :=
  if d.exitFlag then (d, none, some .exiting)
  else
    let (d', err) := internalSkipTo disk d offset cnt false
    (d', some d'.confirmedQueueInfo, err)

/-- `ResetReadToConfirmed`: skip to the confirmed position. -/
def resetReadToConfirmed (disk : Disk) (d : DiskQueueReader) :
    DiskQueueReader × Option DiskQueueEndInfo × Option ReaderError :=
  if d.exitFlag then (d, none, some .exiting)
  else
    let (d', err) :=
      internalSkipTo disk d d.confirmedQueueInfo.offset d.confirmedQueueInfo.totalMsgCnt false
    (d', some d'.confirmedQueueInfo, err)

/-- `SkipReadToEnd`: skip to the queue end, and then take the end itself for both positions,
since the skip may leave them at the end of the file before the end's. -/
def skipReadToEnd (disk : Disk) (d : DiskQueueReader) :
    DiskQueueReader × Option DiskQueueEndInfo × Option ReaderError :=
  if d.exitFlag then (d, none, some .exiting)
  else
    let (d', err) :=
      internalSkipTo disk d d.queueEndInfo.offset d.queueEndInfo.totalMsgCnt false
    let d' := match err with
      | none => { d' with confirmedQueueInfo := d'.queueEndInfo, readQueueInfo := d'.queueEndInfo }
      | some _ => d'
    (d', some d'.confirmedQueueInfo, err)

/-- `ResetLastReadOne`: give back the last read, of `lastMoved` bytes, so that it is read again:
close the file and move the read position back, to virtual offset `offset` with count `cnt`. A
read position that is not that far into its file is left as it is, and so is its buffer. -/
def resetLastReadOne (d : DiskQueueReader) (offset cnt lastMoved : Int) : DiskQueueReader :=
  let d := { d with readFile := none }
  if d.readQueueInfo.endOffset.pos < lastMoved then d
  else
    let r := d.readQueueInfo
    let r : DiskQueueEndInfo := ⟨⟨r.endOffset.fileNum, r.endOffset.pos - lastMoved⟩, offset,
      r.totalMsgCnt⟩
    let r := if cnt > 0 ∨ (offset = 0 ∧ cnt = 0) then { r with totalMsgCnt := cnt } else r
    { d with readBuffer := [], readQueueInfo := r }

/-! ## Confirming -/

/-- `internalConfirm`: move the confirmed position to the virtual offset `offset` with count
`cnt`. `-1` confirms up to the read position; an offset not past confirmed is already confirmed;
one past the read position, or a count that disagrees with the read position's when confirming
up to it, is refused. Otherwise the position is found by `stepOffset` from the confirmed one,
bounded by the read position, and must not pass the queue end. -/
def internalConfirm (disk : Disk) (d : DiskQueueReader) (offset cnt : Int) :
    DiskQueueReader × Option ReaderError :=
  if offset = -1 then (updateDepth { d with confirmedQueueInfo := d.readQueueInfo }, none)
  else if offset ≤ d.confirmedQueueInfo.offset then (d, none)
  else if offset > d.readQueueInfo.offset then (d, some .confirmSizeInvalid)
  else
    -- confirming up to the read position, a zero count means the read position's
    let cnt := if offset = d.readQueueInfo.offset ∧ cnt = 0 then d.readQueueInfo.totalMsgCnt else cnt
    if offset = d.readQueueInfo.offset ∧ cnt ≠ d.readQueueInfo.totalMsgCnt then
      (d, some .confirmCntInvalid)
    else if cnt = 0 ∧ offset ≠ 0 then (d, some .confirmCntInvalid)
    else
      match stepOffset disk d.confirmedQueueInfo (offset - d.confirmedQueueInfo.offset)
          d.readQueueInfo with
      | .error _ => (d, some .confirmSizeInvalid)
      | .ok newConfirm =>
        if newConfirm.greatThan d.queueEndInfo.endOffset ∨ offset > d.queueEndInfo.offset then
          (d, some .confirmSizeInvalid)
        else (updateDepth { d with confirmedQueueInfo := ⟨newConfirm, offset, cnt⟩ }, none)

/-- `ConfirmRead`. -/
def confirmRead (disk : Disk) (d : DiskQueueReader) (offset cnt : Int) :
    DiskQueueReader × Option ReaderError :=
  if d.exitFlag then (d, some .exiting) else internalConfirm disk d offset cnt

end DiskQueueReader

end Nsq
