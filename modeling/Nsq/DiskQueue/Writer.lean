import Nsq.DiskQueue.Basic

/-!
# The disk queue writer

`diskQueueWriter` appends frames to the current data file and rolls to the next file once the
write position reaches `maxBytesPerFile`. A frame is the 4-byte big-endian `int32` length
followed by the payload (`writeOne`), or the raw bytes alone for a replicated batch
(`PutRawV2`). Both go through the writer's `bufio.Writer`, so the bytes of a frame reach the
data file when the buffer flushes: when it overflows, at `FlushBuffer`, at `sync`, and before a
roll.

The writer keeps three ends. `diskWriteEnd` is where the next frame goes, `diskReadEnd` is the
end that has been flushed and may be shown to readers, and `diskQueueStart` is where cleaning
has moved the queue's start to. The metadata files the writer persists for its own restart are
not modelled: no modelled function reads them back.
-/

namespace Nsq

/-- Go's `int32(x)` conversion: two's-complement wrap-around to 32 bits. -/
def int32 (x : Int) : Int := Int.bmod x (2 ^ 32)

/-- Values already inside the `int32` range are left as they are. -/
theorem int32_of_lt {x : Int} (hlo : -2147483648 ≤ x) (hhi : x < 2147483648) : int32 x = x :=
  Int.bmod_eq_of_le (by simpa using hlo) (by simpa using hhi)

theorem int32_int32 (x : Int) : int32 (int32 x) = int32 x := Int.bmod_bmod

/-- How a writer call fails. -/
inductive WriteError where
  /-- `errors.New("exiting")`. -/
  | exiting
  /-- `invalid message write size (%d) maxMsgSize=%d`, with the two numbers it prints. -/
  | invalidMessageWriteSize (dataLen maxMsgSize : Int)
  /-- `ErrInvalidOffset`. -/
  | invalidOffset
  /-- The `*os.PathError` of `os.Stat` on a data file that does not exist. -/
  | fileNotExist
  deriving DecidableEq, Repr

/-- The run-time state of `diskQueueWriter` that the modelled functions read and write. -/
structure DiskQueueWriter where
  diskWriteEnd : DiskQueueEndInfo
  diskReadEnd : DiskQueueEndInfo
  diskQueueStart : DiskQueueEndInfo
  maxBytesPerFile : Int
  minMsgSize : Int
  maxMsgSize : Int
  exitFlag : Bool
  needSync : Bool
  /-- The open data file, if any. -/
  writeFile : Option OsFile
  /-- The bytes `bufferWriter` holds and has not yet written to `writeFile`. -/
  bufferWriter : List UInt8

namespace DiskQueueWriter

/-- `newDiskQueueWriter` on a directory holding no file of the queue: no metadata to retrieve,
and `initQueueReadStart` finds no data file at an empty write end, so all three ends are zero. -/
def newDiskQueueWriter (maxBytesPerFile minMsgSize maxMsgSize : Int) : DiskQueueWriter where
  diskWriteEnd := .zero
  diskReadEnd := .zero
  diskQueueStart := .zero
  maxBytesPerFile := maxBytesPerFile
  minMsgSize := minMsgSize
  maxMsgSize := maxMsgSize
  exitFlag := false
  needSync := false
  writeFile := none
  bufferWriter := []

/-- `bufferWriter.Flush()`: the held bytes are written to the open file. With no open file the
write fails and the buffer keeps them. -/
def bufferWriterFlush (disk : Disk) (d : DiskQueueWriter) : Disk × DiskQueueWriter :=
  match d.writeFile with
  | some h =>
    let (disk', h') := osWrite disk h d.bufferWriter
    (disk', { d with writeFile := some h', bufferWriter := [] })
  | none => (disk, d)

/-- `sync`: flush the buffer, then publish the write end as the read end. -/
def sync (disk : Disk) (d : DiskQueueWriter) : Disk × DiskQueueWriter :=
  let (disk', d') := bufferWriterFlush disk d
  (disk', { d' with diskReadEnd := d'.diskWriteEnd, needSync := false })

/-- `saveFileOffsetMeta`: record beside the current data file the message count at the write
end and the virtual offsets of the file's start and of the write end. -/
def saveFileOffsetMeta (disk : Disk) (d : DiskQueueWriter) : Disk :=
  disk.setMeta d.diskWriteEnd.endOffset.fileNum
    ⟨d.diskWriteEnd.totalMsgCnt, d.diskWriteEnd.offset - d.diskWriteEnd.endOffset.pos,
      d.diskWriteEnd.offset⟩

/-- The opening half of `writeOne`: with no file open, open the current data file (creating
it), seek to the write position, and point the buffer at it, which drops what it held. -/
def openWriteFile (disk : Disk) (d : DiskQueueWriter) : Disk × DiskQueueWriter × OsFile :=
  match d.writeFile with
  | some h => (disk, d, h)
  | none =>
    let n := d.diskWriteEnd.endOffset.fileNum
    let pos := d.diskWriteEnd.endOffset.pos
    let h : OsFile := ⟨n, if pos > 0 then pos.toNat else 0⟩
    (disk.setData n (disk.contents n), { d with writeFile := some h, bufferWriter := [] }, h)

/-- One `bufferWriter.Write` into the open file `h`: what overflows the buffer is written at the
file's cursor, the rest is held. -/
def bufferedWrite (disk : Disk) (d : DiskQueueWriter) (h : OsFile) (bytes : List UInt8) :
    Disk × DiskQueueWriter :=
  let (through, held) := bufioWrite writeBufSize d.bufferWriter bytes
  let (disk', h') := osWrite disk h through
  (disk', { d with writeFile := some h', bufferWriter := held })

/-- The closing half of `writeOne`: once the write position reaches `maxBytesPerFile`, sync,
close the file, record its offset meta, and move the write end (and the read end with it) to
the start of the next file. -/
def rollIfFull (disk : Disk) (d : DiskQueueWriter) : Disk × DiskQueueWriter :=
  if d.diskWriteEnd.endOffset.pos ≥ d.maxBytesPerFile then
    let (disk₁, d₁) := sync disk d
    let d₂ := { d₁ with writeFile := none }
    let disk₂ := saveFileOffsetMeta disk₁ d₂
    let e' := d₂.diskWriteEnd.nextFile
    (disk₂, { d₂ with diskWriteEnd := e', diskReadEnd := e' })
  else (disk, d)

/-- `writeOne`: frame `data` (unless `isRaw`), put it through the buffer, advance the write end
by the frame's size and the message count by one (or by `msgCnt` for raw data), and roll when
the file is full. It answers the virtual offset the frame starts at and `int32` of its size. -/
def writeOne (disk : Disk) (d : DiskQueueWriter) (data : List UInt8) (isRaw : Bool)
    (msgCnt : Int) : Disk × DiskQueueWriter × Except WriteError (Int × Int) :=
  let (disk₁, d₁, h) := openWriteFile disk d
  let dataLen := int32 data.length
  if !isRaw && (dataLen < d₁.minMsgSize || dataLen > d₁.maxMsgSize) then
    (disk₁, d₁, .error (.invalidMessageWriteSize dataLen d₁.maxMsgSize))
  else
    -- `binary.Write` of the length is one buffered write, the payload another
    let (disk₂, d₂) :=
      if isRaw then (disk₁, d₁) else bufferedWrite disk₁ d₁ h (BigEndian.encodeInt 4 dataLen)
    let (disk₃, d₃) := bufferedWrite disk₂ d₂ (d₂.writeFile.getD h) data
    let writeOffset := d₃.diskWriteEnd.offset
    let totalBytes := if isRaw then dataLen else dataLen + 4
    let e := d₃.diskWriteEnd
    let e' : DiskQueueEndInfo :=
      ⟨⟨e.endOffset.fileNum, e.endOffset.pos + totalBytes⟩, e.virtualEnd + totalBytes,
        e.totalMsgCnt + if isRaw then msgCnt else 1⟩
    let (disk₄, d₄) := rollIfFull disk₃ { d₃ with diskWriteEnd := e' }
    (disk₄, d₄, .ok (writeOffset, int32 totalBytes))

/-- `PutV2`: write one message frame. It answers the frame's virtual offset, its size and the
write end after it. -/
def putV2 (disk : Disk) (d : DiskQueueWriter) (data : List UInt8) :
    Disk × DiskQueueWriter × Except WriteError (Int × Int × DiskQueueEndInfo) :=
  if d.exitFlag then (disk, d, .error .exiting)
  else
    let (disk', d', r) := writeOne disk d data false 0
    (disk', { d' with needSync := true },
      r.map fun (offset, writeBytes) => (offset, writeBytes, d'.diskWriteEnd))

/-- `PutRawV2`: write replicated raw bytes that hold `msgCnt` messages. -/
def putRawV2 (disk : Disk) (d : DiskQueueWriter) (data : List UInt8) (msgCnt : Int) :
    Disk × DiskQueueWriter × Except WriteError (Int × Int × DiskQueueEndInfo) :=
  if d.exitFlag then (disk, d, .error .exiting)
  else
    let (disk', d', r) := writeOne disk d data true msgCnt
    (disk', { d' with needSync := true },
      r.map fun (offset, writeBytes) => (offset, writeBytes, d'.diskWriteEnd))

/-- Raw data has no size check: `PutRawV2` of a running writer writes it and answers its length
as an `int32`. -/
theorem putRawV2_ok (disk : Disk) {d : DiskQueueWriter} (hex : d.exitFlag = false)
    (data : List UInt8) (msgCnt : Int) :
    ∃ disk' d' offset, putRawV2 disk d data msgCnt =
      (disk', d', .ok (offset, int32 data.length, d'.diskWriteEnd)) := by
  simp only [putRawV2, hex, Bool.false_eq_true, ↓reduceIte, writeOne, Bool.not_true,
    Bool.false_and, int32_int32, Except.map]
  exact ⟨_, _, _, rfl⟩

/-- `Flush`: sync when anything was written since the last sync. -/
def flush (disk : Disk) (d : DiskQueueWriter) : Disk × DiskQueueWriter × Except WriteError Unit :=
  if d.exitFlag then (disk, d, .error .exiting)
  else if d.needSync then
    let (disk', d') := sync disk d
    (disk', d', .ok ())
  else (disk, d, .ok ())

/-- `FlushBuffer`: write out what the buffer holds and publish the write end as the read end;
it answers whether there was anything to write. -/
def flushBuffer (disk : Disk) (d : DiskQueueWriter) : Disk × DiskQueueWriter × Bool :=
  if d.bufferWriter ≠ [] then
    let (disk', d') := bufferWriterFlush disk d
    (disk', { d' with diskReadEnd := d'.diskWriteEnd }, true)
  else (disk, d, false)

/-- `GetQueueWriteEnd`. -/
def getQueueWriteEnd (d : DiskQueueWriter) : DiskQueueEndInfo := d.diskWriteEnd

/-- `GetQueueReadEnd`. -/
def getQueueReadEnd (d : DiskQueueWriter) : DiskQueueEndInfo := d.diskReadEnd

/-- `GetQueueReadStart`. -/
def getQueueReadStart (d : DiskQueueWriter) : DiskQueueEndInfo := d.diskQueueStart

/-! ## Resetting the write end -/

/-- `closeCurrentFile`: flush the buffer, publish the write end as the read end, and close the
file. -/
def closeCurrentFile (disk : Disk) (d : DiskQueueWriter) : Disk × DiskQueueWriter :=
  let (disk', d') := bufferWriterFlush disk d
  (disk', { d' with diskReadEnd := d'.diskWriteEnd, writeFile := none })

/-- The loop of `truncateDiskQueueToWriteEnd`: move the data files `n`, `n + 1`, … aside until one
does not exist. Nothing in the code bounds the loop, so the model takes fuel; `none` means it did
not stop within it. -/
def renameFrom : Nat → Disk → Int → Option Disk
  | 0, _, _ => none
  | fuel + 1, disk, n =>
    match disk.dataFile n with
    | none => some disk
    | some _ => renameFrom fuel (disk.removeData n) (n + 1)

/-- `truncateDiskQueueToWriteEnd`: cut the write end's file at the write position, through the
open file (closing it) or by opening the file, which creates it; then move aside the data files
after it. A negative position fails the truncate, which is only logged. -/
def truncateDiskQueueToWriteEnd (fuel : Nat) (disk : Disk) (d : DiskQueueWriter) :
    Option (Disk × DiskQueueWriter) :=
  let pos := d.diskWriteEnd.endOffset.pos
  let cut (file : List UInt8) : List UInt8 := if pos < 0 then file else truncateAt file pos.toNat
  let (disk₁, d₁) : Disk × DiskQueueWriter :=
    match d.writeFile with
    | some h => (disk.setData h.fileNum (cut (disk.contents h.fileNum)), { d with writeFile := none })
    | none =>
      let n := d.diskWriteEnd.endOffset.fileNum
      (disk.setData n (cut (disk.contents n)), d)
  (renameFrom fuel disk₁ (d.diskWriteEnd.endOffset.fileNum + 1)).map fun disk₂ => (disk₂, d₁)

/-- The loop of `ResetWriteEndV2`: while the target `offset` lies before the start of file
`fileNum`, whose bytes end at virtual offset `newEnd` and position `pos`, step to the end of the
file before it, taking its size from `os.Stat`. It answers the loop's last `newEnd`, file and
position. -/
def resetWalk (disk : Disk) (offset newEnd fileNum pos : Int) : Except WriteError (Int × Int × Int) :=
  if offset < newEnd - pos then
    if fileNum - 1 < 0 then .error .invalidOffset
    else
      match disk.dataFile (fileNum - 1) with
      | none => .error .fileNotExist
      | some f => resetWalk disk offset (newEnd - pos) (fileNum - 1) f.length
  else .ok (newEnd, fileNum, pos)
termination_by fileNum.toNat
decreasing_by omega

/-- `ResetWriteEndV2`: move the write end back to the virtual offset `offset` with `totalCnt`
messages, and cut the data there. Between the queue start and the write end, it syncs, finds the
position by walking back over the files (or takes the queue start for offset `0`), publishes it
as the read end, closes the file and truncates. It answers the write end, which an error leaves
where it was, and the error. With `fuel` for the truncate's rename loop; `none` when that did not
stop. -/
def resetWriteEndV2 (fuel : Nat) (disk : Disk) (d : DiskQueueWriter) (offset totalCnt : Int) :
    Option (Disk × DiskQueueWriter × DiskQueueEndInfo × Option WriteError) :=
  if offset < d.diskQueueStart.virtualEnd ∨ totalCnt < d.diskQueueStart.totalMsgCnt then
    some (disk, d, d.diskWriteEnd, some .invalidOffset)
  else if offset > d.diskWriteEnd.offset then some (disk, d, d.diskWriteEnd, some .invalidOffset)
  else
    let (disk₁, d₁) := if d.needSync then sync disk d else (disk, d)
    if offset = 0 then
      let (disk₂, d₂) := closeCurrentFile disk₁ d₁
      let d₃ := { d₂ with diskWriteEnd := d₂.diskQueueStart, diskReadEnd := d₂.diskQueueStart }
      (truncateDiskQueueToWriteEnd fuel disk₂ d₃).map fun (disk₄, d₄) =>
        (disk₄, d₄, d₄.diskWriteEnd, none)
    else
      let e := d₁.diskWriteEnd
      match resetWalk disk₁ offset e.offset e.endOffset.fileNum e.endOffset.pos with
      | .error err => some (disk₁, d₁, d₁.diskWriteEnd, some err)
      | .ok (newEnd, fileNum, pos) =>
        let e' : DiskQueueEndInfo := ⟨⟨fileNum, pos - (newEnd - offset)⟩, offset, totalCnt⟩
        let (disk₂, d₂) := closeCurrentFile disk₁ { d₁ with diskWriteEnd := e', diskReadEnd := e' }
        (truncateDiskQueueToWriteEnd fuel disk₂ d₂).map fun (disk₃, d₃) =>
          (disk₃, d₃, d₃.diskWriteEnd, none)

/-- `RollbackWriteV2`: take back the last writes, `diffCnt` messages from the virtual offset
`offset` on, within the write end's file. Past the queue start, it syncs, refuses an offset after
the write end or before the start of the write end's file, moves the write end back by the bytes
taken back, pulls the read end back to it when that was ahead, and truncates. It answers the
write end, which an error leaves where it was, and the error. With `fuel` for the truncate's
rename loop; `none` when that did not stop. -/
def rollbackWriteV2 (fuel : Nat) (disk : Disk) (d : DiskQueueWriter) (offset : Int) (diffCnt : Nat) :
    Option (Disk × DiskQueueWriter × DiskQueueEndInfo × Option WriteError) :=
  if offset < d.diskQueueStart.virtualEnd ∨
      d.diskWriteEnd.totalMsgCnt - diffCnt < d.diskQueueStart.totalMsgCnt then
    some (disk, d, d.diskWriteEnd, some .invalidOffset)
  else
    let (disk₁, d₁) := if d.needSync then sync disk d else (disk, d)
    let e := d₁.diskWriteEnd
    if offset > e.offset then some (disk₁, d₁, e, some .invalidOffset)
    -- "rollback write position can not across file"
    else if offset < e.offset - e.endOffset.pos then some (disk₁, d₁, e, some .invalidOffset)
    else
      let e' : DiskQueueEndInfo :=
        ⟨⟨e.endOffset.fileNum, e.endOffset.pos - (e.offset - offset)⟩, offset, e.totalMsgCnt - diffCnt⟩
      let d₂ := { d₁ with diskWriteEnd := e' }
      let d₃ :=
        if d₂.diskReadEnd.endOffset.pos > e'.endOffset.pos ∨ d₂.diskReadEnd.offset > e'.offset then
          { d₂ with diskReadEnd := e' }
        else d₂
      (truncateDiskQueueToWriteEnd fuel disk₁ d₃).map fun (disk₄, d₄) =>
        (disk₄, d₄, d₄.diskWriteEnd, none)

end DiskQueueWriter

end Nsq
