import Nsq.DiskQueue.Reader

/-!
# The disk queue snapshot

`DiskQueueSnapshot` reads a disk queue between a start and an end fixed when it is made, for
readers that are not the queue's consumer (a replica catching up reads raw bytes with it). It has
three positions, `queueStart`, `readPos` and `endPos`, and an open data file read through a
`bufio.Reader`. `Topic.GetDiskQueueSnapshot` makes one from the backend's start and read end, the
end pulled back to the committed end when that is behind.

The reads differ from the consumer's reader in how they find the end. `ReadOne` stops only when
the whole read position equals the end, message count included, and `seekTo` and `ReadOne` move
the position's file, byte position and virtual offset but never its count. In every file before
the end's, both reads walk on at the file's size; in the end's file neither bounds its read by
the end's position, only by the size of the file.

The disk is fixed within a call. The `bufio.Reader` on the open file reads the file's bytes in
order from where the file was opened and sought, so the open file's cursor stands for both.
-/

namespace Nsq

/-- How a snapshot call other than `ReadOne` fails: a reader error, `can not step backward` from
its `stepOffset`, or a Go run-time panic (a slice whose end is before its start). -/
inductive SnapshotError where
  | reader (e : ReaderError)
  | canNotStepBackward
  | goPanic
  deriving DecidableEq, Repr

/-- The run-time state of `DiskQueueSnapshot` that the modelled functions read and write. -/
structure DiskQueueSnapshot where
  queueStart : DiskQueueEndInfo
  readPos : DiskQueueEndInfo
  endPos : DiskQueueEndInfo
  exitFlag : Bool
  /-- The open data file, if any; its cursor is where the `bufio.Reader` on it reads next. -/
  readFile : Option OsFile
  deriving DecidableEq, Repr

namespace DiskQueueSnapshot

/-- `UpdateQueueEnd` with a non-nil end: a read position past the new end is pulled back to it. -/
def updateQueueEnd (s : DiskQueueSnapshot) (e : DiskQueueEndInfo) : DiskQueueSnapshot :=
  if s.exitFlag then s
  else { s with readPos := if s.readPos.endOffset.greatThan e.endOffset then e else s.readPos,
                endPos := e }

/-- `NewDiskQueueSnapshot`: every position zero, then `UpdateQueueEnd` to the given end. -/
def newDiskQueueSnapshot (endInfo : DiskQueueEndInfo) : DiskQueueSnapshot :=
  updateQueueEnd ⟨.zero, .zero, .zero, false, none⟩ endInfo

/-- `SetQueueStart` with a non-nil start: a read position before the new start is moved to it. -/
def setQueueStart (s : DiskQueueSnapshot) (start : DiskQueueEndInfo) : DiskQueueSnapshot :=
  if s.exitFlag then s
  else { s with queueStart := start,
                readPos := if start.endOffset.greatThan s.readPos.endOffset then start else s.readPos }

/-- `Topic.GetDiskQueueSnapshot`: a snapshot of the backend from its start to its read end, or to
the committed end when that is behind the read end. -/
def getDiskQueueSnapshot (backend : DiskQueueWriter) (committed : Option DiskQueueEndInfo) :
    DiskQueueSnapshot :=
  let e := match committed with
    | some commit => if backend.getQueueReadEnd.offset > commit.offset then commit
      else backend.getQueueReadEnd
    | none => backend.getQueueReadEnd
  (newDiskQueueSnapshot e).setQueueStart backend.getQueueReadStart

/-- The snapshot's `stepOffset`: the reader's `stepOffset`, refusing a backward step unless
`allowBackward`. -/
def stepOffset (disk : Disk) (allowBackward : Bool) (cur : DiskQueueEndInfo) (step : Int)
    (maxStep : DiskQueueEndInfo) : Except SnapshotError DiskQueueOffset :=
  if cur.endOffset.fileNum > maxStep.endOffset.fileNum then .error (.reader .offsetInvalid)
  else if step = 0 then .ok cur.endOffset
  else if !allowBackward ∧ step < 0 then .error .canNotStepBackward
  else (DiskQueueReader.stepOffset disk cur step maxStep).mapError .reader

/-- `seekTo`: close the open file, then move the read position to the virtual offset `voffset`,
the end's position for the end's offset and otherwise found by `stepOffset` from the read
position. The message count is left as it was. `SeekTo(v)` is `seekTo(v, false)`. -/
def seekTo (disk : Disk) (s : DiskQueueSnapshot) (voffset : Int) (allowBackward : Bool) :
    DiskQueueSnapshot × Option SnapshotError :=
  let s := { s with readFile := none }
  let newPos : Except SnapshotError DiskQueueOffset :=
    if voffset > s.endPos.virtualEnd then .error (.reader .moveOffsetOverflowed)
    else if voffset = s.endPos.virtualEnd then .ok s.endPos.endOffset
    else if voffset < s.queueStart.offset then .error (.reader .readQueueAlreadyCleaned)
    else stepOffset disk allowBackward s.readPos (voffset - s.readPos.virtualEnd) s.endPos
  match newPos with
  | .error e => (s, some e)
  | .ok p => ({ s with readPos := { s.readPos with endOffset := p, virtualEnd := voffset } }, none)

/-- `ResetSeekTo`: `seekTo` that may move backward. -/
def resetSeekTo (disk : Disk) (s : DiskQueueSnapshot) (voffset : Int) :
    DiskQueueSnapshot × Option SnapshotError :=
  seekTo disk s voffset true

/-- Opening the read file, if none is open: the data file of the read position, sought to the
read position when it is positive. Opening a file that does not exist fails. -/
def openReadFile (disk : Disk) (s : DiskQueueSnapshot) : Option OsFile :=
  match s.readFile with
  | some h => some h
  | none =>
    let p := s.readPos.endOffset
    (disk.dataFile p.fileNum).map fun _ => ⟨p.fileNum, if p.pos > 0 then p.pos.toNat else 0⟩

/-! ## `ReadRaw` -/

/-- The loop of `ReadRaw` for `size` bytes, with at most `fuel` turns, a jump back to
`CheckFileOpen` counting as one: `acc` is `result[:readOffset]`. Each turn opens the file, walks
off the end of a file before the end's file, answers `io.EOF` at the end of the end's file, and
otherwise reads what is left of the request, within what is left of the file. A failure answers
the whole `result`: what was read, then zeros. `none` is no answer within the fuel: the loop need
not stop once the read position is past the end's file. -/
def readRawLoop : Nat → Disk → DiskQueueSnapshot → Nat → List UInt8 →
    Option (DiskQueueSnapshot × List UInt8 × Option SnapshotError)
  | 0, _, _, _, _ => none
  | fuel + 1, disk, s, size, acc =>
    if acc.length < size then
      let result (bs : List UInt8) : List UInt8 := bs ++ List.replicate (size - bs.length) 0
      match openReadFile disk s with
      | none => some (s, result acc, some (.reader .fileNotExist))
      | some h =>
        let fileSize : Int := (disk.contents h.fileNum).length
        let r := s.readPos
        if r.endOffset.fileNum < s.endPos.endOffset.fileNum ∧ r.endOffset.pos ≥ fileSize then
          readRawLoop fuel disk { s with readPos := r.nextFile, readFile := none } size acc
        else
          let fileLeft := fileSize - r.endOffset.pos
          if r.endOffset.fileNum = s.endPos.endOffset.fileNum ∧ fileLeft = 0 then
            some ({ s with readFile := some h }, acc, some (.reader .eof))
          else
            let currentRead := min ((size : Int) - acc.length) fileLeft
            -- `result[readOffset : readOffset + currentRead]` with a negative length
            if currentRead < 0 then some ({ s with readFile := some h }, result acc, some .goPanic)
            else
              let n := currentRead.toNat
              let avail := (disk.contents h.fileNum).drop h.cursor
              -- `io.ReadFull` fills what the file holds before it fails
              if avail.length < n then
                some ({ s with readFile := none }, result (acc ++ avail), some (.reader .eof))
              else
                let r' : DiskQueueEndInfo := { r with
                  endOffset := ⟨r.endOffset.fileNum, r.endOffset.pos + n⟩
                  virtualEnd := r.virtualEnd + n }
                let s' : DiskQueueSnapshot :=
                  if r.endOffset.fileNum < s.endPos.endOffset.fileNum ∧ r'.endOffset.pos ≥ fileSize then
                    { s with readFile := none, readPos := r'.nextFile }
                  else { s with readFile := some { h with cursor := h.cursor + n }, readPos := r' }
                readRawLoop fuel disk s' size (acc ++ avail.take n)
    else some (s, acc, none)

/-- `ReadRaw(size)`, with `fuel` for its loop; `make` of a negative size panics. -/
def readRaw (fuel : Nat) (disk : Disk) (s : DiskQueueSnapshot) (size : Int) :
    Option (DiskQueueSnapshot × List UInt8 × Option SnapshotError) :=
  if size < 0 then some (s, [], some .goPanic) else readRawLoop fuel disk s size.toNat []

/-! ## `ReadOne` -/

/-- The `CheckFileOpen` loop of `ReadOne`: open the read file, and while the read position is at
or past the end of a file before the end's file, close it and move to the next file. It answers
the open file, or the error of an open that failed. -/
def checkFileOpen (disk : Disk) (s : DiskQueueSnapshot) :
    DiskQueueSnapshot × Except ReaderError OsFile :=
  match openReadFile disk s with
  | none => (s, .error .fileNotExist)
  | some h =>
    if s.readPos.endOffset.fileNum < s.endPos.endOffset.fileNum ∧
        s.readPos.endOffset.pos ≥ ((disk.contents h.fileNum).length : Int) then
      checkFileOpen disk { s with readPos := s.readPos.nextFile, readFile := none }
    else ({ s with readFile := some h }, .ok h)
termination_by (s.endPos.endOffset.fileNum - s.readPos.endOffset.fileNum).toNat
decreasing_by simp only [DiskQueueEndInfo.nextFile]; omega

/-- The frame-reading half of `ReadOne`, from the open file `h`: the `int32` length, the payload,
and the advance of the read position, which moves on to the next file when it reaches the end of
a file before the end's file. No bound but the file's size limits the read; the result's count
is never set. Every failure closes the file. -/
def readFrame (disk : Disk) (s : DiskQueueSnapshot) (h : OsFile) :
    DiskQueueSnapshot × ReadResult :=
  let r := s.readPos
  let fail (err : ReaderError) (data : List UInt8) : DiskQueueSnapshot × ReadResult :=
    ({ s with readFile := none }, ⟨r.offset, 0, 0, data, some err⟩)
  let avail := (disk.contents h.fileNum).drop h.cursor
  -- `binary.Read` of the length
  if avail.length < 4 then fail .eof [] else
  let msgSize := BigEndian.decodeInt 4 (avail.take 4)
  if msgSize ≤ 0 ∨ msgSize > maxPossibleMsgSize then fail (.invalidMessageReadSize msgSize) [] else
  let body := avail.drop 4
  -- `io.ReadFull` fills what the file holds before it fails
  if (body.length : Int) < msgSize then
    fail .eof (body ++ (List.replicate msgSize.toNat 0).drop body.length) else
  let totalBytes := 4 + msgSize
  let r' : DiskQueueEndInfo := { r with
    endOffset := ⟨r.endOffset.fileNum, r.endOffset.pos + totalBytes⟩
    virtualEnd := r.virtualEnd + totalBytes }
  let s' : DiskQueueSnapshot :=
    if r'.endOffset.fileNum < s.endPos.endOffset.fileNum ∧
        r'.endOffset.pos ≥ ((disk.contents h.fileNum).length : Int) then
      { s with readFile := none, readPos := r'.nextFile }
    else { s with readFile := some { h with cursor := h.cursor + totalBytes.toNat }, readPos := r' }
  (s', ⟨r.offset, totalBytes, 0, body.take msgSize.toNat, none⟩)

/-- `ReadOne`: `io.EOF` when the read position is the end, as a whole; otherwise the frame at
the read position. -/
def readOne (disk : Disk) (s : DiskQueueSnapshot) : DiskQueueSnapshot × ReadResult :=
  if s.readPos = s.endPos then (s, { ReadResult.empty with err := some .eof })
  else
    match checkFileOpen disk s with
    | (s₁, .error e) => (s₁, ⟨s₁.readPos.offset, 0, 0, [], some e⟩)
    | (s₁, .ok h) => readFrame disk s₁ h

end DiskQueueSnapshot

end Nsq
