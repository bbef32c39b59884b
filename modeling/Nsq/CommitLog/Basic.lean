import Mathlib

/-!
# The topic commit log

`TopicCommitLogMgr` keeps a partition's commit log: one 48-byte `CommitLogData` record per
committed write, appended to the current file `path`, buffered in `committedLogs` on the way. When
the current file holds `LOGROTATE_NUM` records it is renamed to the segment file `path.%08d` of
index `currentStart`, and a new current file starts. `logStartInfo` says where the log starts, at
a segment and a byte offset in it; `CleanOldData` moves it forward, and `TruncateToOffsetV2` cuts
the log back to a position, renaming a segment back to the current file when the position lies in
one. `pLogID` is the last record's `LogID`; `nLogID` is the message-ID source of `NextID`.

The model keeps each file as the list of records it holds: `binary.Write` and `binary.Read` of
fixed-size records, with byte offsets `48 * k`. A byte offset inside a record is taken down to the
record boundary; the operations of interest are all at record boundaries. Go's `/` and `%` on
`int64` truncate toward zero: they are `Int.tdiv` and `Int.tmod`. `LOGROTATE_NUM` and
`MIN_KEEP_LOG_ITEM` are package variables; the operations take them as arguments. The file-system
calls are taken to succeed, except the reads of segment files that may have been removed, which
fail as the missing file's `os.Stat` or `os.Open` does. The `.start` and `.current` metadata
files only mirror `logStartInfo` and `currentStart`, and are not modelled.
-/

namespace Nsq

/-- `CommitLogData`. -/
structure CommitLogData where
  logID : Int
  epoch : Int
  lastMsgLogID : Int
  msgOffset : Int
  msgSize : Int
  msgCnt : Int
  msgNum : Int
  deriving DecidableEq, Repr

/-- `GetLogDataSize()`: the size of a record on disk. -/
def logDataSize : Int := 48

/-- `MAX_COMMIT_BUF_SIZE` -/
def maxCommitBufSize : Nat := 1000

/-- `DEFAULT_COMMIT_BUF_SIZE` -/
def defaultCommitBufSize : Int := 400

/-- `MAX_INCR_ID_BIT` -/
def maxIncrIDBit : Nat := 50

/-- The zero bytes a file grows by when it is truncated past its end, read as records. -/
def CommitLogData.zero : CommitLogData := ⟨0, 0, 0, 0, 0, 0, 0⟩

/-- The commit log errors the modelled operations answer. -/
inductive CommitLogError where
  | wrongID
  | wrongLastID
  | eof
  | outofBound
  | offsetInvalid
  | partitionExceed
  | lessThanSegmentStart
  | cleanKeepMin
  | idNotFound
  | searchNotFound
  /-- the error `errors.New("init commit log id failed")` of a reopen -/
  | initLogIDFailed
  /-- the `*os.PathError` of a segment file that does not exist -/
  | fileNotExist
  /-- the error `ReadAt` answers at a negative offset -/
  | negativeOffset
  deriving DecidableEq, Repr

/-- `LogStartInfo` -/
structure LogStartInfo where
  segmentStartCount : Int
  segmentStartIndex : Int
  segmentStartOffset : Int
  deriving DecidableEq, Repr

/-- The state of `TopicCommitLogMgr` that the modelled operations read and write. -/
structure TopicCommitLogMgr where
  partition : Int
  nLogID : Int
  pLogID : Int
  /-- the segment files `path.%08d` by index, `none` where there is no such file -/
  segments : Int → Option (List CommitLogData)
  /-- the records of the current file `path` -/
  appender : List CommitLogData
  committedLogs : List CommitLogData
  /-- `cap(committedLogs)` -/
  commitCap : Nat
  bufSize : Int
  currentStart : Int
  currentCount : Int
  logStartInfo : LogStartInfo

/-! ## Reading files -/

/-- The record at a byte offset: `getCommitLogFromFile`. -/
def getCommitLogFromFile (file : List CommitLogData) (offset : Int) :
    Except CommitLogError CommitLogData :=
  let fsize := logDataSize * file.length
  if offset = fsize then .error .eof
  else if offset > fsize - logDataSize then .error .outofBound
  else if offset.tmod logDataSize ≠ 0 then .error .offsetInvalid
  else if offset < 0 then .error .negativeOffset
  else
    match file[(offset / logDataSize).toNat]? with
    | some l => .ok l
    | none => .error .offsetInvalid

/-- The last record of a file and its byte offset: `getLastCommitLogDataFromFile`. -/
def getLastCommitLogDataFromFile (file : List CommitLogData) :
    Except CommitLogError (CommitLogData × Int) :=
  if file.length = 0 then .error .eof
  else
    let roundOffset := logDataSize * (file.length - 1)
    match getCommitLogFromFile file roundOffset with
    | .ok l => .ok (l, roundOffset)
    | .error e => .error e

/-- `getLastCommitLogData`: the last record of a segment file. -/
def getLastCommitLogData (segment : Option (List CommitLogData)) :
    Except CommitLogError (CommitLogData × Int) :=
  match segment with
  | none => .error .fileNotExist
  | some file => getLastCommitLogDataFromFile file

/-- `file.Truncate(offset)`: the records before the offset, or zero records past the end. -/
def truncateRecords (file : List CommitLogData) (offset : Int) : List CommitLogData :=
  let k := (offset / logDataSize).toNat
  if k ≤ file.length then file.take k
  else file ++ List.replicate (k - file.length) CommitLogData.zero

/-- `truncateFileToOffset`: cut the file at a byte offset and answer the record before it. -/
def truncateFileToOffset (file : List CommitLogData) (fileStartOffset offset : Int) :
    List CommitLogData × Except CommitLogError CommitLogData :=
  if offset > 0 ∧ offset < logDataSize then (file, .error .offsetInvalid)
  else if offset < fileStartOffset then (file, .error .lessThanSegmentStart)
  else
    let file' := truncateRecords file offset
    if offset = fileStartOffset then (file', .error .eof)
    else
      match file'[((offset - logDataSize) / logDataSize).toNat]? with
      | some l => (file', .ok l)
      | none => (file', .error .offsetInvalid)

namespace TopicCommitLogMgr

/-! ## The operations -/

/-- `InitTopicCommitLogMgr` on a directory with no commit log of the partition: no segment, an
empty current file and an empty log start. -/
def initTopicCommitLogMgr (p : Int) (commitBufSize : Nat) : Except CommitLogError TopicCommitLogMgr :=
  -- `uint64(p) >= 1 << (63 - MAX_INCR_ID_BIT)`, a negative `p` wrapping to a large one
  if p < 0 ∨ p ≥ 2 ^ (63 - maxIncrIDBit) then .error .partitionExceed
  else
    let bs := min commitBufSize maxCommitBufSize
    .ok { partition := p, nLogID := p * 2 ^ maxIncrIDBit + 1, pLogID := 0,
          segments := fun _ => none, appender := [], committedLogs := [], commitCap := bs,
          bufSize := bs, currentStart := 0, currentCount := 0, logStartInfo := ⟨0, 0, 0⟩ }

/-- `flushCommitLogsNoLock`: the buffered records go to the current file. -/
def flushCommitLogsNoLock (m : TopicCommitLogMgr) : TopicCommitLogMgr :=
  { m with appender := m.appender ++ m.committedLogs, committedLogs := [] }

/-- `FlushCommitLogs` -/
def flushCommitLogs (m : TopicCommitLogMgr) : TopicCommitLogMgr := m.flushCommitLogsNoLock

/-- `switchForMaster`: flush, and size the buffer for a leader or a follower. -/
def switchForMaster (m : TopicCommitLogMgr) (master : Bool) : TopicCommitLogMgr :=
  let m := m.flushCommitLogsNoLock
  let slaveBuf := if m.bufSize < defaultCommitBufSize / 4 then m.bufSize * 2 else m.bufSize
  { m with commitCap := (if master then m.bufSize else slaveBuf).toNat }

/-- The rotation in `AppendCommitLog`: the current file becomes the segment `currentStart`. -/
def rotate (m : TopicCommitLogMgr) : TopicCommitLogMgr :=
  let m := m.flushCommitLogsNoLock
  { m with segments := Function.update m.segments m.currentStart (some m.appender),
           appender := [], currentStart := m.currentStart + 1, currentCount := 0 }

/-- The write in `AppendCommitLog`: straight to the file without a buffer, else to the buffer,
flushed first when it is full. -/
def bufferCommitLog (m : TopicCommitLogMgr) (l : CommitLogData) : TopicCommitLogMgr :=
  if m.commitCap = 0 then { m with appender := m.appender ++ [l] }
  else
    let m' := if m.committedLogs.length ≥ m.commitCap then m.flushCommitLogsNoLock else m
    { m' with committedLogs := m'.committedLogs ++ [l] }

/-- `AppendCommitLog`, with `LOGROTATE_NUM` as `rotateNum`. -/
def appendCommitLog (m : TopicCommitLogMgr) (rotateNum : Int) (l : CommitLogData) (slave : Bool) :
    TopicCommitLogMgr × Option CommitLogError :=
  if l.logID ≤ m.pLogID then (m, some .wrongID)
  else if l.lastMsgLogID < l.logID then (m, some .wrongLastID)
  else
    let m₁ := if slave then { m with nLogID := l.lastMsgLogID + 1 } else m
    let m₂ := if m₁.currentCount ≥ rotateNum then m₁.rotate else m₁
    let m₃ := m₂.bufferCommitLog l
    ({ m₃ with currentCount := m₃.currentCount + 1, pLogID := l.logID }, none)

/-- `NextID` -/
def nextID (m : TopicCommitLogMgr) : TopicCommitLogMgr × Int :=
  ({ m with nLogID := m.nLogID + 1 }, m.nLogID + 1)

/-- `GetLastCommitLogID` -/
def getLastCommitLogID (m : TopicCommitLogMgr) : Int := m.pLogID

/-- The end of `truncateToOffset` on success: the record before the cut is the last one. -/
def truncatedTo (m : TopicCommitLogMgr) (l : CommitLogData) :
    TopicCommitLogMgr × Except CommitLogError CommitLogData :=
  ({ m with pLogID := l.logID,
            nLogID := if l.lastMsgLogID + 1 > m.nLogID then l.lastMsgLogID + 1 else m.nLogID },
    .ok l)

/-- `truncateToOffset`: cut the current file; when nothing is left in it, the last record is the
previous segment's, or none at the log start. -/
def truncateToOffset (m : TopicCommitLogMgr) (startOffset offset : Int) :
    TopicCommitLogMgr × Except CommitLogError CommitLogData :=
  let (file, r) := truncateFileToOffset m.appender startOffset offset
  let m := { m with appender := file, currentCount := offset.tdiv logDataSize }
  match r with
  | .ok l => m.truncatedTo l
  | .error .eof =>
    if m.currentStart ≤ m.logStartInfo.segmentStartIndex then ({ m with pLogID := 0 }, .error .eof)
    else
      match getLastCommitLogData (m.segments (m.currentStart - 1)) with
      | .ok (l, _) => m.truncatedTo l
      | .error e => (m, .error e)
  | .error e => (m, .error e)

/-- `TruncateToOffsetV2`: cut the log back to a segment and byte offset; a position in a rotated
segment makes that segment the current file and removes the files after it. -/
def truncateToOffsetV2 (m : TopicCommitLogMgr) (startIndex offset : Int) :
    TopicCommitLogMgr × Except CommitLogError CommitLogData :=
  let m := m.flushCommitLogsNoLock
  if startIndex > m.currentStart then (m, .error .offsetInvalid)
  else if startIndex < m.logStartInfo.segmentStartIndex ∨
      (startIndex = m.logStartInfo.segmentStartIndex ∧
        offset < m.logStartInfo.segmentStartOffset) then (m, .error .lessThanSegmentStart)
  else
    let startOffset :=
      if startIndex = m.logStartInfo.segmentStartIndex then m.logStartInfo.segmentStartOffset else 0
    if startIndex < m.currentStart then
      -- the current file and the segments after `startIndex` are removed, and the segment
      -- `startIndex` is renamed to the current file
      let segments' := fun i => if startIndex < i ∧ i < m.currentStart then none else m.segments i
      let m₁ := { m with currentStart := startIndex, currentCount := offset.tdiv logDataSize,
                         appender := [], segments := segments' }
      match m.segments startIndex with
      | none => (m₁, .error .fileNotExist)
      | some file =>
        { m₁ with appender := file, segments := Function.update segments' startIndex none }
          |>.truncateToOffset startOffset offset
    else m.truncateToOffset startOffset offset

/-- The loop of `CleanOldData` over the segments from the log start to `fileIndex`: each is
counted into the log start, which moves to the next segment; all but the last are removed. It
answers the offset the log start is at in the segment it reached. -/
def cleanSegments (m : TopicCommitLogMgr) (fileIndex : Int) (i cleanStartOffset : Int) :
    TopicCommitLogMgr × Except CommitLogError Int :=
  if i < fileIndex then
    match m.segments i with
    | none => (m, .error .fileNotExist)
    | some file =>
      let size := logDataSize * file.length
      if cleanStartOffset > size then (m, .error .offsetInvalid)
      else if (size - cleanStartOffset).tmod logDataSize ≠ 0 then (m, .error .offsetInvalid)
      else
        let s := m.logStartInfo
        let m₁ := { m with
          logStartInfo := ⟨s.segmentStartCount + (size - cleanStartOffset).tdiv logDataSize,
                           s.segmentStartIndex + 1, 0⟩
          segments := if i < fileIndex - 1 then Function.update m.segments i none else m.segments }
        cleanSegments m₁ fileIndex (i + 1) 0
  else (m, .ok cleanStartOffset)
termination_by (fileIndex - i).toNat

/-- The checks of `CleanOldData`, with `MIN_KEEP_LOG_ITEM` as `minKeep`: the new log start may
not lie past the current file, and at least `minKeep` records must stay after it. -/
def cleanKeepCheck (m : TopicCommitLogMgr) (minKeep fileIndex fileOffset : Int) :
    Option CommitLogError :=
  if fileIndex > m.currentStart then some .cleanKeepMin
  else if fileIndex = m.currentStart then
    if fileOffset.tdiv logDataSize + minKeep ≥ m.currentCount then some .cleanKeepMin else none
  else if fileIndex = m.currentStart - 1 then
    match m.segments fileIndex with
    | none => some .fileNotExist
    | some file =>
      let leftSize := logDataSize * file.length - fileOffset
      if leftSize < 0 then some .offsetInvalid
      else if leftSize.tdiv logDataSize + m.currentCount ≤ minKeep then some .cleanKeepMin
      else none
  else none

/-- The end of `CleanOldData`: the log start moves on from `cleanStartOffset` to `fileOffset` in its
segment, counting the records it passes, and to the next file when that is the segment file's
end. -/
def moveStart (m : TopicCommitLogMgr) (fileOffset cleanStartOffset : Int) :
    TopicCommitLogMgr × Option CommitLogError :=
  if fileOffset < cleanStartOffset then (m, some .offsetInvalid)
  else
    let s := m.logStartInfo
    let m₂ := { m with logStartInfo :=
      ⟨s.segmentStartCount + (fileOffset - cleanStartOffset).tdiv logDataSize,
       s.segmentStartIndex, fileOffset⟩ }
    if m₂.logStartInfo.segmentStartIndex < m₂.currentStart then
      match m₂.segments m₂.logStartInfo.segmentStartIndex with
      | none => (m₂, some .fileNotExist)
      | some file =>
        let size := logDataSize * file.length
        if fileOffset > size then (m₂, some .offsetInvalid)
        else if fileOffset = size then
          ({ m₂ with logStartInfo :=
            ⟨m₂.logStartInfo.segmentStartCount, m₂.logStartInfo.segmentStartIndex + 1, 0⟩ },
            none)
        else (m₂, none)
    else (m₂, none)

/-- The cleaning of `CleanOldData` once its checks pass: remove the segment files before the one
before `fileIndex`, count the segment files up to `fileIndex` into the log start, and move it to
`fileOffset`. -/
def cleanTo (m : TopicCommitLogMgr) (fileIndex fileOffset : Int) :
    TopicCommitLogMgr × Option CommitLogError :=
  let cleanStart := m.logStartInfo.segmentStartIndex
  -- the segments before the log start are removed, all but the one before `fileIndex`
  let m₀ := { m with segments := fun i =>
    if 0 ≤ i ∧ i < cleanStart ∧ i < fileIndex - 1 then none else m.segments i }
  match cleanSegments m₀ fileIndex cleanStart m.logStartInfo.segmentStartOffset with
  | (m₁, .error e) => (m₁, some e)
  | (m₁, .ok cleanStartOffset) => m₁.moveStart fileOffset cleanStartOffset

/-- `CleanOldData`, with `MIN_KEEP_LOG_ITEM` as `minKeep`: move the log start to a segment and
byte offset, keeping at least `minKeep` records after it. -/
def cleanOldData (m : TopicCommitLogMgr) (minKeep : Int) (fileIndex fileOffset : Int) :
    TopicCommitLogMgr × Option CommitLogError :=
  match m.cleanKeepCheck minKeep fileIndex fileOffset with
  | some e => (m, some e)
  | none => m.cleanTo fileIndex fileOffset

/-- The backward scan of `GetLastCommitLogOffsetV2` over the current file, from the record at
byte offset `logDataSize * k` down: the record whose `LogID` is `pLogID`. -/
def findLastOffset (file : List CommitLogData) (pLogID : Int) :
    Nat → Except CommitLogError (Int × CommitLogData)
  | 0 =>
    match getCommitLogFromFile file 0 with
    | .error e => .error e
    | .ok l => if l.logID = pLogID then .ok (0, l) else .error .idNotFound
  | k + 1 =>
    match getCommitLogFromFile file (logDataSize * (k + 1)) with
    | .error e => .error e
    | .ok l =>
      if l.logID = pLogID then .ok (logDataSize * (k + 1), l)
      else if l.logID < pLogID then .error .idNotFound
      -- the next round reads the record before; at the first one `roundOffset < 0` ends it
      else findLastOffset file pLogID k

/-- `GetLastCommitLogOffsetV2`: the segment and byte offset of the last record, found by its
`LogID`; it flushes first. -/
def getLastCommitLogOffsetV2 (m : TopicCommitLogMgr) :
    TopicCommitLogMgr × Except CommitLogError (Int × Int × CommitLogData) :=
  let m := m.flushCommitLogsNoLock
  if m.appender.length = 0 then
    if m.currentStart = m.logStartInfo.segmentStartIndex then (m, .error .eof)
    else
      -- a new segment without any record: the last one is the previous segment's
      match getLastCommitLogData (m.segments (m.currentStart - 1)) with
      | .error e => (m, .error e)
      | .ok (l, readOffset) =>
        if l.logID = m.pLogID then (m, .ok (m.currentStart - 1, readOffset, l))
        else (m, .error .idNotFound)
  else
    match findLastOffset m.appender m.pLogID (m.appender.length - 1) with
    | .ok (offset, l) => (m, .ok (m.currentStart, offset, l))
    | .error e => (m, .error e)

end TopicCommitLogMgr

end Nsq
