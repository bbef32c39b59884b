import Nsq.CommitLog.Basic

/-!
# Reading the commit log across files

`GetCommitLogsV2(startIndex, startOffset, num)` reads `num` records from a position, file by file:
a read that reaches a file's end answers `ErrCommitLogEOF` with what it read, and the loop goes on
at offset 0 of the next file, until it has `num` records or has read the current file to its end.
`GetCommitLogFromOffsetV2` reads one record this way. `ConvertToCountIndex` turns a position into
the count of records before it, from the log start's `SegmentStartCount`, and
`ConvertToOffsetIndex` turns a count back into a position; both walk the segment files from the
log start's, counting their records.

All of them flush the buffer before they read the current file; the model answers the state with
the result. `getCommitLogCountFromFile` reads a segment file's size: the model's files hold whole
records, so the size check of `ErrCommitLogSegmentSizeInvalid` always passes. The read loop of
`GetCommitLogsV2` runs on `fuel`, one round a file.
-/

namespace Nsq

/-- `getCommitLogCountFromFile`: the number of records of a segment file. -/
def getCommitLogCountFromFile (segment : Option (List CommitLogData)) : Except CommitLogError Int :=
  match segment with
  | none => .error .fileNotExist
  | some file => .ok file.length

/-- `getCommitLogListFromFile`: up to `num` records from a byte offset. Reading to the file's end
answers what was read together with `ErrCommitLogEOF`. -/
def getCommitLogListFromFile (file : List CommitLogData) (offset : Int) (num : Nat) :
    List CommitLogData × Option CommitLogError :=
  let fsize := logDataSize * file.length
  if offset = fsize then ([], some .eof)
  else if offset > fsize - logDataSize then ([], some .outofBound)
  else if offset.tmod logDataSize ≠ 0 then ([], some .offsetInvalid)
  else if offset < 0 then ([], some .negativeOffset)
  else
    let readToEnd := offset + num * logDataSize > fsize
    let needRead := if readToEnd then fsize - offset else num * logDataSize
    let logList := (file.drop (offset / logDataSize).toNat).take (needRead / logDataSize).toNat
    (logList, if readToEnd then some .eof else none)

namespace TopicCommitLogMgr

/-- The loop of `getCommitLogsV2` from file `readIndex` at `readOffset`, with the records read so
far: a segment file before the current one, else the current file. -/
def getCommitLogsLoop (m : TopicCommitLogMgr) (num : Nat) :
    Nat → Int → Int → List CommitLogData → Option (List CommitLogData × Option CommitLogError)
  | 0, _, _, _ => none
  | fuel + 1, readIndex, readOffset, totalLogs =>
    let file := if readIndex < m.currentStart then m.segments readIndex else some m.appender
    match file with
    | none => some (totalLogs, some .fileNotExist)
    | some f =>
      let (loglist, err) := getCommitLogListFromFile f readOffset (num - totalLogs.length)
      match err with
      | some .eof =>
        -- the file is read to its end: on to offset 0 of the next
        let totalLogs := totalLogs ++ loglist
        if readIndex + 1 > m.currentStart then some (totalLogs, some .eof)
        else if totalLogs.length = num then some (totalLogs, none)
        else m.getCommitLogsLoop num fuel (readIndex + 1) 0 totalLogs
      | some e => some (totalLogs, some e)
      | none =>
        let totalLogs := totalLogs ++ loglist
        if readIndex > m.currentStart then some (totalLogs, none)
        else if totalLogs.length = num then some (totalLogs, none)
        else m.getCommitLogsLoop num fuel readIndex (readOffset + loglist.length * logDataSize)
          totalLogs

/-- `getCommitLogsV2`: `num` records from byte `startOffset` of file `startIndex`, after the
buffer is flushed. -/
def getCommitLogsV2 (m : TopicCommitLogMgr) (fuel : Nat) (startIndex startOffset : Int)
    (num : Nat) : Option (TopicCommitLogMgr × List CommitLogData × Option CommitLogError) :=
  if startIndex < m.logStartInfo.segmentStartIndex then
    some (m, [], some .lessThanSegmentStart)
  else if startIndex = m.logStartInfo.segmentStartIndex ∧
      startOffset < m.logStartInfo.segmentStartOffset then
    some (m, [], some .lessThanSegmentStart)
  else if startIndex > m.currentStart then some (m, [], some .outofBound)
  else
    let m := m.flushCommitLogsNoLock
    if startIndex = m.currentStart then
      some (m, getCommitLogListFromFile m.appender startOffset num)
    else (m.getCommitLogsLoop num fuel startIndex startOffset []).map fun r => (m, r)

/-- `getCommitLogFromOffsetV2`: the record at byte `offset` of file `start`. -/
def getCommitLogFromOffsetV2 (m : TopicCommitLogMgr) (fuel : Nat) (start offset : Int) :
    Option (TopicCommitLogMgr × Except CommitLogError CommitLogData) :=
  if start > m.currentStart then some (m, .error .outofBound)
  else if start < m.logStartInfo.segmentStartIndex then some (m, .error .lessThanSegmentStart)
  else if start = m.logStartInfo.segmentStartIndex ∧ offset < m.logStartInfo.segmentStartOffset then
    some (m, .error .lessThanSegmentStart)
  else if start = m.currentStart then
    let m := m.flushCommitLogsNoLock
    some (m, getCommitLogFromFile m.appender offset)
  else
    (m.getCommitLogsV2 fuel start offset 1).map fun (m, logs, err) =>
      match err with
      | some e => (m, .error e)
      | none =>
        match logs with
        | [] => (m, .error .eof)
        | l :: _ => (m, .ok l)

/-- The loop of `ConvertToCountIndex` over `n` segment files from file `i`: each adds its records
after `startOffset`, which is then 0. -/
def countLoop (m : TopicCommitLogMgr) : Int → Nat → Int → Int → Except CommitLogError (Int × Int)
  | _, 0, countIndex, startOffset => .ok (countIndex, startOffset)
  | i, n + 1, countIndex, startOffset =>
    match getCommitLogCountFromFile (m.segments i) with
    | .error e => .error e
    | .ok cnt => m.countLoop (i + 1) n (countIndex + (cnt - startOffset.tdiv logDataSize)) 0

/-- `ConvertToCountIndex`: the count of records before byte `offset` of file `start`. -/
def convertToCountIndex (m : TopicCommitLogMgr) (start offset : Int) : Except CommitLogError Int :=
  if start > m.currentStart then .error .outofBound
  else if offset.tmod logDataSize ≠ 0 then .error .offsetInvalid
  else if start < m.logStartInfo.segmentStartIndex ∨
      (start = m.logStartInfo.segmentStartIndex ∧ offset < m.logStartInfo.segmentStartOffset) then
    .error .lessThanSegmentStart
  else
    match m.countLoop m.logStartInfo.segmentStartIndex
        (start - m.logStartInfo.segmentStartIndex).toNat m.logStartInfo.segmentStartCount
        m.logStartInfo.segmentStartOffset with
    | .error e => .error e
    | .ok (countIndex, startOffset) =>
      if offset < startOffset then .error .offsetInvalid
      else .ok (countIndex + (offset - startOffset).tdiv logDataSize)

/-- The loop of `ConvertToOffsetIndex` over at most `n` segment files: while counts are left and
a segment file comes before the current one, find the count in it or pass it. It answers the
position found (`inl`), or where the loop stopped with the count left (`inr`). -/
def offsetLoop (m : TopicCommitLogMgr) :
    Nat → Int → Int → Int → Except CommitLogError ((Int × Int) ⊕ (Int × Int × Int))
  | 0, segIndex, offset, countIndex => .ok (.inr (segIndex, offset, countIndex))
  | n + 1, segIndex, offset, countIndex =>
    if countIndex > 0 ∧ segIndex < m.currentStart then
      match getCommitLogCountFromFile (m.segments segIndex) with
      | .error e => .error e
      | .ok cnt =>
        let cnt := cnt - offset.tdiv logDataSize
        if countIndex < cnt then .ok (.inl (segIndex, offset + countIndex * logDataSize))
        else m.offsetLoop n (segIndex + 1) 0 (countIndex - cnt)
    else .ok (.inr (segIndex, offset, countIndex))

/-- `ConvertToOffsetIndex`: the position of the record with a count, walking the segment files
from the log start's; a count in the current file flushes the buffer. -/
def convertToOffsetIndex (m : TopicCommitLogMgr) (countIndex : Int) :
    TopicCommitLogMgr × Except CommitLogError (Int × Int) :=
  if countIndex < m.logStartInfo.segmentStartCount then (m, .error .lessThanSegmentStart)
  else
    -- the loop runs while a segment file comes before the current one
    match m.offsetLoop (m.currentStart - m.logStartInfo.segmentStartIndex).toNat
        m.logStartInfo.segmentStartIndex m.logStartInfo.segmentStartOffset
        (countIndex - m.logStartInfo.segmentStartCount) with
    | .error e => (m, .error e)
    | .ok (.inl pos) => (m, .ok pos)
    | .ok (.inr (segIndex, offset, countIndex)) =>
      if segIndex = m.currentStart ∧ countIndex > 0 then
        if countIndex > m.currentCount - offset.tdiv logDataSize then (m, .error .outofBound)
        else (m.flushCommitLogsNoLock, .ok (segIndex, offset + countIndex * logDataSize))
      else (m, .ok (segIndex, offset))

end TopicCommitLogMgr

end Nsq
