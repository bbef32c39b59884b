import Nsq.CommitLog.Read

/-!
# Searching the commit log

`SearchLogDataByComparator` finds the record whose range holds a target, in two binary searches.
The first runs over the segment files from the log start's up to `SearchEndBoundary()` (at most
`currentStart`): each probe reads the last record of a file and the first one from the log start,
and the search moves up when the target lies past the last record's range, down when it lies
before the first one's, and stops at that file otherwise. The loop runs while `lo < hi`, so a
search that closes on `lo = hi` never reads that file. The second search runs over the records of
the file found, from the log start's record in its file, up to the last one.

The comparators compare the target with a record's range: `MsgCnt` with
`[MsgCnt, MsgCnt + MsgNum - 1]`, `LogID` with `[LogID, LastMsgLogID]`, and `MsgOffset` with
`[MsgOffset, MsgOffset + MsgSize)`. All of them bound the search by `target / LOGROTATE_NUM + 1`,
Go's truncating division.

Each read may flush the buffer; the model threads the state through the searches. Both loops run
on `fuel`, one round a probe; reads get the same `fuel` for their own loop.
-/

namespace Nsq

/-- `ICommitLogComparator` -/
structure CommitLogComparator where
  searchEndBoundary : Int
  lessThanLeftBoundary : CommitLogData → Bool
  greatThanRightBoundary : CommitLogData → Bool

/-- A comparator of a target `c` with each record's range `[left l, right l]`, searching the files
up to `c / LOGROTATE_NUM + 1`. -/
def rangeComparator (rotateNum c : Int) (left right : CommitLogData → Int) : CommitLogComparator where
  searchEndBoundary := c.tdiv rotateNum + 1
  lessThanLeftBoundary l := decide (left l > c)
  greatThanRightBoundary l := decide (right l < c)

/-- `CntComparator`, with `LOGROTATE_NUM` as `rotateNum` -/
def cntComparator (rotateNum c : Int) : CommitLogComparator :=
  rangeComparator rotateNum c CommitLogData.msgCnt fun l => l.msgCnt + (l.msgNum - 1)

/-- `MsgIDComparator` -/
def msgIDComparator (rotateNum c : Int) : CommitLogComparator :=
  rangeComparator rotateNum c CommitLogData.logID CommitLogData.lastMsgLogID

/-- `MsgOffsetComparator`: an offset at the end of a record's range belongs to the next one. -/
def msgOffsetComparator (rotateNum c : Int) : CommitLogComparator where
  searchEndBoundary := c.tdiv rotateNum + 1
  lessThanLeftBoundary l := decide (l.msgOffset > c)
  greatThanRightBoundary l := decide (l.msgOffset + l.msgSize ≤ c)

namespace TopicCommitLogMgr

/-- `GetLastCommitLogDataOnSegment`: the offset and the last record of file `index`; the current
file is read after a flush. -/
def getLastCommitLogDataOnSegment (m : TopicCommitLogMgr) (index : Int) :
    TopicCommitLogMgr × Except CommitLogError (Int × CommitLogData) :=
  if m.currentStart = index then
    let m := m.flushCommitLogsNoLock
    (m, (getLastCommitLogDataFromFile m.appender).map fun (l, readOffset) => (readOffset, l))
  else if index > m.currentStart then (m, .error .outofBound)
  else if index < m.logStartInfo.segmentStartIndex then (m, .error .lessThanSegmentStart)
  else (m, (getLastCommitLogData (m.segments index)).map fun (l, readOffset) => (readOffset, l))

/-- The file loop of `SearchLogDataByComparator` over `[lo, hi]`, with the log start read at its
beginning: the file it stops at with the end of the interval, or the error of a read. -/
def searchSegmentLoop (comp : CommitLogComparator) (logStart : LogStartInfo) (readFuel : Nat) :
    Nat → TopicCommitLogMgr → Int → Int →
      Option (TopicCommitLogMgr × Except CommitLogError (Int × Int))
  | 0, _, _, _ => none
  | fuel + 1, m, lo, hi =>
    if lo < hi then
      let searchIndex := lo + (hi - lo).tdiv 2
      match m.getLastCommitLogDataOnSegment searchIndex with
      | (m, .error e) =>
        -- a segment file that does not exist is passed
        if e = .fileNotExist then searchSegmentLoop comp logStart readFuel fuel m (searchIndex + 1) hi
        else some (m, .error e)
      | (m, .ok (_, segEndLog)) =>
        let searchBeginOffset :=
          if searchIndex = logStart.segmentStartIndex then logStart.segmentStartOffset else 0
        match m.getCommitLogFromOffsetV2 readFuel searchIndex searchBeginOffset with
        | none => none
        | some (m, .error e) => some (m, .error e)
        | some (m, .ok segStartLog) =>
          if comp.greatThanRightBoundary segEndLog then
            searchSegmentLoop comp logStart readFuel fuel m (searchIndex + 1) hi
          else if comp.lessThanLeftBoundary segStartLog then
            searchSegmentLoop comp logStart readFuel fuel m lo (searchIndex - 1)
          else some (m, .ok (searchIndex, hi))
    else some (m, .ok (lo, hi))

/-- The record loop of `SearchLogDataByComparator` over the records `[lo, hi]` of file `index`,
with the offset and the record read last: the file, offset and record it stops at, or an
error. -/
def searchRecordLoop (comp : CommitLogComparator) (index : Int) (readFuel : Nat) :
    Nat → TopicCommitLogMgr → Int → Int → Int → Option CommitLogData →
      Option (TopicCommitLogMgr × (Int × Int × Option CommitLogData × Option CommitLogError))
  | 0, _, _, _, _, _ => none
  | fuel + 1, m, lo, hi, searchOffset, cur =>
    if lo > hi then some (m, (index, searchOffset, cur, none))
    else
      let searchCntPos := lo + (hi - lo).tdiv 2
      let searchOffset := searchCntPos * logDataSize
      match m.getCommitLogFromOffsetV2 readFuel index searchOffset with
      | none => none
      | some (m, .error e) =>
        if e = .lessThanSegmentStart then
          searchRecordLoop comp index readFuel fuel m (searchCntPos + 1) hi searchOffset none
        else some (m, (0, 0, none, some e))
      | some (m, .ok c) =>
        if comp.lessThanLeftBoundary c then
          searchRecordLoop comp index readFuel fuel m lo (searchCntPos - 1) searchOffset (some c)
        else if comp.greatThanRightBoundary c then
          searchRecordLoop comp index readFuel fuel m (searchCntPos + 1) hi searchOffset (some c)
        else some (m, (index, searchOffset, some c, none))

/-- `SearchLogDataByComparator`: the file, offset and record whose range holds the target. -/
def searchLogDataByComparator (m : TopicCommitLogMgr) (fuel : Nat) (comp : CommitLogComparator) :
    Option (TopicCommitLogMgr × (Int × Int × Option CommitLogData × Option CommitLogError)) :=
  -- `GetLogStartInfo` reads the first record of the log; only the log start is used
  let logStart := m.logStartInfo
  match m.getCommitLogFromOffsetV2 fuel logStart.segmentStartIndex logStart.segmentStartOffset with
  | none => none
  | some (m, _) =>
    let searchLogIndexEnd :=
      if comp.searchEndBoundary > m.currentStart then m.currentStart else comp.searchEndBoundary
    match searchSegmentLoop comp logStart fuel fuel m logStart.segmentStartIndex searchLogIndexEnd with
    | none => none
    | some (m, .error e) => some (m, (0, 0, none, some e))
    | some (m, .ok (lo, hi)) =>
      if lo > hi then some (m, (hi, 0, none, some .searchNotFound))
      else
        let searchCntStart :=
          if lo = m.logStartInfo.segmentStartIndex then
            m.logStartInfo.segmentStartOffset.tdiv logDataSize
          else 0
        match m.getLastCommitLogDataOnSegment lo with
        | (m, .error e) => some (m, (0, 0, none, some e))
        | (m, .ok (roffset, _)) =>
          searchRecordLoop comp lo fuel fuel m searchCntStart (roffset.tdiv logDataSize)
            logStart.segmentStartOffset none

/-- `SearchLogDataByMsgCnt` -/
def searchLogDataByMsgCnt (m : TopicCommitLogMgr) (fuel : Nat) (rotateNum searchCnt : Int) :
    Option (TopicCommitLogMgr × (Int × Int × Option CommitLogData × Option CommitLogError)) :=
  m.searchLogDataByComparator fuel (cntComparator rotateNum searchCnt)

/-- `SearchLogDataByMsgID` -/
def searchLogDataByMsgID (m : TopicCommitLogMgr) (fuel : Nat) (rotateNum searchMsgID : Int) :
    Option (TopicCommitLogMgr × (Int × Int × Option CommitLogData × Option CommitLogError)) :=
  m.searchLogDataByComparator fuel (msgIDComparator rotateNum searchMsgID)

/-- `SearchLogDataByMsgOffset` -/
def searchLogDataByMsgOffset (m : TopicCommitLogMgr) (fuel : Nat) (rotateNum searchMsgOffset : Int) :
    Option (TopicCommitLogMgr × (Int × Int × Option CommitLogData × Option CommitLogError)) :=
  m.searchLogDataByComparator fuel (msgOffsetComparator rotateNum searchMsgOffset)

end TopicCommitLogMgr

end Nsq
