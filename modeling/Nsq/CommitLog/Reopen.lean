import Nsq.CommitLog.Ends
import Nsq.CommitLog.Positions

/-!
# Closing and reopening the commit log

`Close` flushes the buffer to the current file and saves `currentStart` and the log start to the
`.current` and `.start` files. `Reopen` opens the current file again, loads the two saved values,
sets `currentCount` from the current file's size, and takes the last IDs from the last record of
the current file, read through `GetCommitLogFromOffsetV2` and checked against the partition's range
of IDs. An empty current file takes them from the last record of the segment before it, and, at the
log start, starts `nLogID` afresh for the partition.

The model keeps the files where the state keeps them: the segment files, and the current file as
`appender`, the buffer being empty after `Close`; the saved values are the fields they were saved
from.

On every state a run reaches whose current file holds a record of the log, `Close` and `Reopen`
give back the same log, count and `GetLastCommitLogID`, with `nLogID` past the last record
(`Valid.reopen_of_current`), when the last record's IDs lie in the partition's range. A truncation
to the log start inside a rotated segment leaves the records before the log start in the current
file and no record of the log: `Reopen` then reads the current file's last record, before the log
start, which `GetCommitLogFromOffsetV2` refuses (`reopen_after_truncate_to_start`).
-/

namespace Nsq

namespace TopicCommitLogMgr

/-- `Close`: the buffer is flushed, the current file synced, and `currentStart` and the log start
saved. -/
def close (m : TopicCommitLogMgr) : TopicCommitLogMgr := m.flushCommitLogsNoLock

/-- The last IDs `Reopen` takes from a record: `pLogID` its `LogID`, `nLogID` past its range. -/
def loadLastIDs (m : TopicCommitLogMgr) (l : CommitLogData) : TopicCommitLogMgr :=
  { m with pLogID := l.logID, nLogID := l.lastMsgLogID + 1 }

/-- The check of the loaded IDs against the partition's range
`[partition << MAX_INCR_ID_BIT, (partition + 1) << MAX_INCR_ID_BIT + 1]`. -/
def checkLogIDRange (m : TopicCommitLogMgr) : Option CommitLogError :=
  let lo := m.partition * 2 ^ maxIncrIDBit
  let hi := (m.partition + 1) * 2 ^ maxIncrIDBit + 1
  if m.pLogID < lo then some .initLogIDFailed
  else if m.pLogID > hi then some .initLogIDFailed
  else if m.nLogID < lo then some .initLogIDFailed
  else if m.nLogID > hi then some .initLogIDFailed
  else none

/-- `Reopen`, on the files `Close` left. -/
def reopen (m : TopicCommitLogMgr) (fuel : Nat) :
    Option (TopicCommitLogMgr × Option CommitLogError) :=
  -- `loadCurrentStart` and `loadLogSegStartInfo` read back the values `Close` saved
  let m := { m with pLogID := 0 }
  -- `fsize / GetLogDataSize()`: the current file holds whole records
  let num : Int := m.appender.length
  let m := { m with currentCount := num }
  if num > 0 then
    let roundOffset := (num - 1) * logDataSize
    match m.getCommitLogFromOffsetV2 fuel m.currentStart roundOffset with
    | none => none
    | some (m, .error e) => some (m, some e)
    | some (m, .ok l) =>
      let m := m.loadLastIDs l
      some (m, m.checkLogIDRange)
  else if m.currentStart ≤ m.logStartInfo.segmentStartIndex then
    let m := { m with nLogID := m.partition * 2 ^ maxIncrIDBit + 1 }
    if m.logStartInfo.segmentStartIndex > 0 then
      match getLastCommitLogData (m.segments (m.currentStart - 1)) with
      -- the error is logged and passed
      | .error _ => some (m, none)
      | .ok (l, _) => some (m.loadLastIDs l, none)
    else some (m, none)
  else
    match getLastCommitLogData (m.segments (m.currentStart - 1)) with
    | .error e => some (m, some e)
    | .ok (l, _) => some (m.loadLastIDs l, none)

variable {m : TopicCommitLogMgr} {N : Nat}

/-- `GetCommitLogFromOffsetV2` in the current file, at or past the log start, reads the record
there after a flush. -/
theorem getCommitLogFromOffsetV2_current {t : TopicCommitLogMgr} {k : Nat} {l : CommitLogData}
    (hl : t.current[k]? = some l) (hs : t.logStartInfo.segmentStartIndex ≤ t.currentStart)
    (hstart : t.logStartInfo.segmentStartIndex = t.currentStart →
      t.logStartInfo.segmentStartOffset ≤ logDataSize * k) (fuel : Nat) :
    t.getCommitLogFromOffsetV2 fuel t.currentStart (logDataSize * k) =
      some (t.flushCommitLogsNoLock, .ok l) := by
  obtain ⟨hk, rfl⟩ := List.getElem?_eq_some_iff.mp hl
  unfold getCommitLogFromOffsetV2
  rw [if_neg (Int.lt_irrefl _), if_neg (Int.not_lt.mpr hs),
    if_neg fun h => absurd (hstart h.1.symm) (Int.not_le.mpr h.2), if_pos rfl]
  show some (_, getCommitLogFromFile t.current (logDataSize * k)) = _
  rw [getCommitLogFromFile_of_lt hk]

/-- On a state with the layout whose current file's last record `l` lies at or past the log start,
`Close` and `Reopen` read `l` back: the state keeps the files, the log start and the count, takes
its last IDs from `l`, and answers the check of those IDs against the partition's range. -/
theorem Layout.reopen_of_current (hv : m.Layout N) {l : CommitLogData}
    (hlast : m.current.getLast? = some l)
    (hin : m.logStartInfo.segmentStartIndex = m.currentStart → m.startRecord < m.current.length)
    (fuel : Nat) :
    ∃ u, m.close.reopen fuel = some (u, (m.loadLastIDs l).checkLogIDRange) ∧
      SameLog u (m.loadLastIDs l) ∧ u.nLogID = l.lastMsgLogID + 1 ∧ u.committedLogs = [] := by
  obtain ⟨ys, hys⟩ := List.getLast?_eq_some_iff.mp hlast
  have hlen : m.current.length = ys.length + 1 := by
    rw [hys, List.length_append, List.length_singleton]
  -- the state `Reopen` reads from: the closed one, `pLogID` reset and the count loaded
  let t : TopicCommitLogMgr :=
    { m.close with pLogID := 0, currentCount := (m.current.length : Int) }
  have htc : t.current = m.current := List.append_nil _
  have hread : t.getCommitLogFromOffsetV2 fuel t.currentStart (logDataSize * ys.length) =
      some (t.flushCommitLogsNoLock, .ok l) := by
    refine getCommitLogFromOffsetV2_current (t := t) ?_ hv.start_le (fun h => ?_) fuel
    · rw [htc, hys, List.getElem?_append_right (Nat.le_refl _), Nat.sub_self]
      rfl
    · have := hin h
      show m.logStartInfo.segmentStartOffset ≤ _
      rw [hv.start_offset]
      simp only [logDataSize]
      omega
  refine ⟨t.flushCommitLogsNoLock.loadLastIDs l, ?_, ⟨rfl, rfl, rfl, ?_, ?_, rfl⟩, rfl, rfl⟩
  · -- the current file holds records, the last of them `l`
    have hfile : m.close.appender = m.current := rfl
    have hpos : (m.close.appender.length : Int) > 0 := by
      rw [hfile, hlen]
      omega
    have hoff : ((m.close.appender.length : Int) - 1) * logDataSize = logDataSize * ys.length := by
      rw [hfile, hlen]
      simp only [logDataSize]
      omega
    unfold reopen
    dsimp only
    rw [if_pos hpos, hoff]
    erw [hread]
    rfl
  · show t.current ++ [] = m.current
    rw [List.append_nil, htc]
  · show (m.current.length : Int) = m.currentCount
    rw [hv.count_eq]

/-- The last record of a current file that holds a record of the log is the log's last record. -/
theorem Layout.getLast?_logFrom_of_current (hv : m.Layout N) (hne : m.current ≠ [])
    (hin : m.logStartInfo.segmentStartIndex = m.currentStart → m.startRecord < m.current.length) :
    m.logFrom.getLast? = some (m.current.getLast hne) := by
  have hlen : 0 < m.current.length := List.length_pos_iff.mpr hne
  have hp : m.InLog m.currentStart (m.current.length - 1) :=
    ⟨hv.start_le, Int.le_refl _, by rw [fileAt_current]; omega, fun h => by have := hin h.symm; omega⟩
  -- past the position of the last current record only that record is left
  have hafter : m.recordsAfter m.currentStart (m.current.length - 1) = m.current.drop
      (m.current.length - 1) := by
    rw [recordsAfter, if_neg (Int.lt_irrefl _)]
  have hsize := hv.length_logFrom hp
  rw [hafter, List.length_drop] at hsize
  have hdrop := hv.drop_posIndex hp
  rw [hafter] at hdrop
  calc m.logFrom.getLast?
      = (m.logFrom.drop (m.posIndex m.currentStart (m.current.length - 1))).getLast? := by
        rw [List.getLast?_drop, if_neg (by omega)]
    _ = (m.current.drop (m.current.length - 1)).getLast? := by rw [hdrop]
    _ = some (m.current.getLast hne) := by
        rw [List.getLast?_drop, if_neg (by omega), List.getLast?_eq_some_getLast hne]

/-- On every state the invariant holds on whose current file holds a record of the log, `Close`
and `Reopen` answer nil when the last record's IDs lie in the partition's range, and keep the log,
the count and `GetLastCommitLogID`, with `nLogID` set past the last record. -/
theorem Valid.reopen_of_current (hv : m.Valid N) (hne : m.current ≠ [])
    (hin : m.logStartInfo.segmentStartIndex = m.currentStart → m.startRecord < m.current.length)
    (hrange : (m.loadLastIDs (m.current.getLast hne)).checkLogIDRange = none) (fuel : Nat) :
    ∃ u, m.close.reopen fuel = some (u, none) ∧ SameLog u m ∧ u.Valid N ∧
      u.nLogID = (m.current.getLast hne).lastMsgLogID + 1 := by
  obtain ⟨u, hre, hsame, hn, hbuf⟩ :=
    hv.toLayout.reopen_of_current (List.getLast?_eq_some_getLast hne) hin fuel
  have hlast := hv.toLayout.getLast?_logFrom_of_current hne hin
  -- `GetLastCommitLogID` was already the last record's `LogID`
  have hid : m.pLogID = (m.current.getLast hne).logID := by
    rw [hv.pLogID_eq, lastLogID, hlast]
    rfl
  have hsame' : SameLog u m := ⟨hsame.segments, hsame.currentStart, hsame.logStartInfo,
    hsame.current, hsame.currentCount, hsame.pLogID.trans hid.symm⟩
  refine ⟨u, by rw [hre, hrange], hsame', ⟨hv.toLayout.of_sameLog hsame' ?_, ?_, ?_, ?_⟩, hn⟩
  · rw [hbuf]
    exact Nat.zero_le _
  · rw [hsame'.logFrom]
    exact hv.chained
  · rw [hsame'.pLogID, hsame'.logFrom]
    exact hv.pLogID_eq
  · rw [hsame'.logFrom, hlast, hn]
    intro p hp
    rw [← Option.mem_some_iff.mp hp]
    exact Int.le_of_lt (Int.lt_succ _)

/-- Seven records written two a file, the log cleaned to record 1 of segment 1 and truncated there:
the current file is segment 1 with its first record, which lies before the log start, and `Reopen`
answers `ErrCommitLogLessThanSegmentStart`. -/
theorem reopen_after_truncate_to_start :
    ∃ m log, LogRun 2 1000 m log ∧ m.logStartInfo = ⟨3, 1, 48⟩ ∧
      (m.truncateToOffsetV2 1 48).2 = .error .eof ∧
      (m.truncateToOffsetV2 1 48).1.logFrom = [] ∧
      ((m.truncateToOffsetV2 1 48).1.close.reopen 10).map Prod.snd =
        some (some .lessThanSegmentStart) := by
  have h₀ : LogRun 2 1000
      { partition := 0, nLogID := 1, pLogID := 0, segments := fun _ => none, appender := [],
        committedLogs := [], commitCap := 400, bufSize := 400, currentStart := 0,
        currentCount := 0, logStartInfo := ⟨0, 0, 0⟩ } [] := .init 0 400 rfl
  have h₁ := LogRun.append ⟨1, 0, 1, 0, 0, 1, 1⟩ true h₀ rfl nofun nofun
  have h₂ := LogRun.append ⟨2, 0, 2, 0, 0, 2, 1⟩ true h₁ rfl (fun p hp => by cases hp; decide) nofun
  have h₃ := LogRun.append ⟨3, 0, 3, 0, 0, 3, 1⟩ true h₂ rfl (fun p hp => by cases hp; decide) nofun
  have h₄ := LogRun.append ⟨4, 0, 4, 0, 0, 4, 1⟩ true h₃ rfl (fun p hp => by cases hp; decide) nofun
  have h₅ := LogRun.append ⟨5, 0, 5, 0, 0, 5, 1⟩ true h₄ rfl (fun p hp => by cases hp; decide) nofun
  have h₆ := LogRun.append ⟨6, 0, 6, 0, 0, 6, 1⟩ true h₅ rfl (fun p hp => by cases hp; decide) nofun
  have h₇ := LogRun.append ⟨7, 0, 7, 0, 0, 7, 1⟩ true h₆ rfl (fun p hp => by cases hp; decide) nofun
  -- file 1 lies two below the current file 3: the clean needs no keep check
  have hc := LogRun.clean 1 1 h₇ ⟨by decide +kernel, by decide +kernel, by decide +kernel,
    by decide +kernel⟩ (by decide +kernel)
  exact ⟨_, _, hc, by decide +kernel, by decide +kernel, by decide +kernel, by decide +kernel⟩

end TopicCommitLogMgr

end Nsq
