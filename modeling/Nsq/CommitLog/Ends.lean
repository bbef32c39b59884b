import Nsq.CommitLog.ReadSpec

/-!
# Moving the ends of the commit log

`TruncateToOffsetV2` moves the end of the log back to a position of it, and `CleanOldData` moves
the start forward. On every state a run reaches, the truncation keeps exactly the records before
the position, makes the position the end of the current file, answers the last record kept and
takes its IDs; the next accepted append lands at the position and is read back there, also when
the position is the end of a segment file and the append rotates
(`truncateToOffsetV2_keeps_prefix`).

`CleanOldData` never compares `fileIndex` with `SegmentStartIndex`. Below it, the loop over the
segment files passes none, and `fileOffset` is applied to the log start's segment:
`cleanOldData_below_start` shows a clean asked for a position before the log start that moves the
start forward, within another segment than the one asked for.
-/

namespace Nsq

namespace TopicCommitLogMgr

variable {m : TopicCommitLogMgr} {N : Nat}

/-! ## Truncating -/

section Truncate

variable {u : TopicCommitLogMgr}

@[simp] theorem setLast_currentStart (o : Option CommitLogData) :
    (u.setLast o).1.currentStart = u.currentStart := by
  cases o <;> rfl

@[simp] theorem setLast_currentCount (o : Option CommitLogData) :
    (u.setLast o).1.currentCount = u.currentCount := by
  cases o <;> rfl

/-- `truncateToOffset` answers the record before the cut, or `ErrCommitLogEOF` without one. -/
theorem setLast_snd (o : Option CommitLogData) :
    (u.setLast o).2 = match o with
      | some l => .ok l
      | none => .error .eof := by
  cases o <;> rfl

/-- The last record's IDs are taken: `nLogID` ends past its range. -/
theorem truncatedTo_nLogID (l : CommitLogData) :
    l.lastMsgLogID + 1 ≤ (u.truncatedTo l).1.nLogID := by
  show l.lastMsgLogID + 1 ≤ if l.lastMsgLogID + 1 > u.nLogID then l.lastMsgLogID + 1 else u.nLogID
  split <;> omega

end Truncate

/-- `AppendCommitLog` accepts a record after `pLogID` whose ID range is not empty. -/
theorem appendCommitLog_snd_of_lt {N : Int} {l : CommitLogData} (slave : Bool)
    (hid : m.pLogID < l.logID) (hlast : l.logID ≤ l.lastMsgLogID) :
    (m.appendCommitLog N l slave).2 = none := by
  unfold appendCommitLog
  rw [if_neg (Int.not_le.mpr hid), if_neg (Int.not_lt.mpr hlast)]

/-- An accepted append writes its record at the old end: the state keeps the layout, the old end
is a position of the log with only that record after it, and the current file is the old end's
or, after a rotation, the next. -/
theorem Layout.appendCommitLog_at_end (hv : m.Layout N) {l : CommitLogData} {slave : Bool}
    (hacc : (m.appendCommitLog N l slave).2 = none) :
    (m.appendCommitLog N l slave).1.Layout N ∧
      (m.appendCommitLog N l slave).1.InLog m.currentStart m.current.length ∧
      (m.appendCommitLog N l slave).1.recordsAfter m.currentStart m.current.length = [l] ∧
      ((m.appendCommitLog N l slave).1.currentStart - m.currentStart).toNat ≤ 1 := by
  obtain ⟨hid, hrange⟩ := appendCommitLog_accepted hacc
  have hcount := hv.count_eq
  have hle := hv.current_le
  by_cases hrot : (N : Int) ≤ m.currentCount
  · -- the full current file becomes segment `currentStart`, and the record starts the next file
    obtain ⟨t, heq, hseg, hcs, hstart, hcur, hcnt, -, -, hb⟩ :=
      appendCommitLog_rotate slave hid hrange hrot
    obtain ⟨hlayout, -⟩ := hv.rotated (by omega) hseg hcs hstart hcur hcnt hb
    have hlt : m.currentStart < t.currentStart := by omega
    have hfile : (t.segments m.currentStart).getD [] = m.current := by
      rw [hseg, Function.update_self, Option.getD_some]
    have hsr : t.startRecord = m.startRecord := by rw [startRecord, startRecord, hstart]
    rw [heq]
    dsimp only
    refine ⟨hlayout, ⟨?_, Int.le_of_lt hlt, ?_, fun h => ?_⟩, ?_, by omega⟩
    · rw [hstart]
      exact hv.start_le
    · rw [fileAt_of_lt hlt, hfile]
    · rw [hstart] at h
      rw [hsr]
      exact hv.start_in_current h.symm
    · rw [recordsAfter, if_pos hlt, hfile, List.drop_length, hcs,
        show (m.currentStart + 1 - m.currentStart - 1).toNat = 0 by omega, segmentRecords_zero,
        hcur]
      rfl
  · -- the record joins the current file
    obtain ⟨t, heq, hseg, hcs, hstart, hcur, hcnt, -, -, hb⟩ :=
      appendCommitLog_keep slave hid hrange hv.committed_le hrot
    obtain ⟨hlayout, -⟩ := hv.appended (by omega) hseg hcs hstart hcur hcnt hb
    have hsr : t.startRecord = m.startRecord := by rw [startRecord, startRecord, hstart]
    rw [heq]
    dsimp only
    refine ⟨hlayout, ⟨?_, by rw [hcs], ?_, fun h => ?_⟩, ?_, by omega⟩
    · rw [hstart]
      exact hv.start_le
    · rw [← hcs, fileAt_current, hcur, List.length_append]
      exact Nat.le_add_right _ _
    · rw [hstart] at h
      rw [hsr]
      exact hv.start_in_current h.symm
    · rw [← hcs, recordsAfter, if_neg (Int.lt_irrefl _), hcur, List.drop_left]

/-- Truncation keeps exactly the prefix before the position: on every state a run reaches, with
`LOGROTATE_NUM = N > 0`, `TruncateToOffsetV2` at a position `(i, k)` of the log keeps the log
records before it, sets `currentStart = i` and `currentCount = k`, answers the last record kept
(`ErrCommitLogEOF` without one), sets `GetLastCommitLogID` to its `LogID` (0 without one) and
`nLogID` past its range; and an append of a record with a larger `LogID` is accepted and read back
at `(i, k)`. -/
theorem truncateToOffsetV2_keeps_prefix {K : Int} {log : List CommitLogData} (hN : 0 < N)
    (hK : 0 ≤ K) (h : LogRun N K m log) {i : Int} {k : Nat} (hp : m.InLog i k) :
    (m.truncateToOffsetV2 i (logDataSize * k)).1.logFrom = log.take (m.posIndex i k) ∧
      (m.truncateToOffsetV2 i (logDataSize * k)).1.currentStart = i ∧
      (m.truncateToOffsetV2 i (logDataSize * k)).1.currentCount = k ∧
      (m.truncateToOffsetV2 i (logDataSize * k)).2 =
        (match (log.take (m.posIndex i k)).getLast? with
          | some l => .ok l
          | none => .error .eof) ∧
      (m.truncateToOffsetV2 i (logDataSize * k)).1.getLastCommitLogID =
        lastLogID (log.take (m.posIndex i k)) ∧
      (∀ l ∈ (log.take (m.posIndex i k)).getLast?,
        l.lastMsgLogID + 1 ≤ (m.truncateToOffsetV2 i (logDataSize * k)).1.nLogID) ∧
      ∀ (l : CommitLogData) (slave : Bool) (fuel : Nat),
        (m.truncateToOffsetV2 i (logDataSize * k)).1.getLastCommitLogID < l.logID →
        l.logID ≤ l.lastMsgLogID → 1 < fuel →
        ((m.truncateToOffsetV2 i (logDataSize * k)).1.appendCommitLog N l slave).2 = none ∧
        ((m.truncateToOffsetV2 i (logDataSize * k)).1.appendCommitLog N l
            slave).1.getCommitLogFromOffsetV2 fuel i (logDataSize * k) =
          some (((m.truncateToOffsetV2 i (logDataSize * k)).1.appendCommitLog N l
            slave).1.flushCommitLogsNoLock, .ok l) := by
  obtain ⟨hv, rfl⟩ := h.valid hN hK
  obtain ⟨hvt, hlog⟩ := hv.truncateToOffsetV2 hp
  -- the state is the cut, with the last IDs set from the last record it keeps
  have heq := hv.truncateToOffsetV2_eq hp
  have hcut := hv.logFrom_cutAt hp
  have hcs : (m.truncateToOffsetV2 i (logDataSize * k)).1.currentStart = i := by
    rw [heq, setLast_currentStart, cutAt_currentStart]
  have hcnt : (m.truncateToOffsetV2 i (logDataSize * k)).1.currentCount = k := by
    rw [heq, setLast_currentCount]
    rfl
  refine ⟨hlog, hcs, hcnt, ?_, ?_, ?_, ?_⟩
  · rw [heq, setLast_snd, hcut]
  · rw [← hlog]
    exact hvt.pLogID_eq
  · intro l hl
    rw [heq, hcut, Option.mem_def.mp hl]
    exact truncatedTo_nLogID l
  · intro l slave fuel hid hrange hfuel
    -- the truncated log ends at the position, where the appended record lands
    have hacc := appendCommitLog_snd_of_lt (N := N) slave hid hrange
    have hlen : (m.truncateToOffsetV2 i (logDataSize * k)).1.current.length = k := by
      have := hvt.count_eq
      omega
    obtain ⟨hlay, hpos, hafter, hstep⟩ := hvt.toLayout.appendCommitLog_at_end hacc
    rw [hcs, hlen] at hpos hafter
    rw [hcs] at hstep
    exact ⟨hacc, hlay.getCommitLogFromOffsetV2_eq hpos hafter (by omega)⟩

/-- On the log of two records in two files, truncating to the end of segment 0 keeps the first
record and answers it; a leader record appended next rotates into file 1 and is read back at the
end of segment 0. -/
theorem truncateToOffsetV2_keeps_prefix_segment_end :
    ∃ m, LogRun 1 1000 m [⟨1, 0, 1, 0, 0, 1, 1⟩, ⟨2, 0, 2, 0, 0, 2, 1⟩] ∧
      (m.truncateToOffsetV2 0 48).2 = .ok ⟨1, 0, 1, 0, 0, 1, 1⟩ ∧
      (((m.truncateToOffsetV2 0 48).1.appendCommitLog 1 ⟨5, 0, 5, 0, 0, 2, 1⟩
        false).1.getCommitLogFromOffsetV2 2 0 48).map Prod.snd = some (.ok ⟨5, 0, 5, 0, 0, 2, 1⟩) := by
  obtain ⟨-, -, -, hres, hid, -, hread⟩ := truncateToOffsetV2_keeps_prefix (i := 0) (k := 1)
    (by decide) (by decide) logRun_rotated_pair ⟨by decide, by decide, by decide, fun _ => by decide⟩
  obtain ⟨-, hback⟩ := hread ⟨5, 0, 5, 0, 0, 2, 1⟩ false 2 (by rw [hid]; decide) (by decide)
    (by decide)
  exact ⟨_, logRun_rotated_pair, hres.trans rfl, by rw [← Int.mul_one 48]; exact congrArg _ hback⟩

/-- A record with a larger `LogID` but an empty ID range is not appended: after the truncation to
the end of segment 0, `AppendCommitLog` of it answers `ErrCommitLogWrongLastID`, and nothing is read
back at the position. -/
theorem truncateToOffsetV2_append_wrongLastID :
    ∃ m, LogRun 1 1000 m [⟨1, 0, 1, 0, 0, 1, 1⟩, ⟨2, 0, 2, 0, 0, 2, 1⟩] ∧
      ((m.truncateToOffsetV2 0 48).1.appendCommitLog 1 ⟨5, 0, 4, 0, 0, 2, 1⟩ false).2 =
        some .wrongLastID ∧
      (((m.truncateToOffsetV2 0 48).1.appendCommitLog 1 ⟨5, 0, 4, 0, 0, 2, 1⟩
        false).1.getCommitLogFromOffsetV2 2 0 48).map Prod.snd = some (.error .eof) :=
  ⟨_, logRun_rotated_pair, by decide +kernel, by decide +kernel⟩

/-! ## Cleaning -/

/-- `CleanOldData` at a file index below the log start's: with files of two records and the
default `MIN_KEEP_LOG_ITEM`, seven records appended and the log cleaned to the start of segment
1, a clean to record 1 of segment 0 passes every check and answers no error, but sets
`SegmentStartOffset` to that offset in segment 1 and counts one more record, cutting off the first
record of segment 1 instead of moving the start to `(0, 48)`. -/
theorem cleanOldData_below_start :
    ∃ m log, LogRun 2 1000 m log ∧ m.logStartInfo = ⟨2, 1, 0⟩ ∧
      (m.cleanOldData 1000 0 48).2 = none ∧
      (m.cleanOldData 1000 0 48).1.logStartInfo = ⟨3, 1, 48⟩ ∧
      (m.cleanOldData 1000 0 48).1.logFrom = log.drop 1 := by
  have h₀ : LogRun 2 1000
      { partition := 0, nLogID := 1, pLogID := 0, segments := fun _ => none, appender := [],
        committedLogs := [], commitCap := 400, bufSize := 400, currentStart := 0,
        currentCount := 0, logStartInfo := ⟨0, 0, 0⟩ } [] := .init 0 400 rfl
  -- records `j` with ID `j` and count `j`, written by a follower
  have h₁ := LogRun.append ⟨1, 0, 1, 0, 0, 1, 1⟩ true h₀ rfl
    (fun p hp => absurd hp (Option.not_mem_none p)) nofun
  have h₂ := LogRun.append ⟨2, 0, 2, 0, 0, 2, 1⟩ true h₁ rfl (fun p hp => by cases hp; decide) nofun
  have h₃ := LogRun.append ⟨3, 0, 3, 0, 0, 3, 1⟩ true h₂ rfl (fun p hp => by cases hp; decide) nofun
  have h₄ := LogRun.append ⟨4, 0, 4, 0, 0, 4, 1⟩ true h₃ rfl (fun p hp => by cases hp; decide) nofun
  have h₅ := LogRun.append ⟨5, 0, 5, 0, 0, 5, 1⟩ true h₄ rfl (fun p hp => by cases hp; decide) nofun
  have h₆ := LogRun.append ⟨6, 0, 6, 0, 0, 6, 1⟩ true h₅ rfl (fun p hp => by cases hp; decide) nofun
  have h₇ := LogRun.append ⟨7, 0, 7, 0, 0, 7, 1⟩ true h₆ rfl (fun p hp => by cases hp; decide) nofun
  -- segments 0, 1 and 2 are full and file 3 is current: a clean to segment 1 needs no keep check
  have hc := LogRun.clean 1 0 h₇ ⟨by decide +kernel, by decide +kernel, by decide +kernel,
    fun h => absurd h (by decide +kernel)⟩ (by decide +kernel)
  exact ⟨_, _, hc, by decide +kernel, by decide +kernel, by decide +kernel, by decide +kernel⟩

end TopicCommitLogMgr

end Nsq
