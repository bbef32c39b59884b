import Nsq.CommitLog.Read
import Nsq.CommitLog.Invariant

/-!
# What the commit log reads answer

On a state of the invariant, a read of `num ≥ 1` records at a position of the log answers the
next `num` log records after it, or all of them with `ErrCommitLogEOF` when fewer are left
(`Layout.getCommitLogsV2_eq`): each file is read from the position to its end, and the loop goes
on at offset 0 of the next file exactly when the read fell short.

The conversions between positions and counts are inverse: `ConvertToCountIndex` of a position
is `SegmentStartCount` plus the log records before it (`Layout.convertToCountIndex_eq`), and
`ConvertToOffsetIndex` of such a count answers a position with that many log records before it,
the canonical one, which is never the end of a segment file (`Layout.offsetLoop_eq`). A position
at the end of a segment file has the start of the next file as its canonical form.
-/

namespace Nsq

/-! ## Reading a file -/

/-- A read of `n ≥ 1` records at record `j` of a file answers the records from `j`, at most `n`,
and `ErrCommitLogEOF` when it reaches the file's end. -/
theorem getCommitLogListFromFile_of_le {file : List CommitLogData} {j n : Nat}
    (hj : j ≤ file.length) (hn : 0 < n) :
    getCommitLogListFromFile file (logDataSize * j) n =
      ((file.drop j).take n, if file.length < j + n then some .eof else none) := by
  unfold getCommitLogListFromFile
  rcases Nat.lt_or_eq_of_le hj with hlt | rfl
  · -- inside the file: the checks pass, and the read ends at the file's end or after `n`
    have h₁ : logDataSize * j ≠ logDataSize * file.length :=
      fun h => Nat.ne_of_lt hlt (logDataSize_mul_inj.mp h)
    have h₂ : ¬ logDataSize * j > logDataSize * file.length - logDataSize := by
      simp only [logDataSize]
      omega
    have h₃ : ¬ logDataSize * (j : Int) < 0 := by
      simp only [logDataSize]
      omega
    rw [if_neg h₁, if_neg h₂, if_neg (not_not.mpr (tmod_logDataSize j)), if_neg h₃, div_logDataSize]
    dsimp only
    by_cases hend : logDataSize * j + n * logDataSize > logDataSize * file.length
    · have hshort : file.length < j + n := by
        simp only [logDataSize] at hend
        omega
      have hleft : ((logDataSize * file.length - logDataSize * j) / logDataSize).toNat =
          file.length - j := by
        simp only [logDataSize]
        omega
      rw [if_pos hend, if_pos hend, if_pos hshort, hleft,
        List.take_of_length_le (by rw [List.length_drop]),
        List.take_of_length_le (by rw [List.length_drop]; omega)]
    · have hlong : ¬ file.length < j + n := by
        simp only [logDataSize] at hend
        omega
      have hnum : ((n * logDataSize : Int) / logDataSize).toNat = n := by
        simp only [logDataSize]
        omega
      rw [if_neg hend, if_neg hend, if_neg hlong, hnum]
  · -- at the file's end
    rw [if_pos rfl, if_pos (Nat.lt_add_of_pos_right hn), List.drop_length, List.take_nil]

namespace TopicCommitLogMgr

variable {m : TopicCommitLogMgr} {N : Nat}

/-! ## Reading across files -/

/-- Only the files decide what is after a position. -/
theorem SameLog.recordsAfter {t : TopicCommitLogMgr} (h : SameLog t m) (i : Int) (k : Nat) :
    t.recordsAfter i k = m.recordsAfter i k := by
  unfold TopicCommitLogMgr.recordsAfter
  rw [h.currentStart, h.current, h.segments]
  congr 3
  exact segmentRecords_congr fun j _ _ => by rw [h.segments]

theorem SameLog.fileAt {t : TopicCommitLogMgr} (h : SameLog t m) (i : Int) :
    t.fileAt i = m.fileAt i := by
  unfold TopicCommitLogMgr.fileAt
  rw [h.currentStart, h.current, h.segments]

theorem SameLog.inLog {t : TopicCommitLogMgr} (h : SameLog t m) {i : Int} {k : Nat}
    (hp : m.InLog i k) : t.InLog i k where
  start_le := by rw [h.logStartInfo]; exact hp.start_le
  le_current := by rw [h.currentStart]; exact hp.le_current
  le_length := by rw [h.fileAt]; exact hp.le_length
  start_le_record := by rw [h.logStartInfo, h.startRecord]; exact hp.start_le_record

/-- Past a position in a segment file come the rest of that file and what follows it. -/
theorem recordsAfter_of_lt {i : Int} (hi : i < m.currentStart) (k : Nat) :
    m.recordsAfter i k = ((m.segments i).getD []).drop k ++ m.recordsAfter (i + 1) 0 := by
  unfold recordsAfter
  rw [if_pos hi]
  by_cases hnext : i + 1 < m.currentStart
  · rw [if_pos hnext, show (m.currentStart - i - 1).toNat = (m.currentStart - (i + 1) - 1).toNat + 1
      by omega, segmentRecords_succ, List.drop_zero]
    simp only [List.append_assoc]
  · rw [if_neg hnext, show (m.currentStart - i - 1).toNat = 0 by omega, segmentRecords_zero,
      List.append_nil, List.drop_zero]

/-- The read loop from record `k` of file `i` on a flushed state of the layout, with `total` read
so far and `num - total.length` records still wanted: it answers the records after the position,
as many as are wanted, and `ErrCommitLogEOF` when fewer are left. One round a file. -/
theorem Layout.getCommitLogsLoop_eq (hv : m.Layout N) (hflushed : m.committedLogs = [])
    {num : Nat} : ∀ (fuel : Nat) (i : Int) (k : Nat) (total : List CommitLogData),
      m.logStartInfo.segmentStartIndex ≤ i → i ≤ m.currentStart → k ≤ (m.fileAt i).length →
      total.length < num → (m.currentStart - i).toNat < fuel →
      m.getCommitLogsLoop num fuel i (logDataSize * k) total =
        some (total ++ (m.recordsAfter i k).take (num - total.length),
          if (m.recordsAfter i k).length < num - total.length then some .eof else none)
  | 0, _, _, _, _, _, _, _, hfuel => absurd hfuel (Nat.not_lt_zero _)
  | fuel + 1, i, k, total, hs, hc, hk, htotal, hfuel => by
    have hwant : 0 < num - total.length := by omega
    rw [getCommitLogsLoop]
    rcases Int.lt_or_eq_of_le hc with hlt | heq
    · -- a segment file: read it from `k`, then the next file from its start if that fell short
      obtain ⟨seg, hseg, _⟩ := hv.segment_full i hs hlt
      have hfile : m.fileAt i = seg := by rw [fileAt_of_lt hlt, hseg, Option.getD_some]
      rw [hfile] at hk
      rw [if_pos hlt, hseg]
      dsimp only
      rw [getCommitLogListFromFile_of_le hk hwant, recordsAfter_of_lt hlt, hseg, Option.getD_some]
      by_cases hshort : seg.length < k + (num - total.length)
      · rw [if_pos hshort]
        dsimp only
        have hdrop : (seg.drop k).take (num - total.length) = seg.drop k :=
          List.take_of_length_le (by rw [List.length_drop]; omega)
        have hlen : (total ++ seg.drop k).length < num := by
          rw [List.length_append, List.length_drop]
          omega
        have hnext := hv.getCommitLogsLoop_eq hflushed fuel (i + 1) 0 (total ++ seg.drop k)
          (by omega) (by omega) (Nat.zero_le _) hlen (by omega)
        rw [Int.natCast_zero, Int.mul_zero] at hnext
        rw [hdrop, if_neg (show ¬ i + 1 > m.currentStart by omega), if_neg (Nat.ne_of_lt hlen), hnext]
        -- what the next files give completes the records after the position
        have hA : (seg.drop k).length < num - total.length := by
          rw [List.length_drop]
          omega
        have hwant' : num - (total ++ seg.drop k).length =
            num - total.length - (seg.drop k).length := by
          rw [List.length_append]
          omega
        have hiff : (m.recordsAfter (i + 1) 0).length < num - total.length - (seg.drop k).length ↔
            (seg.drop k).length + (m.recordsAfter (i + 1) 0).length < num - total.length := by
          omega
        rw [hwant', List.take_append, List.take_of_length_le (Nat.le_of_lt hA),
          List.append_assoc, List.length_append]
        simp only [hiff]
      · rw [if_neg hshort]
        dsimp only
        have hlen : (total ++ (seg.drop k).take (num - total.length)).length = num := by
          rw [List.length_append, List.length_take, List.length_drop]
          omega
        rw [if_neg (Int.not_lt.mpr (Int.le_of_lt hlt)), if_pos hlen,
          List.take_append_of_le_length (by rw [List.length_drop]; omega)]
        congr 2
        rw [if_neg]
        rw [List.length_append, List.length_drop]
        omega
    · -- the current file, which the flush left whole in the appender
      subst heq
      have happ : m.appender = m.current := by rw [current, hflushed, List.append_nil]
      rw [fileAt_current, ← happ] at hk
      have hafter : m.recordsAfter m.currentStart k = m.appender.drop k := by
        rw [recordsAfter, if_neg (Int.lt_irrefl _), happ]
      rw [if_neg (Int.lt_irrefl _)]
      dsimp only
      rw [getCommitLogListFromFile_of_le hk hwant, hafter, List.length_drop]
      by_cases hshort : m.appender.length < k + (num - total.length)
      · rw [if_pos hshort, if_pos (show m.appender.length - k < num - total.length by omega)]
        dsimp only
        rw [if_pos (show m.currentStart + 1 > m.currentStart by omega)]
      · rw [if_neg hshort, if_neg (show ¬ m.appender.length - k < num - total.length by omega)]
        dsimp only
        have hlen : (total ++ (m.appender.drop k).take (num - total.length)).length = num := by
          rw [List.length_append, List.length_take, List.length_drop]
          omega
        rw [if_neg (Int.lt_irrefl _), if_pos hlen]

/-- A position of the log is not before the log start in its segment. -/
theorem Layout.not_before_start (hv : m.Layout N) {i : Int} {k : Nat} (hp : m.InLog i k) :
    ¬ (i = m.logStartInfo.segmentStartIndex ∧
      logDataSize * k < m.logStartInfo.segmentStartOffset) := by
  rintro ⟨h, hlt⟩
  rw [hv.start_offset] at hlt
  exact absurd (hp.start_le_record h) (Nat.not_le.mpr (logDataSize_mul_lt.mp hlt))

/-- `GetCommitLogsV2` of `num ≥ 1` records at a position of the log, with a round of fuel for
each file from the position's on: the records after the position, at most `num`, and
`ErrCommitLogEOF` when fewer are left; the buffer is flushed. -/
theorem Layout.getCommitLogsV2_eq (hv : m.Layout N) {i : Int} {k : Nat} (hp : m.InLog i k)
    {num : Nat} (hnum : 0 < num) {fuel : Nat} (hfuel : (m.currentStart - i).toNat < fuel) :
    m.getCommitLogsV2 fuel i (logDataSize * k) num =
      some (m.flushCommitLogsNoLock, (m.recordsAfter i k).take num,
        if (m.recordsAfter i k).length < num then some .eof else none) := by
  have hflush : SameLog m.flushCommitLogsNoLock m := sameLog_flushCommitLogsNoLock
  have hvt : m.flushCommitLogsNoLock.Layout N := hv.of_sameLog hflush (Nat.zero_le _)
  have hpt := hflush.inLog hp
  -- the position lies in the log, so the range checks pass
  unfold getCommitLogsV2
  rw [if_neg (Int.not_lt.mpr hp.start_le), if_neg (hv.not_before_start hp),
    if_neg (Int.not_lt.mpr hp.le_current)]
  dsimp only
  rw [hflush.currentStart]
  by_cases hcur : i = m.currentStart
  · -- the current file alone, which the flush left whole in the appender
    subst hcur
    have hk : k ≤ m.current.length := by
      rw [← fileAt_current]
      exact hp.le_length
    rw [if_pos rfl]
    change some (_, getCommitLogListFromFile m.current _ num) = _
    rw [getCommitLogListFromFile_of_le hk hnum, recordsAfter, if_neg (Int.lt_irrefl _),
      List.length_drop]
    have hlt : m.current.length < k + num ↔ m.current.length - k < num := by omega
    simp only [hlt]
  · rw [if_neg hcur, hvt.getCommitLogsLoop_eq rfl fuel i k [] hpt.start_le hpt.le_current
      hpt.le_length hnum hfuel, hflush.recordsAfter]
    rfl

/-- `GetCommitLogFromOffsetV2` at a position of the log reads the record there, with a round of
fuel for each file from the position's on; the buffer is flushed. -/
theorem Layout.getCommitLogFromOffsetV2_eq (hv : m.Layout N) {i : Int} {k : Nat}
    (hp : m.InLog i k) {l : CommitLogData} {rest : List CommitLogData}
    (hl : m.recordsAfter i k = l :: rest) {fuel : Nat} (hfuel : (m.currentStart - i).toNat < fuel) :
    m.getCommitLogFromOffsetV2 fuel i (logDataSize * k) = some (m.flushCommitLogsNoLock, .ok l) := by
  unfold getCommitLogFromOffsetV2
  rw [if_neg (Int.not_lt.mpr hp.le_current), if_neg (Int.not_lt.mpr hp.start_le),
    if_neg (hv.not_before_start hp)]
  by_cases hcur : i = m.currentStart
  · -- the current file, whole in the appender after the flush
    subst hcur
    rw [recordsAfter, if_neg (Int.lt_irrefl _)] at hl
    have hk : k < m.current.length := by
      have hlen := congrArg List.length hl
      rw [List.length_drop, List.length_cons] at hlen
      omega
    rw [List.drop_eq_getElem_cons hk, List.cons.injEq] at hl
    rw [if_pos rfl]
    show some (_, getCommitLogFromFile m.current (logDataSize * k)) = _
    rw [getCommitLogFromFile_of_lt hk, hl.1]
  · -- an earlier file: a read of one record across the files
    have hone : ¬ (l :: rest).length < 1 := by
      rw [List.length_cons]
      omega
    rw [if_neg hcur, hv.getCommitLogsV2_eq hp Nat.one_pos hfuel, hl, if_neg hone]
    rfl

/-- Reading the commit log across files answers the log: on every state a run reaches, with
`LOGROTATE_NUM = N > 0`, `GetCommitLogsV2` of `num ≥ 1` records at a position of the log answers
the next `min(num, remaining)` records of the log in order, from the segment files, the current
file and the buffer it flushes, and `ErrCommitLogEOF` exactly when fewer than `num` are left. -/
theorem getCommitLogsV2_reads_log {K : Int} {log : List CommitLogData} (hN : 0 < N) (hK : 0 ≤ K)
    (h : LogRun N K m log) {i : Int} {k : Nat} (hp : m.InLog i k) {num : Nat} (hnum : 0 < num)
    (fuel : Nat) (hfuel : (m.currentStart - i).toNat < fuel) :
    m.getCommitLogsV2 fuel i (logDataSize * k) num =
      some (m.flushCommitLogsNoLock, (log.drop (m.posIndex i k)).take num,
        if (log.drop (m.posIndex i k)).length < num then some .eof else none) := by
  obtain ⟨hv, rfl⟩ := h.valid hN hK
  rw [hv.drop_posIndex hp]
  exact hv.getCommitLogsV2_eq hp hnum hfuel

/-- Two records appended with `LOGROTATE_NUM = 1` to a new log of partition 0: the second
append rotates the first into segment 0. -/
theorem logRun_rotated_pair :
    LogRun 1 1000
      ((({ partition := 0, nLogID := 1, pLogID := 0, segments := fun _ => none,
            appender := [], committedLogs := [], commitCap := 400, bufSize := 400,
            currentStart := 0, currentCount := 0, logStartInfo := ⟨0, 0, 0⟩ } :
              TopicCommitLogMgr).appendCommitLog 1 ⟨1, 0, 1, 0, 0, 1, 1⟩ true).1.appendCommitLog 1
        ⟨2, 0, 2, 0, 0, 2, 1⟩ true).1
      [⟨1, 0, 1, 0, 0, 1, 1⟩, ⟨2, 0, 2, 0, 0, 2, 1⟩] := by
  have h₀ : LogRun 1 1000
      { partition := 0, nLogID := 1, pLogID := 0, segments := fun _ => none, appender := [],
        committedLogs := [], commitCap := 400, bufSize := 400, currentStart := 0,
        currentCount := 0, logStartInfo := ⟨0, 0, 0⟩ } [] := .init 0 400 rfl
  have h₁ := LogRun.append ⟨1, 0, 1, 0, 0, 1, 1⟩ true h₀ rfl
    (fun p hp => absurd hp (Option.not_mem_none p)) (fun h => absurd h (by decide))
  exact LogRun.append ⟨2, 0, 2, 0, 0, 2, 1⟩ true h₁ rfl
    (fun p hp => by cases hp; decide) (fun h => absurd h (by decide))

/-- Reading two records from the start of segment 0 of that log answers both, the second from
the current file. -/
theorem getCommitLogsV2_reads_log_two_files :
    ∃ m, LogRun 1 1000 m [⟨1, 0, 1, 0, 0, 1, 1⟩, ⟨2, 0, 2, 0, 0, 2, 1⟩] ∧ m.currentStart = 1 ∧
      m.getCommitLogsV2 2 0 0 2 =
        some (m.flushCommitLogsNoLock, [⟨1, 0, 1, 0, 0, 1, 1⟩, ⟨2, 0, 2, 0, 0, 2, 1⟩], none) := by
  refine ⟨_, logRun_rotated_pair, rfl, ?_⟩
  have hread := getCommitLogsV2_reads_log (i := 0) (k := 0) (by decide) (by decide)
    logRun_rotated_pair ⟨by decide, by decide, by decide, fun _ => by decide⟩ Nat.zero_lt_two 2
    (by decide)
  rw [Int.natCast_zero, Int.mul_zero] at hread
  rw [hread]
  rfl

end TopicCommitLogMgr

end Nsq
