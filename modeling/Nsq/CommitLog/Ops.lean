import Nsq.CommitLog.View

/-!
# What the operations do to the files

One lemma per operation of `TopicCommitLogMgr`, saying what it leaves in the files, the log start
and the last IDs; the invariant proofs cite these and never unfold the operations.

* Flushing, resizing the buffer (`switchForMaster`) and `NextID` keep the files (`SameLog`).
* An accepted `AppendCommitLog` writes the record after the current ones, renaming the current
  file to segment `currentStart` first when it holds `LOGROTATE_NUM` records
  (`appendCommitLog_rotate`, `appendCommitLog_keep`).
* `TruncateToOffsetV2` at a position of the log leaves the files `cutAt` describes and sets the
  last IDs from the record before the cut (`truncateToOffsetV2_eq`), which is the last record of
  the log it leaves.
* `GetLastCommitLogOffsetV2` finds the last record of a nonempty log at its own position
  (`getLastCommitLogOffsetV2_of_last`).
-/

namespace Nsq

namespace TopicCommitLogMgr

/-- Two states with the same files, log start, count and `pLogID`: they differ at most in how the
current records are split between the file and the buffer, in the buffer's size and in
`nLogID`. -/
structure SameLog (t m : TopicCommitLogMgr) : Prop where
  segments : t.segments = m.segments
  currentStart : t.currentStart = m.currentStart
  logStartInfo : t.logStartInfo = m.logStartInfo
  current : t.current = m.current
  currentCount : t.currentCount = m.currentCount
  pLogID : t.pLogID = m.pLogID

variable {m : TopicCommitLogMgr}

@[refl] theorem SameLog.refl (m : TopicCommitLogMgr) : SameLog m m := ⟨rfl, rfl, rfl, rfl, rfl, rfl⟩

theorem SameLog.trans {t u : TopicCommitLogMgr} (h : SameLog u t) (h' : SameLog t m) :
    SameLog u m :=
  ⟨h.segments.trans h'.segments, h.currentStart.trans h'.currentStart,
    h.logStartInfo.trans h'.logStartInfo, h.current.trans h'.current,
    h.currentCount.trans h'.currentCount, h.pLogID.trans h'.pLogID⟩

theorem SameLog.records {t : TopicCommitLogMgr} (h : SameLog t m) : t.records = m.records := by
  unfold TopicCommitLogMgr.records
  rw [h.logStartInfo, h.currentStart, h.current]
  congr 1
  exact segmentRecords_congr fun j _ _ => by rw [h.segments]

theorem SameLog.logFrom {t : TopicCommitLogMgr} (h : SameLog t m) : t.logFrom = m.logFrom := by
  unfold TopicCommitLogMgr.logFrom startRecord
  rw [h.records, h.logStartInfo]

theorem flushCommitLogsNoLock_eq :
    m.flushCommitLogsNoLock = { m with appender := m.current, committedLogs := [] } := rfl

theorem sameLog_flushCommitLogsNoLock : SameLog m.flushCommitLogsNoLock m :=
  ⟨rfl, rfl, rfl, List.append_nil _, rfl, rfl⟩

theorem sameLog_switchForMaster (master : Bool) : SameLog (m.switchForMaster master) m :=
  ⟨rfl, rfl, rfl, List.append_nil _, rfl, rfl⟩

theorem sameLog_nextID : SameLog m.nextID.1 m := ⟨rfl, rfl, rfl, rfl, rfl, rfl⟩

theorem getLastCommitLogOffsetV2_fst :
    m.getLastCommitLogOffsetV2.1 = m.flushCommitLogsNoLock := by
  unfold getLastCommitLogOffsetV2
  dsimp only
  split
  · split
    · rfl
    · split
      · rfl
      · split <;> rfl
  · split <;> rfl

/-! ## Appending -/

/-- The buffered write puts the record after the current ones and keeps the buffer within its
capacity. -/
theorem bufferCommitLog_eq (hb : m.committedLogs.length ≤ m.commitCap) (l : CommitLogData) :
    ∃ a b, m.bufferCommitLog l = { m with appender := a, committedLogs := b } ∧
      a ++ b = m.current ++ [l] ∧ b.length ≤ m.commitCap := by
  unfold bufferCommitLog
  by_cases hcap : m.commitCap = 0
  · -- no buffer: the buffer is empty, and the record goes to the file
    have hnil : m.committedLogs = [] := List.eq_nil_of_length_eq_zero (by omega)
    refine ⟨m.appender ++ [l], m.committedLogs, by rw [if_pos hcap], ?_, hb⟩
    rw [current, hnil, List.append_nil, List.append_nil]
  · rw [if_neg hcap]
    by_cases hfull : m.committedLogs.length ≥ m.commitCap
    · -- a full buffer is flushed first
      refine ⟨m.current, [l], by rw [if_pos hfull]; rfl, rfl, ?_⟩
      simp only [List.length_singleton]
      omega
    · refine ⟨m.appender, m.committedLogs ++ [l], by rw [if_neg hfull], ?_, ?_⟩
      · rw [current, List.append_assoc]
      · rw [List.length_append, List.length_singleton]
        omega

/-- The slave's `nLogID` store touches nothing else. -/
theorem ite_slave_eq (slave : Bool) (x : Int) :
    (if slave then { m with nLogID := x } else m) =
      { m with nLogID := if slave then x else m.nLogID } := by
  cases slave <;> rfl

section Append

variable {N : Int} {l : CommitLogData} (slave : Bool)
  (hid : m.pLogID < l.logID) (hlast : l.logID ≤ l.lastMsgLogID)
include hid hlast

/-- Appended to a full current file, the record starts a new one: the full one is segment
`currentStart`. -/
theorem appendCommitLog_rotate (hrot : N ≤ m.currentCount) :
    ∃ t, m.appendCommitLog N l slave = (t, none) ∧
      t.segments = Function.update m.segments m.currentStart (some m.current) ∧
      t.currentStart = m.currentStart + 1 ∧ t.logStartInfo = m.logStartInfo ∧
      t.current = [l] ∧ t.currentCount = 1 ∧ t.pLogID = l.logID ∧
      t.nLogID = (if slave then l.lastMsgLogID + 1 else m.nLogID) ∧
      t.committedLogs.length ≤ t.commitCap := by
  obtain ⟨a, b, hbuf, hab, hcap⟩ :=
    bufferCommitLog_eq (m := { m with nLogID := if slave then l.lastMsgLogID + 1 else m.nLogID
      }.rotate) (Nat.zero_le _) l
  unfold appendCommitLog
  rw [if_neg (Int.not_le.mpr hid), if_neg (Int.not_lt.mpr hlast), ite_slave_eq]
  dsimp only
  rw [if_pos hrot, hbuf]
  exact ⟨_, rfl, rfl, rfl, rfl, hab, rfl, rfl, rfl, hcap⟩

/-- Appended to a current file that is not full, the record goes after the current ones. -/
theorem appendCommitLog_keep (hb : m.committedLogs.length ≤ m.commitCap)
    (hrot : ¬ N ≤ m.currentCount) :
    ∃ t, m.appendCommitLog N l slave = (t, none) ∧
      t.segments = m.segments ∧ t.currentStart = m.currentStart ∧
      t.logStartInfo = m.logStartInfo ∧
      t.current = m.current ++ [l] ∧ t.currentCount = m.currentCount + 1 ∧ t.pLogID = l.logID ∧
      t.nLogID = (if slave then l.lastMsgLogID + 1 else m.nLogID) ∧
      t.committedLogs.length ≤ t.commitCap := by
  obtain ⟨a, b, hbuf, hab, hcap⟩ :=
    bufferCommitLog_eq (m := { m with nLogID := if slave then l.lastMsgLogID + 1 else m.nLogID })
      hb l
  unfold appendCommitLog
  rw [if_neg (Int.not_le.mpr hid), if_neg (Int.not_lt.mpr hlast), ite_slave_eq]
  dsimp only
  rw [if_neg hrot, hbuf]
  exact ⟨_, rfl, rfl, rfl, rfl, hab, rfl, rfl, rfl, hcap⟩

end Append

/-- A rejected append changes nothing. -/
theorem appendCommitLog_of_rejected {N : Int} {l : CommitLogData} {slave : Bool}
    (h : l.logID ≤ m.pLogID ∨ l.lastMsgLogID < l.logID) :
    (m.appendCommitLog N l slave).1 = m := by
  unfold appendCommitLog
  rcases h with h | h
  · rw [if_pos h]
  · by_cases hid : l.logID ≤ m.pLogID
    · rw [if_pos hid]
    · rw [if_neg hid, if_pos h]

/-- An accepted append passed both ID checks. -/
theorem appendCommitLog_accepted {N : Int} {l : CommitLogData} {slave : Bool}
    (h : (m.appendCommitLog N l slave).2 = none) :
    m.pLogID < l.logID ∧ l.logID ≤ l.lastMsgLogID := by
  unfold appendCommitLog at h
  by_cases hid : l.logID ≤ m.pLogID
  · rw [if_pos hid] at h
    cases h
  · by_cases hlast : l.lastMsgLogID < l.logID
    · rw [if_neg hid, if_pos hlast] at h
      cases h
    · exact ⟨Int.lt_of_not_ge hid, Int.not_lt.mp hlast⟩

/-! ## Truncating -/

/-- The files after `TruncateToOffsetV2` to record `k` of file `i`, before the last IDs are set:
file `i`, cut after `k` records, is the current one. A cut in a segment file removes the current
file and the segment files after it, and renames the segment file to the current one. -/
def cutAt (m : TopicCommitLogMgr) (i : Int) (k : Nat) : TopicCommitLogMgr :=
  { m with
    currentStart := i, currentCount := k, appender := (m.fileAt i).take k, committedLogs := [],
    segments :=
      if i < m.currentStart then
        Function.update (fun j => if i < j ∧ j < m.currentStart then none else m.segments j) i none
      else m.segments }

/-- How `truncateToOffset` ends: the last IDs from the record before the cut, if there is one. -/
def setLast (m : TopicCommitLogMgr) :
    Option CommitLogData → TopicCommitLogMgr × Except CommitLogError CommitLogData
  | none => ({ m with pLogID := 0 }, .error .eof)
  | some l => m.truncatedTo l

section Cut

variable {i : Int} {k : Nat}

@[simp] theorem cutAt_currentStart : (m.cutAt i k).currentStart = i := rfl

@[simp] theorem cutAt_logStartInfo : (m.cutAt i k).logStartInfo = m.logStartInfo := rfl

@[simp] theorem cutAt_current : (m.cutAt i k).current = (m.fileAt i).take k := List.append_nil _

@[simp] theorem cutAt_startRecord : (m.cutAt i k).startRecord = m.startRecord := rfl

theorem cutAt_segments_of_lt {j : Int} (hj : j < i) : (m.cutAt i k).segments j = m.segments j := by
  unfold cutAt
  dsimp only
  split
  · rw [Function.update_of_ne (Int.ne_of_lt hj)]
    exact if_neg fun h => absurd h.1 (Int.not_lt.mpr (Int.le_of_lt hj))
  · rfl

/-- The cut keeps the records before the position. -/
theorem records_cutAt : (m.cutAt i k).records = m.recordsBefore i k := by
  unfold records recordsBefore
  rw [cutAt_current, cutAt_currentStart, cutAt_logStartInfo]
  congr 1
  exact segmentRecords_congr fun j _ hj => cutAt_segments_of_lt (by omega)

theorem logFrom_cutAt_eq_drop :
    (m.cutAt i k).logFrom = (m.recordsBefore i k).drop m.startRecord := by
  rw [logFrom, records_cutAt, cutAt_startRecord]

variable {N : Nat}

/-- Truncating at a position keeps the log records before it. -/
theorem Layout.logFrom_cutAt (hv : m.Layout N) (hp : m.InLog i k) :
    (m.cutAt i k).logFrom = m.logFrom.take (m.posIndex i k) := by
  rw [logFrom_cutAt_eq_drop, hv.logFrom_eq hp, posIndex_eq, List.take_left' rfl]

/-- A cut past the log start's record, or inside a later file, leaves the record before it
last. -/
theorem Layout.getLast?_cutAt_of_lt (hv : m.Layout N) (hp : m.InLog i k)
    (hlt : (if i = m.logStartInfo.segmentStartIndex then m.startRecord else 0) < k) :
    (m.cutAt i k).logFrom.getLast? = ((m.fileAt i).take k).getLast? := by
  have hne : (m.fileAt i).take k ≠ [] := by
    apply List.ne_nil_of_length_pos
    rw [List.length_take, Nat.min_eq_left hp.le_length]
    split at hlt <;> omega
  have hlong : m.startRecord < (m.recordsBefore i k).length := by
    rw [length_recordsBefore hp]
    rcases Int.lt_or_eq_of_le hp.start_le with hs | hs
    · have := hv.startRecord_lt_segmentRecords hs hp.le_current
      omega
    · subst hs
      rw [if_pos rfl] at hlt
      rw [Int.sub_self, Int.toNat_zero, segmentRecords_zero, List.length_nil]
      omega
  rw [logFrom_cutAt_eq_drop, List.getLast?_drop, if_neg (Nat.not_le.mpr hlong), recordsBefore,
    List.getLast?_append_of_ne_nil _ hne]

/-- A cut at the log start leaves no log. -/
theorem getLast?_cutAt_start :
    (m.cutAt m.logStartInfo.segmentStartIndex m.startRecord).logFrom.getLast? = none := by
  have hshort : (m.recordsBefore m.logStartInfo.segmentStartIndex m.startRecord).length ≤
      m.startRecord := by
    rw [recordsBefore, Int.sub_self, Int.toNat_zero, segmentRecords_zero, List.nil_append,
      List.length_take]
    exact Nat.min_le_left _ _
  rw [logFrom_cutAt_eq_drop, List.drop_eq_nil_of_le hshort, List.getLast?_nil]

/-- A cut at the start of a later file leaves the previous segment file's last record last. -/
theorem Layout.getLast?_cutAt_segment (hv : m.Layout N)
    (hs : m.logStartInfo.segmentStartIndex < i) (hc : i ≤ m.currentStart) :
    (m.cutAt i 0).logFrom.getLast? = ((m.segments (i - 1)).getD []).getLast? := by
  obtain ⟨seg, hseg, hlen⟩ := hv.segment_full (i - 1) (by omega) (by omega)
  have hne : seg ≠ [] := List.ne_nil_of_length_pos (by have := hv.startRecord_lt; omega)
  have hlong := hv.startRecord_lt_segmentRecords hs hc
  have hsucc : (i - m.logStartInfo.segmentStartIndex).toNat =
      (i - m.logStartInfo.segmentStartIndex - 1).toNat + 1 := by omega
  have hprev : m.logStartInfo.segmentStartIndex +
      ((i - m.logStartInfo.segmentStartIndex - 1).toNat : Int) = i - 1 := by omega
  rw [logFrom_cutAt_eq_drop, recordsBefore, List.take_zero, List.append_nil, List.getLast?_drop,
    if_neg (Nat.not_le.mpr hlong), hsucc, segmentRecords_succ_right, hprev, hseg,
    Option.getD_some, List.getLast?_append_of_ne_nil _ hne]

end Cut

/-- `truncateToOffset` at record `k` of the current file, cutting from record `j` on: it keeps `k`
records and takes the last IDs from the record before the cut, which is the previous segment
file's last one when it cut at the start of the current file. -/
theorem truncateToOffset_eq {t : TopicCommitLogMgr} {j k : Nat} (hk : k ≤ t.appender.length)
    (hjk : j ≤ k)
    (hseg : j = k → t.logStartInfo.segmentStartIndex < t.currentStart →
      ∃ seg, t.segments (t.currentStart - 1) = some seg ∧ seg ≠ []) :
    t.truncateToOffset (logDataSize * j) (logDataSize * k) =
      setLast { t with appender := t.appender.take k, currentCount := k }
        (if j < k then (t.appender.take k).getLast?
         else if t.currentStart ≤ t.logStartInfo.segmentStartIndex then none
         else ((t.segments (t.currentStart - 1)).getD []).getLast?) := by
  rcases Nat.lt_or_eq_of_le hjk with hlt | rfl
  · obtain ⟨l, hl, hcut⟩ := truncateFileToOffset_of_lt hk hlt
    rw [if_pos hlt, hl]
    unfold truncateToOffset
    rw [hcut]
    simp only [tdiv_logDataSize]
    rfl
  · rw [if_neg (Nat.lt_irrefl _)]
    unfold truncateToOffset
    rw [truncateFileToOffset_of_eq hk]
    simp only [tdiv_logDataSize]
    by_cases hc : t.currentStart ≤ t.logStartInfo.segmentStartIndex
    · rw [if_pos hc, if_pos hc]
      rfl
    · -- at the start of the current file: the last record is the previous segment file's
      rw [if_neg hc, if_neg hc]
      obtain ⟨seg, hs, hne⟩ := hseg rfl (Int.lt_of_not_ge hc)
      rw [hs, Option.getD_some, List.getLast?_eq_some_getLast hne, getLastCommitLogData,
        getLastCommitLogDataFromFile_of_ne_nil hne]
      rfl

/-- The last record a cut leaves: the one before the cut when the cut is past the log start's
record or inside a later file, none at the log start, else the previous segment file's last. -/
theorem Layout.getLast?_cutAt {N : Nat} (hv : m.Layout N) {i : Int} {k : Nat}
    (hp : m.InLog i k) :
    (m.cutAt i k).logFrom.getLast? =
      if (if i = m.logStartInfo.segmentStartIndex then m.startRecord else 0) < k then
        ((m.fileAt i).take k).getLast?
      else if i ≤ m.logStartInfo.segmentStartIndex then none
      else ((m.segments (i - 1)).getD []).getLast? := by
  by_cases hlt : (if i = m.logStartInfo.segmentStartIndex then m.startRecord else 0) < k
  · rw [if_pos hlt]
    exact hv.getLast?_cutAt_of_lt hp hlt
  · rw [if_neg hlt]
    by_cases hi : i ≤ m.logStartInfo.segmentStartIndex
    · -- at the log start: nothing of the log is left
      rw [if_pos hi]
      have hs : i = m.logStartInfo.segmentStartIndex := Int.le_antisymm hi hp.start_le
      subst hs
      have hk : k = m.startRecord := by
        rw [if_pos rfl] at hlt
        exact Nat.le_antisymm (Nat.not_lt.mp hlt) (hp.start_le_record rfl)
      subst hk
      exact getLast?_cutAt_start
    · -- at the start of a later file
      rw [if_neg hi]
      have hs : m.logStartInfo.segmentStartIndex < i := Int.lt_of_not_ge hi
      have hk : k = 0 := by
        rw [if_neg (Int.ne_of_gt hs)] at hlt
        exact Nat.eq_zero_of_not_pos hlt
      subst hk
      exact hv.getLast?_cutAt_segment hs hp.le_current

/-- `TruncateToOffsetV2` at a position of the log leaves the files `cutAt` describes and takes the
last IDs from the last record of the log left. -/
theorem Layout.truncateToOffsetV2_eq {N : Nat} (hv : m.Layout N) {i : Int} {k : Nat}
    (hp : m.InLog i k) :
    m.truncateToOffsetV2 i (logDataSize * k) =
      (m.cutAt i k).setLast (m.cutAt i k).logFrom.getLast? := by
  -- the cut starts from the log start in its segment, from the first record after it
  have hstart : (if i = m.logStartInfo.segmentStartIndex then m.logStartInfo.segmentStartOffset
      else 0) = logDataSize * ((if i = m.logStartInfo.segmentStartIndex then m.startRecord
        else 0 : Nat) : Int) := by
    split
    · exact hv.start_offset
    · rw [Int.natCast_zero, Int.mul_zero]
  have hjk : (if i = m.logStartInfo.segmentStartIndex then m.startRecord else 0) ≤ k := by
    split
    · exact hp.start_le_record ‹_›
    · exact Nat.zero_le k
  have hgt : ¬ i > m.currentStart := Int.not_lt.mpr hp.le_current
  have hbefore : ¬ (i < m.logStartInfo.segmentStartIndex ∨ (i = m.logStartInfo.segmentStartIndex ∧
      logDataSize * k < m.logStartInfo.segmentStartOffset)) := by
    rintro (h | ⟨h, hlt⟩)
    · exact absurd hp.start_le (Int.not_le.mpr h)
    · rw [hv.start_offset] at hlt
      exact absurd (hp.start_le_record h) (Nat.not_le.mpr (logDataSize_mul_lt.mp hlt))
  -- the previous segment file, read when the cut is at the start of file `i`
  have hprev : (if i = m.logStartInfo.segmentStartIndex then m.startRecord else 0) = k →
      m.logStartInfo.segmentStartIndex < i → ∃ seg, m.segments (i - 1) = some seg ∧ seg ≠ [] := by
    intro _ hs
    obtain ⟨seg, hseg, hlen⟩ := hv.segment_full (i - 1) (by omega) (by have := hp.le_current; omega)
    exact ⟨seg, hseg, List.ne_nil_of_length_pos (by have := hv.startRecord_lt; omega)⟩
  rw [hv.getLast?_cutAt hp]
  unfold truncateToOffsetV2
  rw [flushCommitLogsNoLock_eq]
  dsimp only
  rw [if_neg hgt, if_neg hbefore, hstart]
  rcases Int.lt_or_eq_of_le hp.le_current with hc | hc
  · -- in a segment file: it is renamed to the current one, which is then cut
    rw [if_pos hc]
    obtain ⟨seg, hseg, hlen⟩ := hv.segment_full i hp.start_le hc
    have hfile : m.fileAt i = seg := by rw [fileAt_of_lt hc, hseg, Option.getD_some]
    have hsegs : Function.update (fun j => if i < j ∧ j < m.currentStart then none
        else m.segments j) i none (i - 1) = m.segments (i - 1) := by
      rw [Function.update_of_ne (by omega), if_neg (by omega)]
    rw [hseg]
    dsimp only
    rw [truncateToOffset_eq (by dsimp only; rw [← hfile]; exact hp.le_length) hjk
      (by dsimp only; rw [hsegs]; exact hprev)]
    dsimp only
    rw [hsegs, cutAt, if_pos hc, hfile]
  · -- in the current file
    subst hc
    rw [if_neg (Int.lt_irrefl _),
      truncateToOffset_eq (t := { m with appender := m.current, committedLogs := [] })
        (by rw [← fileAt_current]; exact hp.le_length) hjk hprev,
      cutAt, if_neg (Int.lt_irrefl _), fileAt_current]

/-! ## Finding the last record -/

/-- The last record of a nonempty log is the last of the records from the log start's segment. -/
theorem getLast?_records_of_logFrom {xs : List CommitLogData} {l : CommitLogData}
    (hlog : m.logFrom = xs ++ [l]) :
    m.records.getLast? = some l ∧ xs.length + 1 + m.startRecord = m.records.length := by
  have hlen := congrArg List.length hlog
  rw [logFrom, List.length_drop, List.length_append, List.length_singleton] at hlen
  have hlong : ¬ m.records.length ≤ m.startRecord := by omega
  refine ⟨?_, by omega⟩
  have hlast := congrArg List.getLast? hlog
  rwa [logFrom, List.getLast?_drop, if_neg hlong, List.getLast?_concat] at hlast

theorem length_records :
    m.records.length = (m.segmentRecords m.logStartInfo.segmentStartIndex
      (m.currentStart - m.logStartInfo.segmentStartIndex).toNat).length + m.current.length := by
  rw [records, List.length_append]

/-- On a nonempty log, `GetLastCommitLogOffsetV2` answers the last record at its own position:
record `k` of file `i`, with the rest of the log before it. -/
theorem Valid.getLastCommitLogOffsetV2_of_last {N : Nat} (hv : m.Valid N)
    {xs : List CommitLogData} {l : CommitLogData} (hlog : m.logFrom = xs ++ [l]) :
    ∃ (i : Int) (k : Nat), m.getLastCommitLogOffsetV2.2 = .ok (i, logDataSize * k, l) ∧
      m.InLog i k ∧ (m.fileAt i)[k]? = some l ∧ m.posIndex i k = xs.length := by
  obtain ⟨hlast, hcount⟩ := getLast?_records_of_logFrom hlog
  have hid : l.logID = m.pLogID := by
    rw [hv.pLogID_eq, hlog, lastLogID_append_singleton]
  have hrecs := length_records (m := m)
  have hN := hv.startRecord_lt
  unfold getLastCommitLogOffsetV2
  rw [flushCommitLogsNoLock_eq]
  dsimp only
  by_cases hcur : m.current = []
  · -- a current file without records: the log ends in the previous segment file
    have hs : m.logStartInfo.segmentStartIndex ≠ m.currentStart := by
      intro hs
      rw [hs, Int.sub_self, Int.toNat_zero, segmentRecords_zero, hcur, List.length_nil] at hrecs
      omega
    have hlt : m.logStartInfo.segmentStartIndex < m.currentStart := lt_of_le_of_ne hv.start_le hs
    obtain ⟨seg, hseg, hlen⟩ := hv.segment_full (m.currentStart - 1) (by omega) (by omega)
    have hne : seg ≠ [] := List.ne_nil_of_length_pos (by omega)
    have hsucc : (m.currentStart - m.logStartInfo.segmentStartIndex).toNat =
        (m.currentStart - 1 - m.logStartInfo.segmentStartIndex).toNat + 1 := by omega
    have hprev : m.logStartInfo.segmentStartIndex +
        ((m.currentStart - 1 - m.logStartInfo.segmentStartIndex).toNat : Int) =
          m.currentStart - 1 := by omega
    have hsplit : m.records = m.segmentRecords m.logStartInfo.segmentStartIndex
        (m.currentStart - 1 - m.logStartInfo.segmentStartIndex).toNat ++ seg := by
      rw [records, hsucc, segmentRecords_succ_right, hprev, hseg, Option.getD_some, hcur,
        List.append_nil]
    have hl : seg.getLast hne = l := by
      rw [hsplit, List.getLast?_append_of_ne_nil _ hne, List.getLast?_eq_some_getLast hne] at hlast
      exact Option.some_inj.mp hlast
    have hfile : m.fileAt (m.currentStart - 1) = seg := by
      rw [fileAt_of_lt (by omega), hseg, Option.getD_some]
    have hpos : m.InLog (m.currentStart - 1) (N - 1) := by
      refine ⟨by omega, by omega, ?_, fun _ => by omega⟩
      rw [hfile, hlen]
      exact Nat.sub_le N 1
    refine ⟨m.currentStart - 1, N - 1, ?_, hpos, ?_, ?_⟩
    · have hcast : (seg.length - 1 : Nat) = N - 1 := by rw [hlen]
      rw [if_pos (by rw [hcur]; rfl), if_neg (Ne.symm hs), hseg, getLastCommitLogData,
        getLastCommitLogDataFromFile_of_ne_nil hne, hl, hcast]
      dsimp only
      rw [if_pos hid]
    · rw [hfile, ← hlen, ← List.getLast?_eq_getElem?, List.getLast?_eq_some_getLast hne, hl]
    · have hrec := congrArg List.length hsplit
      rw [List.length_append, hlen] at hrec
      rw [posIndex, length_recordsBefore hpos]
      omega
  · -- the log ends in the current file, whose last record carries `pLogID`
    have hk : m.current.length - 1 < m.current.length :=
      Nat.sub_lt (List.length_pos_iff.mpr hcur) Nat.one_pos
    have hl : m.current[m.current.length - 1] = l := by
      rw [records, List.getLast?_append_of_ne_nil _ hcur, List.getLast?_eq_getElem?,
        List.getElem?_eq_getElem hk] at hlast
      exact Option.some_inj.mp hlast
    have hpos : m.InLog m.currentStart (m.current.length - 1) := by
      refine ⟨hv.start_le, le_rfl, by rw [fileAt_current]; exact Nat.sub_le _ 1, fun hs => ?_⟩
      rw [← hs, Int.sub_self, Int.toNat_zero, segmentRecords_zero, List.length_nil] at hrecs
      omega
    refine ⟨m.currentStart, m.current.length - 1, ?_, hpos, ?_, ?_⟩
    · rw [if_neg (by rwa [List.length_eq_zero_iff]),
        findLastOffset_of_getElem hk (by rw [hl, hid]), hl]
    · rw [fileAt_current, List.getElem?_eq_getElem hk, hl]
    · rw [posIndex, length_recordsBefore hpos]
      omega

end TopicCommitLogMgr

end Nsq
