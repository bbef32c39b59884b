import Nsq.CommitLog.Clean

/-!
# The commit log invariant over runs

Every operation keeps `Valid`: the layout of the files, and the chain of the log's ID ranges up to
the last IDs. Each changes the log in one of four ways: flushing, resizing the buffer, `NextID` and
`GetLastCommitLogOffsetV2` leave it as it is; an accepted `AppendCommitLog` appends its record;
`TruncateToOffsetV2` at a position of the log keeps the records before it; and `CleanOldData`
there, when it cleans, keeps those after it.

`LogRun N K m log` says that `m` is reached from `InitTopicCommitLogMgr` by these operations, with
`LOGROTATE_NUM = N` and `MIN_KEEP_LOG_ITEM = K`, and that `log` is the records they wrote and did
not cut off. An appended record must start after the last record's `LastMsgLogID`, and a leader's
must end at most at `nLogID`, as a record whose IDs the leader took from `NextID` does:
`AppendCommitLog` itself only compares the record's `LogID` with `pLogID`.
-/

namespace Nsq

namespace TopicCommitLogMgr

variable {m t : TopicCommitLogMgr} {N : Nat}

/-! ## Keeping the log -/

theorem SameLog.startRecord (h : SameLog t m) : t.startRecord = m.startRecord := by
  rw [TopicCommitLogMgr.startRecord, TopicCommitLogMgr.startRecord, h.logStartInfo]

theorem Layout.of_sameLog (hv : m.Layout N) (h : SameLog t m)
    (hb : t.committedLogs.length ≤ t.commitCap) : t.Layout N where
  start_le := by rw [h.logStartInfo, h.currentStart]; exact hv.start_le
  start_offset := by rw [h.logStartInfo, h.startRecord]; exact hv.start_offset
  startRecord_lt := by rw [h.startRecord]; exact hv.startRecord_lt
  start_in_current := by
    rw [h.logStartInfo, h.currentStart, h.startRecord, h.current]; exact hv.start_in_current
  segment_full := by rw [h.logStartInfo, h.currentStart, h.segments]; exact hv.segment_full
  count_eq := by rw [h.currentCount, h.current]; exact hv.count_eq
  current_le := by rw [h.current]; exact hv.current_le
  committed_le := hb

/-- A state with the same log and a `nLogID` no lower keeps the invariant. -/
theorem Valid.of_sameLog (hv : m.Valid N) (h : SameLog t m)
    (hb : t.committedLogs.length ≤ t.commitCap) (hn : m.nLogID ≤ t.nLogID) : t.Valid N where
  toLayout := hv.toLayout.of_sameLog h hb
  chained := by rw [h.logFrom]; exact hv.chained
  pLogID_eq := by rw [h.pLogID, h.logFrom]; exact hv.pLogID_eq
  nLogID_ge := by
    rw [h.logFrom]
    exact fun l hl => Int.le_trans (hv.nLogID_ge l hl) hn

/-! ## Appending -/

/-- Records written after the current ones extend the log. -/
theorem Layout.logFrom_of_records (hv : m.Layout N) {ys : List CommitLogData}
    (hstart : t.logStartInfo = m.logStartInfo) (hrec : t.records = m.records ++ ys) :
    t.logFrom = m.logFrom ++ ys := by
  rw [logFrom, hrec, startRecord, hstart]
  exact hv.drop_records_append ys

/-- A state whose log is the old one with a record appended, `pLogID` that record's `LogID` and
`nLogID` at least its `LastMsgLogID`, keeps the invariant when the record starts after the last
record's range. -/
theorem Valid.of_append (hv : m.Valid N) {l : CommitLogData} (ht : t.Layout N)
    (hlog : t.logFrom = m.logFrom ++ [l]) (hid : t.pLogID = l.logID)
    (hn : l.lastMsgLogID ≤ t.nLogID) (hrange : l.logID ≤ l.lastMsgLogID)
    (hchain : ∀ p ∈ m.logFrom.getLast?, p.lastMsgLogID < l.logID) : t.Valid N where
  toLayout := ht
  chained := by rw [hlog]; exact hv.chained.append_singleton hrange hchain
  pLogID_eq := by rw [hlog, lastLogID_append_singleton, hid]
  nLogID_ge := by
    rw [hlog, List.getLast?_concat]
    intro p hp
    rw [← Option.mem_some_iff.mp hp]
    exact hn

section Append

variable {l : CommitLogData}

/-- Rotation: the full current file becomes segment `currentStart`, and the record starts a new
current file. -/
theorem Layout.rotated (hv : m.Layout N) (hfull : m.current.length = N)
    (hseg : t.segments = Function.update m.segments m.currentStart (some m.current))
    (hcs : t.currentStart = m.currentStart + 1) (hstart : t.logStartInfo = m.logStartInfo)
    (hcur : t.current = [l]) (hcnt : t.currentCount = 1)
    (hb : t.committedLogs.length ≤ t.commitCap) :
    t.Layout N ∧ t.logFrom = m.logFrom ++ [l] := by
  have hs := hv.start_le
  have hprefix : t.segmentRecords m.logStartInfo.segmentStartIndex
      (m.currentStart - m.logStartInfo.segmentStartIndex).toNat =
        m.segmentRecords m.logStartInfo.segmentStartIndex
          (m.currentStart - m.logStartInfo.segmentStartIndex).toNat :=
    segmentRecords_congr fun x _ hx => by rw [hseg, Function.update_of_ne (by omega)]
  have hsucc : (t.currentStart - t.logStartInfo.segmentStartIndex).toNat =
      (m.currentStart - m.logStartInfo.segmentStartIndex).toNat + 1 := by
    rw [hcs, hstart]
    omega
  have hlast : m.logStartInfo.segmentStartIndex +
      ((m.currentStart - m.logStartInfo.segmentStartIndex).toNat : Int) = m.currentStart := by
    omega
  have hrec : t.records = m.records ++ [l] := by
    rw [records, hsucc, hstart, segmentRecords_succ_right, hprefix, hlast, hseg,
      Function.update_self, Option.getD_some, hcur, records, List.append_assoc]
  refine ⟨⟨?_, ?_, ?_, ?_, ?_, ?_, ?_, hb⟩, hv.logFrom_of_records hstart hrec⟩
  · rw [hstart, hcs]
    exact Int.le_add_one hs
  · rw [startRecord, hstart]
    exact hv.start_offset
  · rw [startRecord, hstart]
    exact hv.startRecord_lt
  · rw [hstart, hcs]
    intro h
    omega
  · -- the segments below the new current file: the old ones, and the file just rotated
    rw [hstart, hcs, hseg]
    intro x hx hx'
    by_cases hxc : x = m.currentStart
    · rw [hxc, Function.update_self]
      exact ⟨m.current, rfl, hfull⟩
    · rw [Function.update_of_ne hxc]
      exact hv.segment_full x hx (by omega)
  · rw [hcnt, hcur]
    rfl
  · rw [hcur]
    exact Nat.lt_of_le_of_lt (Nat.zero_le _) hv.startRecord_lt

/-- Without rotation the record goes after the current ones. -/
theorem Layout.appended (hv : m.Layout N) (hroom : m.current.length < N)
    (hseg : t.segments = m.segments) (hcs : t.currentStart = m.currentStart)
    (hstart : t.logStartInfo = m.logStartInfo) (hcur : t.current = m.current ++ [l])
    (hcnt : t.currentCount = m.currentCount + 1) (hb : t.committedLogs.length ≤ t.commitCap) :
    t.Layout N ∧ t.logFrom = m.logFrom ++ [l] := by
  have hrec : t.records = m.records ++ [l] := by
    rw [records, records, hstart, hcs, hcur, List.append_assoc]
    congr 1
    exact segmentRecords_congr fun x _ _ => by rw [hseg]
  refine ⟨⟨?_, ?_, ?_, ?_, ?_, ?_, ?_, hb⟩, hv.logFrom_of_records hstart hrec⟩
  · rw [hstart, hcs]
    exact hv.start_le
  · rw [startRecord, hstart]
    exact hv.start_offset
  · rw [startRecord, hstart]
    exact hv.startRecord_lt
  · rw [hstart, hcs, startRecord, hstart, hcur, List.length_append]
    intro h
    exact Nat.le_add_right_of_le (hv.start_in_current h)
  · rw [hstart, hcs, hseg]
    exact hv.segment_full
  · rw [hcnt, hcur, List.length_append, List.length_singleton, hv.count_eq]
    rfl
  · rw [hcur, List.length_append, List.length_singleton]
    exact hroom

variable {slave : Bool}

/-- An accepted append keeps the layout and writes its record at the end of the log; it leaves the
log start, and sets the last IDs from the record. -/
theorem Layout.appendCommitLog (hv : m.Layout N) (hacc : (m.appendCommitLog N l slave).2 = none) :
    (m.appendCommitLog N l slave).1.Layout N ∧
      (m.appendCommitLog N l slave).1.logFrom = m.logFrom ++ [l] ∧
      (m.appendCommitLog N l slave).1.logStartInfo = m.logStartInfo ∧
      (m.appendCommitLog N l slave).1.pLogID = l.logID ∧
      (m.appendCommitLog N l slave).1.nLogID = (if slave then l.lastMsgLogID + 1 else m.nLogID) := by
  obtain ⟨hid, hrange⟩ := appendCommitLog_accepted hacc
  have hcount := hv.count_eq
  have hle := hv.current_le
  by_cases hrot : (N : Int) ≤ m.currentCount
  · obtain ⟨t, heq, hseg, hcs, hstart, hcur, hcnt, hp, hnt, hb⟩ :=
      appendCommitLog_rotate slave hid hrange hrot
    obtain ⟨hlayout, hlog⟩ := hv.rotated (by omega) hseg hcs hstart hcur hcnt hb
    rw [heq]
    exact ⟨hlayout, hlog, hstart, hp, hnt⟩
  · obtain ⟨t, heq, hseg, hcs, hstart, hcur, hcnt, hp, hnt, hb⟩ :=
      appendCommitLog_keep slave hid hrange hv.committed_le hrot
    obtain ⟨hlayout, hlog⟩ := hv.appended (by omega) hseg hcs hstart hcur hcnt hb
    rw [heq]
    exact ⟨hlayout, hlog, hstart, hp, hnt⟩

/-- An accepted append keeps the invariant and writes its record at the end of the log. -/
theorem Valid.appendCommitLog (hv : m.Valid N) (hacc : (m.appendCommitLog N l slave).2 = none)
    (hchain : ∀ p ∈ m.logFrom.getLast?, p.lastMsgLogID < l.logID)
    (hmaster : slave = false → l.lastMsgLogID ≤ m.nLogID) :
    (m.appendCommitLog N l slave).1.Valid N ∧
      (m.appendCommitLog N l slave).1.logFrom = m.logFrom ++ [l] := by
  obtain ⟨-, hrange⟩ := appendCommitLog_accepted hacc
  obtain ⟨hlayout, hlog, -, hp, hnt⟩ := hv.toLayout.appendCommitLog hacc
  have hn : l.lastMsgLogID ≤ (m.appendCommitLog N l slave).1.nLogID := by
    rw [hnt]
    cases slave with
    | true => exact Int.le_of_lt (Int.lt_succ _)
    | false => exact hmaster rfl
  exact ⟨hv.of_append hlayout hlog hp hn hrange hchain, hlog⟩

end Append

/-! ## Truncating -/

section Truncate

variable {i : Int} {k : Nat}

/-- The cut keeps the layout: file `i`, cut after `k` records, is the current one. -/
theorem Layout.cutAt (hv : m.Layout N) (hp : m.InLog i k) : (m.cutAt i k).Layout N := by
  have hlen : ((m.fileAt i).take k).length = k := by
    rw [List.length_take, Nat.min_eq_left hp.le_length]
  refine ⟨?_, ?_, ?_, ?_, ?_, ?_, ?_, Nat.zero_le _⟩
  · rw [cutAt_logStartInfo, cutAt_currentStart]
    exact hp.start_le
  · rw [cutAt_logStartInfo, cutAt_startRecord]
    exact hv.start_offset
  · rw [cutAt_startRecord]
    exact hv.startRecord_lt
  · rw [cutAt_logStartInfo, cutAt_currentStart, cutAt_startRecord, cutAt_current, hlen]
    exact fun h => hp.start_le_record h.symm
  · rw [cutAt_logStartInfo, cutAt_currentStart]
    intro x hx hx'
    rw [cutAt_segments_of_lt hx']
    exact hv.segment_full x hx (Int.lt_of_lt_of_le hx' hp.le_current)
  · rw [cutAt_current, hlen]
    rfl
  · rw [cutAt_current, hlen]
    exact Nat.le_trans hp.le_length (hv.length_fileAt_le hp.start_le hp.le_current)

/-- Setting the last IDs touches neither the files nor the log start. -/
theorem Layout.setLast {u : TopicCommitLogMgr} (hu : u.Layout N) (o : Option CommitLogData) :
    (u.setLast o).1.Layout N := by
  cases o with
  | none => exact ⟨hu.1, hu.2, hu.3, hu.4, hu.5, hu.6, hu.7, hu.8⟩
  | some l => exact ⟨hu.1, hu.2, hu.3, hu.4, hu.5, hu.6, hu.7, hu.8⟩

theorem setLast_logFrom {u : TopicCommitLogMgr} (o : Option CommitLogData) :
    (u.setLast o).1.logFrom = u.logFrom := by
  have hsegs : (u.setLast o).1.segments = u.segments := by
    cases o <;> rfl
  unfold logFrom records
  rw [segmentRecords_congr fun j _ _ => congrFun hsegs j]
  cases o <;> rfl

/-- Set from the last record of the log, the last IDs are that record's: `pLogID` its `LogID`
(0 without one), and `nLogID` at least its `LastMsgLogID`. -/
theorem setLast_ids (u : TopicCommitLogMgr) :
    (u.setLast u.logFrom.getLast?).1.pLogID = lastLogID u.logFrom ∧
      ∀ l ∈ u.logFrom.getLast?, l.lastMsgLogID ≤ (u.setLast u.logFrom.getLast?).1.nLogID := by
  unfold lastLogID
  cases h : u.logFrom.getLast? with
  | none => exact ⟨rfl, fun l hl => absurd hl (Option.not_mem_none l)⟩
  | some l =>
    refine ⟨rfl, fun p hp => ?_⟩
    rw [← Option.mem_some_iff.mp hp]
    show l.lastMsgLogID ≤ if l.lastMsgLogID + 1 > u.nLogID then l.lastMsgLogID + 1 else u.nLogID
    split <;> omega

/-- `TruncateToOffsetV2` at a position of the log keeps the invariant and the log records before
the position. -/
theorem Valid.truncateToOffsetV2 (hv : m.Valid N) (hp : m.InLog i k) :
    (m.truncateToOffsetV2 i (logDataSize * k)).1.Valid N ∧
      (m.truncateToOffsetV2 i (logDataSize * k)).1.logFrom = m.logFrom.take (m.posIndex i k) := by
  have hlog := hv.logFrom_cutAt hp
  obtain ⟨hid, hn⟩ := setLast_ids (m.cutAt i k)
  rw [hv.truncateToOffsetV2_eq hp]
  refine ⟨⟨(hv.cutAt hp).setLast _, ?_, ?_, ?_⟩, ?_⟩
  · rw [setLast_logFrom, hlog]
    exact hv.chained.take _
  · rw [setLast_logFrom]
    exact hid
  · rw [setLast_logFrom]
    exact hn
  · rw [setLast_logFrom, hlog]

end Truncate

/-! ## Cleaning -/

section Clean

variable {i : Int} {k : Nat} {segs : Int → Option (List CommitLogData)}

theorem cleanedStart_of_end (hend : i < m.currentStart ∧ k = (m.fileAt i).length) :
    (m.cleanedStart i k).segmentStartIndex = i + 1 ∧ (m.cleanedStart i k).segmentStartOffset = 0 := by
  rw [cleanedStart, if_pos hend]
  exact ⟨rfl, rfl⟩

theorem cleanedStart_of_not_end (hend : ¬ (i < m.currentStart ∧ k = (m.fileAt i).length)) :
    (m.cleanedStart i k).segmentStartIndex = i ∧
      (m.cleanedStart i k).segmentStartOffset = logDataSize * k := by
  rw [cleanedStart, if_neg hend]
  exact ⟨rfl, rfl⟩

/-- Cleaning keeps the layout, when records stay in the current file after a position in it. -/
theorem Layout.cleanedTo (hv : m.Layout N) (hp : m.InLog i k)
    (hsegs : ∀ x, i - 1 ≤ x → segs x = m.segments x)
    (hcur : i = m.currentStart → k < m.current.length) : (m.cleanedTo segs i k).Layout N := by
  by_cases hend : i < m.currentStart ∧ k = (m.fileAt i).length
  · -- the log start moves to the start of the next file
    obtain ⟨hidx, hoff⟩ := cleanedStart_of_end hend
    have hzero : (m.cleanedTo segs i k).startRecord = 0 := by
      rw [startRecord, cleanedTo_logStartInfo, hoff, Int.zero_ediv, Int.toNat_zero]
    refine ⟨?_, ?_, ?_, ?_, ?_, hv.count_eq, hv.current_le, hv.committed_le⟩
    · rw [cleanedTo_logStartInfo, cleanedTo_currentStart, hidx]
      exact Int.add_one_le_of_lt hend.1
    · rw [hzero, cleanedTo_logStartInfo, hoff]
      rfl
    · rw [hzero]
      exact Nat.lt_of_le_of_lt (Nat.zero_le _) hv.startRecord_lt
    · rw [hzero]
      exact fun _ => Nat.zero_le _
    · rw [cleanedTo_logStartInfo, cleanedTo_currentStart, cleanedTo_segments, hidx]
      intro x hx hx'
      rw [hsegs x (by omega)]
      exact hv.segment_full x (by have := hp.start_le; omega) hx'
  · -- the log start moves to the position
    obtain ⟨hidx, hoff⟩ := cleanedStart_of_not_end hend
    have hpos : (m.cleanedTo segs i k).startRecord = k := by
      rw [startRecord, cleanedTo_logStartInfo, hoff, div_logDataSize]
    refine ⟨?_, ?_, ?_, ?_, ?_, hv.count_eq, hv.current_le, hv.committed_le⟩
    · rw [cleanedTo_logStartInfo, cleanedTo_currentStart, hidx]
      exact hp.le_current
    · rw [hpos, cleanedTo_logStartInfo, hoff]
    · -- short of a segment file's end, or before the end of the current file
      rw [hpos]
      rcases Int.lt_or_eq_of_le hp.le_current with hc | hc
      · have hfull := hv.length_fileAt_le hp.start_le hp.le_current
        have hne : k ≠ (m.fileAt i).length := fun h => hend ⟨hc, h⟩
        exact Nat.lt_of_lt_of_le (Nat.lt_of_le_of_ne hp.le_length hne) hfull
      · exact Nat.lt_of_lt_of_le (hcur hc) hv.current_le
    · rw [hpos, cleanedTo_logStartInfo, cleanedTo_currentStart, cleanedTo_current, hidx]
      intro hc
      have hk := hp.le_length
      rwa [hc, fileAt_current] at hk
    · rw [cleanedTo_logStartInfo, cleanedTo_currentStart, cleanedTo_segments, hidx]
      intro x hx hx'
      rw [hsegs x (by omega)]
      exact hv.segment_full x (Int.le_trans hp.start_le hx) hx'

/-- `CleanOldData` at a position of the log, when it cleans with `MIN_KEEP_LOG_ITEM ≥ 0`, keeps
the layout and the last IDs, moves the log start to the position, and keeps the log records after
it, of which there is one at least. -/
theorem Layout.cleanOldData {K : Int} (hv : m.Layout N) (hp : m.InLog i k) (hK : 0 ≤ K)
    (hacc : (m.cleanOldData K i (logDataSize * k)).2 = none) :
    (m.cleanOldData K i (logDataSize * k)).1.Layout N ∧
      (m.cleanOldData K i (logDataSize * k)).1.logFrom = m.logFrom.drop (m.posIndex i k) ∧
      m.logFrom.drop (m.posIndex i k) ≠ [] ∧
      (m.cleanOldData K i (logDataSize * k)).1.logStartInfo = m.cleanedStart i k ∧
      (m.cleanOldData K i (logDataSize * k)).1.pLogID = m.pLogID ∧
      (m.cleanOldData K i (logDataSize * k)).1.nLogID = m.nLogID := by
  rcases hv.cleanOldData_eq (K := K) hp with hrefuse | ⟨segs, hclean, hkeep, -, hcur, hprev⟩
  · rw [hrefuse] at hacc
    cases hacc
  · -- records stay after the position, in the current file when it is the position's
    have hne : m.logFrom.drop (m.posIndex i k) ≠ [] := by
      rw [hv.drop_posIndex hp]
      exact hv.recordsAfter_ne_nil hp hK hcur hprev
    have hcur' : i = m.currentStart → k < m.current.length := by
      intro hc
      have := hcur hc
      have := hv.count_eq
      omega
    rw [hclean]
    exact ⟨hv.cleanedTo hp hkeep hcur', by rw [logFrom_cleanedTo hp hkeep, hv.drop_posIndex hp],
      hne, rfl, rfl, rfl⟩

/-- `CleanOldData` at a position of the log, when it cleans with `MIN_KEEP_LOG_ITEM ≥ 0`, keeps
the invariant and the log records after the position. -/
theorem Valid.cleanOldData {K : Int} (hv : m.Valid N) (hp : m.InLog i k) (hK : 0 ≤ K)
    (hacc : (m.cleanOldData K i (logDataSize * k)).2 = none) :
    (m.cleanOldData K i (logDataSize * k)).1.Valid N ∧
      (m.cleanOldData K i (logDataSize * k)).1.logFrom = m.logFrom.drop (m.posIndex i k) := by
  obtain ⟨hlayout, hlog, hne, -, hpl, hnl⟩ := hv.toLayout.cleanOldData hp hK hacc
  -- the last record stays
  have hlast : (m.logFrom.drop (m.posIndex i k)).getLast? = m.logFrom.getLast? := by
    rw [List.getLast?_drop, if_neg fun h => hne (List.drop_eq_nil_of_le h)]
  refine ⟨⟨hlayout, ?_, ?_, ?_⟩, hlog⟩
  · rw [hlog]
    exact hv.chained.drop _
  · rw [hpl, hlog, lastLogID, hlast]
    exact hv.pLogID_eq
  · rw [hnl, hlog, hlast]
    exact hv.nLogID_ge

end Clean

/-! ## Runs -/

/-- A new commit log: no files, an empty log, and `pLogID = 0`. -/
theorem initTopicCommitLogMgr_valid {p : Int} {bufSize : Nat} (hN : 0 < N)
    (h : initTopicCommitLogMgr p bufSize = .ok m) : m.Valid N ∧ m.logFrom = [] := by
  unfold initTopicCommitLogMgr at h
  split at h
  · cases h
  · injection h with h
    subst h
    refine ⟨⟨⟨le_rfl, rfl, hN, fun _ => Nat.zero_le _, ?_, rfl, Nat.zero_le _, Nat.zero_le _⟩,
      RangeChain.chained_nil, rfl, fun l hl => absurd hl (Option.not_mem_none l)⟩, rfl⟩
    intro x hx hx'
    exact absurd hx' (Int.not_lt.mpr hx)

/-- The states runs of the commit log operations reach from `InitTopicCommitLogMgr`, with
`LOGROTATE_NUM = N` and `MIN_KEEP_LOG_ITEM = K`, each with the records the run wrote and did not
cut off. -/
inductive LogRun (N : Nat) (K : Int) : TopicCommitLogMgr → List CommitLogData → Prop
  | init {m : TopicCommitLogMgr} (p : Int) (bufSize : Nat) :
      initTopicCommitLogMgr p bufSize = .ok m → LogRun N K m []
  | flush {m log} : LogRun N K m log → LogRun N K m.flushCommitLogs log
  | switchForMaster {m log} (master : Bool) :
      LogRun N K m log → LogRun N K (m.switchForMaster master) log
  | nextID {m log} : LogRun N K m log → LogRun N K m.nextID.1 log
  | getLastCommitLogOffsetV2 {m log} :
      LogRun N K m log → LogRun N K m.getLastCommitLogOffsetV2.1 log
  /-- an accepted append of a record that starts after the last record's range, and for a leader
  ends at most at `nLogID` -/
  | append {m log} (l : CommitLogData) (slave : Bool) : LogRun N K m log →
      (m.appendCommitLog N l slave).2 = none →
      (∀ p ∈ log.getLast?, p.lastMsgLogID < l.logID) →
      (slave = false → l.lastMsgLogID ≤ m.nLogID) →
      LogRun N K (m.appendCommitLog N l slave).1 (log ++ [l])
  | truncate {m log} (i : Int) (k : Nat) : LogRun N K m log → m.InLog i k →
      LogRun N K (m.truncateToOffsetV2 i (logDataSize * k)).1 (log.take (m.posIndex i k))
  /-- a `CleanOldData` that cleans; one that refuses changes nothing -/
  | clean {m log} (i : Int) (k : Nat) : LogRun N K m log → m.InLog i k →
      (m.cleanOldData K i (logDataSize * k)).2 = none →
      LogRun N K (m.cleanOldData K i (logDataSize * k)).1 (log.drop (m.posIndex i k))

/-- Every state of a run keeps the invariant, and its log is the records the run wrote and did
not cut off. -/
theorem LogRun.valid {K : Int} {log : List CommitLogData} (hN : 0 < N) (hK : 0 ≤ K)
    (h : LogRun N K m log) : m.Valid N ∧ m.logFrom = log := by
  induction h with
  | init p bufSize hinit => exact initTopicCommitLogMgr_valid hN hinit
  | flush _ ih =>
    obtain ⟨hv, hlog⟩ := ih
    exact ⟨hv.of_sameLog sameLog_flushCommitLogsNoLock (Nat.zero_le _) le_rfl,
      sameLog_flushCommitLogsNoLock.logFrom.trans hlog⟩
  | switchForMaster master _ ih =>
    obtain ⟨hv, hlog⟩ := ih
    exact ⟨hv.of_sameLog (sameLog_switchForMaster master) (Nat.zero_le _) le_rfl,
      (sameLog_switchForMaster master).logFrom.trans hlog⟩
  | nextID _ ih =>
    obtain ⟨hv, hlog⟩ := ih
    exact ⟨hv.of_sameLog sameLog_nextID hv.committed_le (Int.le_add_one le_rfl),
      sameLog_nextID.logFrom.trans hlog⟩
  | getLastCommitLogOffsetV2 _ ih =>
    obtain ⟨hv, hlog⟩ := ih
    rw [getLastCommitLogOffsetV2_fst]
    exact ⟨hv.of_sameLog sameLog_flushCommitLogsNoLock (Nat.zero_le _) le_rfl,
      sameLog_flushCommitLogsNoLock.logFrom.trans hlog⟩
  | append l slave _ hacc hchain hmaster ih =>
    obtain ⟨hv, rfl⟩ := ih
    exact hv.appendCommitLog hacc hchain hmaster
  | truncate i k _ hp ih =>
    obtain ⟨hv, rfl⟩ := ih
    exact hv.truncateToOffsetV2 hp
  | clean i k _ hp hacc ih =>
    obtain ⟨hv, rfl⟩ := ih
    exact hv.cleanOldData hp hK hacc

/-! ## What the invariant gives -/

/-- Along the log the `LogID`s strictly increase. -/
theorem Valid.logID_lt (hv : m.Valid N) : m.logFrom.Pairwise fun a b => a.logID < b.logID :=
  hv.chained.pairwise_lo

/-- `NextID` answers an ID above every recorded range. -/
theorem Valid.lastMsgLogID_lt_nextID (hv : m.Valid N) :
    ∀ l ∈ m.logFrom, l.lastMsgLogID < m.nextID.2 := by
  intro l hl
  cases hb : m.logFrom.getLast? with
  | none =>
    rw [List.getLast?_eq_none_iff] at hb
    rw [hb] at hl
    exact absurd hl List.not_mem_nil
  | some b =>
    exact hv.chained.hi_lt_of_last hb (Int.lt_add_one_of_le (hv.nLogID_ge b hb)) l hl

/-- The commit log invariant over runs: the log, read from the log start through the segment
files and the current records, is the records the run wrote and did not cut off; their ID ranges
chain, so the `LogID`s strictly increase; `GetLastCommitLogID` is the last record's `LogID`;
`nLogID` reaches the last record's `LastMsgLogID`, so `NextID` answers no recorded ID;
`currentCount` counts the current records, flushed and buffered; each segment file from the log
start's holds `LOGROTATE_NUM` records; and `GetLastCommitLogOffsetV2` finds the last record at its
own position. -/
theorem commitLog_invariant {K : Int} {log : List CommitLogData} (hN : 0 < N) (hK : 0 ≤ K)
    (h : LogRun N K m log) :
    m.logFrom = log ∧
      RangeChain.Chained CommitLogData.logID CommitLogData.lastMsgLogID log ∧
      log.Pairwise (fun a b => a.logID < b.logID) ∧
      m.getLastCommitLogID = lastLogID log ∧
      (∀ l ∈ log.getLast?, l.lastMsgLogID ≤ m.nLogID) ∧
      (∀ l ∈ log, l.lastMsgLogID < m.nextID.2) ∧
      m.currentCount = m.current.length ∧
      (∀ i, m.logStartInfo.segmentStartIndex ≤ i → i < m.currentStart →
        ∃ seg, m.segments i = some seg ∧ seg.length = N) ∧
      (∀ xs l, log = xs ++ [l] → ∃ (i : Int) (k : Nat),
        m.getLastCommitLogOffsetV2.2 = .ok (i, logDataSize * k, l) ∧ m.InLog i k ∧
          (m.fileAt i)[k]? = some l) := by
  obtain ⟨hv, rfl⟩ := h.valid hN hK
  refine ⟨rfl, hv.chained, hv.logID_lt, hv.pLogID_eq, hv.nLogID_ge, hv.lastMsgLogID_lt_nextID,
    hv.count_eq, hv.segment_full, fun xs l hlog => ?_⟩
  obtain ⟨i, k, hres, hp, hat, -⟩ := hv.getLastCommitLogOffsetV2_of_last hlog
  exact ⟨i, k, hres, hp, hat⟩

/-- Three records appended with `LOGROTATE_NUM = 1` to a new log of partition 0, so that the
second and the third append rotate the first two into segments 0 and 1, then `CleanOldData` of
segment 0: the log is the last two records, from segment 1 on. -/
theorem commitLog_invariant_rotated_cleaned :
    ∃ m log, 0 < 1 ∧ (0 : Int) ≤ 0 ∧ LogRun 1 0 m log ∧
      log = [⟨2, 0, 2, 0, 0, 2, 1⟩, ⟨3, 0, 3, 0, 0, 3, 1⟩] ∧
      m.logStartInfo.segmentStartIndex = 1 ∧ m.currentStart = 2 ∧
      m.getLastCommitLogID = lastLogID log := by
  have h₀ : LogRun 1 0
      { partition := 0, nLogID := 1, pLogID := 0, segments := fun _ => none, appender := [],
        committedLogs := [], commitCap := 400, bufSize := 400, currentStart := 0,
        currentCount := 0, logStartInfo := ⟨0, 0, 0⟩ } [] := .init 0 400 rfl
  -- follower appends: each record starts after the last one's range
  have h₁ := LogRun.append ⟨1, 0, 1, 0, 0, 1, 1⟩ true h₀ rfl
    (fun p hp => absurd hp (Option.not_mem_none p)) (fun h => absurd h (by decide))
  have h₂ := LogRun.append ⟨2, 0, 2, 0, 0, 2, 1⟩ true h₁ rfl
    (fun p hp => by cases hp; decide) (fun h => absurd h (by decide))
  have h₃ := LogRun.append ⟨3, 0, 3, 0, 0, 3, 1⟩ true h₂ rfl
    (fun p hp => by cases hp; decide) (fun h => absurd h (by decide))
  -- clean up to the start of segment 1, where the second record is
  have h₄ := LogRun.clean 1 0 h₃
    ⟨by decide +kernel, by decide +kernel, by decide +kernel, fun _ => by decide +kernel⟩
    (by decide +kernel)
  exact ⟨_, _, by decide, le_rfl, h₄, by decide +kernel, by decide +kernel, by decide +kernel,
    (commitLog_invariant (by decide) le_rfl h₄).2.2.2.1⟩

/-- Acceptance alone does not keep the invariant. On a new log of partition 0, with the default
`LOGROTATE_NUM` and `MIN_KEEP_LOG_ITEM`: two follower records whose ranges overlap are both
accepted and break the chain; a leader record past `nLogID` is accepted and leaves `nLogID` below
it; and `CleanOldData` at a file index below the log start's succeeds, moves the log start past the
end, and leaves `GetLastCommitLogID` at the record it cut off. -/
theorem commitLog_invariant_fails :
    ∃ m, initTopicCommitLogMgr 0 400 = .ok m ∧
      ((m.appendCommitLog 2000000 ⟨10, 0, 20, 0, 0, 1, 1⟩ true).2 = none ∧
        ((m.appendCommitLog 2000000 ⟨10, 0, 20, 0, 0, 1, 1⟩ true).1.appendCommitLog 2000000
          ⟨15, 0, 15, 0, 0, 2, 1⟩ true).2 = none ∧
        ¬ RangeChain.Chained CommitLogData.logID CommitLogData.lastMsgLogID
          ((m.appendCommitLog 2000000 ⟨10, 0, 20, 0, 0, 1, 1⟩ true).1.appendCommitLog 2000000
            ⟨15, 0, 15, 0, 0, 2, 1⟩ true).1.logFrom) ∧
      ((m.appendCommitLog 2000000 ⟨5, 0, 5, 0, 0, 1, 1⟩ false).2 = none ∧
        (m.appendCommitLog 2000000 ⟨5, 0, 5, 0, 0, 1, 1⟩ false).1.nLogID < 5) ∧
      (((m.appendCommitLog 2000000 ⟨1, 0, 1, 0, 0, 1, 1⟩ false).1.cleanOldData 1000 (-2) 240).2 =
          none ∧
        ((m.appendCommitLog 2000000 ⟨1, 0, 1, 0, 0, 1, 1⟩ false).1.cleanOldData 1000 (-2)
          240).1.logFrom = [] ∧
        ((m.appendCommitLog 2000000 ⟨1, 0, 1, 0, 0, 1, 1⟩ false).1.cleanOldData 1000 (-2)
          240).1.getLastCommitLogID = 1) := by
  refine ⟨
    { partition := 0, nLogID := 1, pLogID := 0, segments := fun _ => none, appender := [],
      committedLogs := [], commitCap := 400, bufSize := 400, currentStart := 0,
      currentCount := 0, logStartInfo := ⟨0, 0, 0⟩ }, rfl, by decide, by decide, ?_⟩
  -- the clean passes no segment file: its index lies below the log start's
  have happend : (({
      partition := 0, nLogID := 1, pLogID := 0, segments := fun _ => none, appender := [],
      committedLogs := [], commitCap := 400, bufSize := 400, currentStart := 0,
      currentCount := 0, logStartInfo := ⟨0, 0, 0⟩ } : TopicCommitLogMgr).appendCommitLog 2000000
        ⟨1, 0, 1, 0, 0, 1, 1⟩ false).1 =
      { partition := 0, nLogID := 1, pLogID := 1, segments := fun _ => none, appender := [],
        committedLogs := [⟨1, 0, 1, 0, 0, 1, 1⟩], commitCap := 400, bufSize := 400,
        currentStart := 0, currentCount := 1, logStartInfo := ⟨0, 0, 0⟩ } := rfl
  rw [happend, cleanOldData, show cleanKeepCheck _ 1000 (-2) 240 = none by decide, cleanTo]
  dsimp only
  rw [cleanSegments_of_le (by decide)]
  decide

end TopicCommitLogMgr

end Nsq
