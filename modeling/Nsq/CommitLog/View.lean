import Nsq.CommitLog.Files
import Nsq.Lib.RangeChain
import Mathlib.Data.Int.Order.Basic

/-!
# The log from its start

What the files of a `TopicCommitLogMgr` hold, read in order: the segment files from the log
start's segment up to `currentStart`, then the current records, the file's and the buffered
ones (`current`). `records` is that sequence from the first record of the log start's segment;
the log (`logFrom`) drops the `startRecord` records before the log start from it.

A position is a record boundary `k` of a file `i` (byte offset `logDataSize * k`). `InLog` says it
lies between the log start and the end. It splits `records` into `recordsBefore` and
`recordsAfter` (`records_eq`), and `posIndex` counts the log records before it. Truncating at a
position keeps the log records before it, and cleaning drops them.

`Valid N` is the state invariant with `LOGROTATE_NUM = N`. Its `Layout` part is about the files:
each segment file from the log start's holds `N` records, the log start is a record boundary
inside its segment, the current file holds `currentCount ≤ N` records. The rest is about the IDs:
the records of the log chain their ID ranges, `pLogID` is the last record's `LogID` and `nLogID`
reaches the last record's `LastMsgLogID`.
-/

namespace Nsq

/-- The `LogID` of the last record, 0 without one. -/
def lastLogID (ls : List CommitLogData) : Int := (ls.getLast?.map CommitLogData.logID).getD 0

@[simp] theorem lastLogID_nil : lastLogID [] = 0 := rfl

@[simp] theorem lastLogID_append_singleton (ls : List CommitLogData) (l : CommitLogData) :
    lastLogID (ls ++ [l]) = l.logID := by
  simp [lastLogID]

namespace TopicCommitLogMgr

variable (m : TopicCommitLogMgr)

/-- The records of the current segment: those in the file and those still buffered. -/
def current : List CommitLogData := m.appender ++ m.committedLogs

/-- The records of `n` segment files from index `i` on; a missing file reads as empty. -/
def segmentRecords : Int → Nat → List CommitLogData
  | _, 0 => []
  | i, n + 1 => (m.segments i).getD [] ++ segmentRecords (i + 1) n

/-- The records of the log start's segment that lie before the log start. -/
def startRecord : Nat := (m.logStartInfo.segmentStartOffset / logDataSize).toNat

/-- The records from the first one of the log start's segment to the end. -/
def records : List CommitLogData :=
  m.segmentRecords m.logStartInfo.segmentStartIndex
      (m.currentStart - m.logStartInfo.segmentStartIndex).toNat ++ m.current

/-- The log: the records from the log start to the end. -/
def logFrom : List CommitLogData := m.records.drop m.startRecord

/-- The records of file `i`: the current ones at `currentStart`, else the segment file's. -/
def fileAt (i : Int) : List CommitLogData :=
  if i = m.currentStart then m.current else (m.segments i).getD []

/-- The records before record `k` of file `i`, from the first one of the log start's segment. -/
def recordsBefore (i : Int) (k : Nat) : List CommitLogData :=
  m.segmentRecords m.logStartInfo.segmentStartIndex (i - m.logStartInfo.segmentStartIndex).toNat ++
    (m.fileAt i).take k

/-- The records from record `k` of file `i` to the end. -/
def recordsAfter (i : Int) (k : Nat) : List CommitLogData :=
  if i < m.currentStart then
    ((m.segments i).getD []).drop k ++
      m.segmentRecords (i + 1) (m.currentStart - i - 1).toNat ++ m.current
  else m.current.drop k

/-- The number of log records before record `k` of file `i`. -/
def posIndex (i : Int) (k : Nat) : Nat := (m.recordsBefore i k).length - m.startRecord

/-- Record `k` of file `i` lies between the log start and the end. -/
structure InLog (i : Int) (k : Nat) : Prop where
  start_le : m.logStartInfo.segmentStartIndex ≤ i
  le_current : i ≤ m.currentStart
  le_length : k ≤ (m.fileAt i).length
  start_le_record : i = m.logStartInfo.segmentStartIndex → m.startRecord ≤ k

/-- How rotation lays out the files, with `LOGROTATE_NUM = N`: the log start is a record boundary
of its segment, each segment file from it on holds `N` records, the current file at most `N`, and
the buffer stays within its capacity. -/
structure Layout (N : Nat) : Prop where
  start_le : m.logStartInfo.segmentStartIndex ≤ m.currentStart
  start_offset : m.logStartInfo.segmentStartOffset = logDataSize * m.startRecord
  startRecord_lt : m.startRecord < N
  start_in_current :
    m.logStartInfo.segmentStartIndex = m.currentStart → m.startRecord ≤ m.current.length
  segment_full : ∀ i, m.logStartInfo.segmentStartIndex ≤ i → i < m.currentStart →
    ∃ seg, m.segments i = some seg ∧ seg.length = N
  count_eq : m.currentCount = m.current.length
  current_le : m.current.length ≤ N
  committed_le : m.committedLogs.length ≤ m.commitCap

/-- The commit log invariant: the layout, and the log's records chain their ID ranges up to the
last IDs. -/
structure Valid (N : Nat) : Prop extends m.Layout N where
  chained : RangeChain.Chained CommitLogData.logID CommitLogData.lastMsgLogID m.logFrom
  pLogID_eq : m.pLogID = lastLogID m.logFrom
  nLogID_ge : ∀ l ∈ m.logFrom.getLast?, l.lastMsgLogID ≤ m.nLogID

/-! ## The segment files in order -/

variable {m}

@[simp] theorem segmentRecords_zero (i : Int) : m.segmentRecords i 0 = [] := rfl

theorem segmentRecords_succ (i : Int) (n : Nat) :
    m.segmentRecords i (n + 1) = (m.segments i).getD [] ++ m.segmentRecords (i + 1) n := rfl

/-- Only the files read decide what is read. -/
theorem segmentRecords_congr {t : TopicCommitLogMgr} {i : Int} {n : Nat}
    (h : ∀ j, i ≤ j → j < i + n → t.segments j = m.segments j) :
    t.segmentRecords i n = m.segmentRecords i n := by
  induction n generalizing i with
  | zero => rfl
  | succ n ih =>
    have hhead : t.segments i = m.segments i := h i le_rfl (by omega)
    have htail : t.segmentRecords (i + 1) n = m.segmentRecords (i + 1) n :=
      ih fun j hj hj' => h j (by omega) (by omega)
    rw [segmentRecords_succ, segmentRecords_succ, hhead, htail]

theorem segmentRecords_add (i : Int) (a b : Nat) :
    m.segmentRecords i (a + b) = m.segmentRecords i a ++ m.segmentRecords (i + a) b := by
  induction a generalizing i with
  | zero => simp
  | succ a ih =>
    rw [Nat.add_right_comm, segmentRecords_succ, segmentRecords_succ, ih, List.append_assoc]
    congr 3
    omega

/-- The last of `n + 1` segment files. -/
theorem segmentRecords_succ_right (i : Int) (n : Nat) :
    m.segmentRecords i (n + 1) = m.segmentRecords i n ++ (m.segments (i + n)).getD [] := by
  rw [segmentRecords_add, segmentRecords_succ, segmentRecords_zero, List.append_nil]

theorem length_segmentRecords {N : Nat} {i : Int} {n : Nat}
    (hfull : ∀ j, i ≤ j → j < i + n → ∃ seg, m.segments j = some seg ∧ seg.length = N) :
    (m.segmentRecords i n).length = n * N := by
  induction n generalizing i with
  | zero => simp
  | succ n ih =>
    obtain ⟨seg, hseg, hlen⟩ := hfull i le_rfl (by omega)
    have htail := ih (i := i + 1) fun j hj hj' => hfull j (by omega) (by omega)
    rw [segmentRecords_succ, List.length_append, hseg, Option.getD_some, hlen, htail,
      Nat.succ_mul, Nat.add_comm]

/-! ## Positions -/

theorem fileAt_current : m.fileAt m.currentStart = m.current := if_pos rfl

theorem fileAt_of_lt {i : Int} (h : i < m.currentStart) : m.fileAt i = (m.segments i).getD [] :=
  if_neg (Int.ne_of_lt h)

/-- A position splits the records from the log start's segment in two. -/
theorem records_eq {i : Int} {k : Nat} (hp : m.InLog i k) :
    m.records = m.recordsBefore i k ++ m.recordsAfter i k := by
  have hsplit : (m.currentStart - m.logStartInfo.segmentStartIndex).toNat =
      (i - m.logStartInfo.segmentStartIndex).toNat + (m.currentStart - i).toNat := by
    have := hp.start_le
    have := hp.le_current
    omega
  have hmid : m.logStartInfo.segmentStartIndex + ((i - m.logStartInfo.segmentStartIndex).toNat : Int)
      = i := by
    have := hp.start_le
    omega
  unfold records recordsBefore recordsAfter
  rw [hsplit, segmentRecords_add, hmid]
  rcases Int.lt_or_eq_of_le hp.le_current with hlt | heq
  · -- inside a segment file: it is the first of the files from `i` on
    have hsucc : (m.currentStart - i).toNat = (m.currentStart - i - 1).toNat + 1 := by omega
    rw [if_pos hlt, hsucc, segmentRecords_succ, fileAt_of_lt hlt]
    conv_lhs => rw [← List.take_append_drop k ((m.segments i).getD [])]
    simp only [List.append_assoc]
  · -- inside the current file
    subst heq
    rw [if_neg (Int.lt_irrefl _), Int.sub_self, Int.toNat_zero, segmentRecords_zero,
      List.append_nil, fileAt_current, List.append_assoc, List.take_append_drop]

/-! ## Consequences of the invariant -/

variable {N : Nat}

theorem length_recordsBefore {i : Int} {k : Nat} (hp : m.InLog i k) :
    (m.recordsBefore i k).length =
      (m.segmentRecords m.logStartInfo.segmentStartIndex
        (i - m.logStartInfo.segmentStartIndex).toNat).length + k := by
  rw [recordsBefore, List.length_append, List.length_take, Nat.min_eq_left hp.le_length]

/-- Past the log start's segment, which holds `N` records, the log start lies behind. -/
theorem Layout.startRecord_lt_segmentRecords (hv : m.Layout N) {i : Int}
    (hs : m.logStartInfo.segmentStartIndex < i) (hc : i ≤ m.currentStart) :
    m.startRecord < (m.segmentRecords m.logStartInfo.segmentStartIndex
      (i - m.logStartInfo.segmentStartIndex).toNat).length := by
  obtain ⟨seg, hseg, hlen⟩ := hv.segment_full _ le_rfl (Int.lt_of_lt_of_le hs hc)
  have hsucc : (i - m.logStartInfo.segmentStartIndex).toNat =
      (i - m.logStartInfo.segmentStartIndex - 1).toNat + 1 := by omega
  rw [hsucc, segmentRecords_succ, hseg, Option.getD_some, List.length_append, hlen]
  exact Nat.lt_add_right _ hv.startRecord_lt

/-- In the log start's segment, the log records before a position are those from the log start. -/
theorem posIndex_start {k : Nat} (hp : m.InLog m.logStartInfo.segmentStartIndex k) :
    m.posIndex m.logStartInfo.segmentStartIndex k = k - m.startRecord := by
  rw [posIndex, length_recordsBefore hp, Int.sub_self, Int.toNat_zero, segmentRecords_zero,
    List.length_nil, Nat.zero_add]

/-- The log start lies before every position in the log. -/
theorem Layout.startRecord_le_recordsBefore (hv : m.Layout N) {i : Int} {k : Nat}
    (hp : m.InLog i k) : m.startRecord ≤ (m.recordsBefore i k).length := by
  rw [length_recordsBefore hp]
  rcases Int.lt_or_eq_of_le hp.start_le with hlt | heq
  · exact Nat.le_add_right_of_le (Nat.le_of_lt (hv.startRecord_lt_segmentRecords hlt hp.le_current))
  · -- in the log start's segment
    subst heq
    rw [Int.sub_self, Int.toNat_zero, segmentRecords_zero, List.length_nil, Nat.zero_add]
    exact hp.start_le_record rfl

/-- The end of the log is a position in it. -/
theorem Layout.inLog_end (hv : m.Layout N) : m.InLog m.currentStart m.current.length :=
  ⟨hv.start_le, le_rfl, by rw [fileAt_current], fun h => hv.start_in_current h.symm⟩

theorem Layout.startRecord_le_records (hv : m.Layout N) :
    m.startRecord ≤ m.records.length := by
  rw [records_eq hv.inLog_end, List.length_append]
  exact Nat.le_add_right_of_le (hv.startRecord_le_recordsBefore hv.inLog_end)

/-- A position splits the log in two: the `posIndex` records before it and those after. -/
theorem Layout.logFrom_eq (hv : m.Layout N) {i : Int} {k : Nat} (hp : m.InLog i k) :
    m.logFrom = (m.recordsBefore i k).drop m.startRecord ++ m.recordsAfter i k := by
  unfold logFrom
  rw [records_eq hp, List.drop_append_of_le_length (hv.startRecord_le_recordsBefore hp)]

theorem posIndex_eq {i : Int} {k : Nat} :
    m.posIndex i k = ((m.recordsBefore i k).drop m.startRecord).length := by
  rw [List.length_drop]
  rfl

/-- The log records after a position are those past its `posIndex`. -/
theorem Layout.drop_posIndex (hv : m.Layout N) {i : Int} {k : Nat} (hp : m.InLog i k) :
    m.logFrom.drop (m.posIndex i k) = m.recordsAfter i k := by
  rw [hv.logFrom_eq hp, posIndex_eq, List.drop_left]

/-- Records written after the current ones extend the log. -/
theorem Layout.drop_records_append (hv : m.Layout N) (ys : List CommitLogData) :
    (m.records ++ ys).drop m.startRecord = m.logFrom ++ ys :=
  List.drop_append_of_le_length hv.startRecord_le_records

/-- Every file from the log start's to the current one holds at most `N` records. -/
theorem Layout.length_fileAt_le (hv : m.Layout N) {i : Int}
    (hs : m.logStartInfo.segmentStartIndex ≤ i) (hc : i ≤ m.currentStart) :
    (m.fileAt i).length ≤ N := by
  rcases Int.lt_or_eq_of_le hc with hlt | heq
  · obtain ⟨seg, hseg, hlen⟩ := hv.segment_full i hs hlt
    rw [fileAt_of_lt hlt, hseg, Option.getD_some, hlen]
  · rw [heq, fileAt_current]
    exact hv.current_le

end TopicCommitLogMgr

end Nsq
