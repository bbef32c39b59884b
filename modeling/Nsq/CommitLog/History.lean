import Nsq.CommitLog.Invariant
import Nsq.CommitLog.Positions

/-!
# The whole log written

`CleanOldData` cuts records off the front of the log but leaves the file numbers of the others as
they were: the log start's record is record `segmentStartIndex · N + startRecord` of the log
written since `InitTopicCommitLogMgr`, counted from the first record of file 0 (`startIndex`).
`AppendRun` follows the whole log written over accepted appends and cleans, and `AppendRun.history`
says what such a run keeps (`History`): the layout, the log start inside the whole log, the log the
records from it on, and a first `LogID` past the initial `pLogID`. The record at a position
`(i, k)` of the log is then record `i · N + k` of the whole log (`History.getElem?_fileAt`).

`Contiguous` is what the coordinator writes: each batch's counts and bytes follow the previous
one's, its IDs start past the previous one's, and each holds a message and a byte. Along it the
count, ID and byte ranges chain.
-/

namespace Nsq

open RangeChain

/-- The records are contiguous: each batch's counts and bytes follow the previous batch's, its IDs
start past the previous batch's range, and every batch holds one message and one byte at least. -/
def Contiguous (log : List CommitLogData) : Prop :=
  (∀ l ∈ log, 1 ≤ l.msgNum ∧ 1 ≤ l.msgSize ∧ l.logID ≤ l.lastMsgLogID) ∧
    log.IsChain fun a b => b.msgCnt = a.msgCnt + a.msgNum ∧
      b.msgOffset = a.msgOffset + a.msgSize ∧ a.lastMsgLogID < b.logID

instance (log : List CommitLogData) : Decidable (Contiguous log) :=
  inferInstanceAs (Decidable (_ ∧ _))

namespace Contiguous

variable {log : List CommitLogData}

theorem chained_cnt (h : Contiguous log) :
    Chained CommitLogData.msgCnt (fun l => l.msgCnt + (l.msgNum - 1)) log :=
  ⟨fun l hl => by have := (h.1 l hl).1; dsimp only; omega, h.2.imp fun _ _ hab => by dsimp only; omega⟩

theorem chained_logID (h : Contiguous log) :
    Chained CommitLogData.logID CommitLogData.lastMsgLogID log :=
  ⟨fun l hl => (h.1 l hl).2.2, h.2.imp fun _ _ hab => hab.2.2⟩

theorem chained_offset (h : Contiguous log) :
    Chained CommitLogData.msgOffset (fun l => l.msgOffset + l.msgSize - 1) log :=
  ⟨fun l hl => by have := (h.1 l hl).2.1; dsimp only; omega,
    h.2.imp fun _ _ hab => by dsimp only; omega⟩

end Contiguous

namespace TopicCommitLogMgr

variable {m t : TopicCommitLogMgr} {N : Nat}

/-- The log start's record in the whole log written, counted from the first record of file 0. -/
def startIndex (m : TopicCommitLogMgr) (N : Nat) : Nat :=
  m.logStartInfo.segmentStartIndex.toNat * N + m.startRecord

/-- The states runs of accepted appends and cleans reach from `InitTopicCommitLogMgr`, with
`LOGROTATE_NUM = N` and `MIN_KEEP_LOG_ITEM = K`, each with the whole log the run wrote. -/
inductive AppendRun (N : Nat) (K : Int) : TopicCommitLogMgr → List CommitLogData → Prop
  | init {m : TopicCommitLogMgr} (p : Int) (bufSize : Nat) :
      initTopicCommitLogMgr p bufSize = .ok m → AppendRun N K m []
  | append {m all} (l : CommitLogData) (slave : Bool) : AppendRun N K m all →
      (m.appendCommitLog N l slave).2 = none →
      AppendRun N K (m.appendCommitLog N l slave).1 (all ++ [l])
  | clean {m all} (i : Int) (k : Nat) : AppendRun N K m all → m.InLog i k →
      (m.cleanOldData K i (logDataSize * k)).2 = none →
      AppendRun N K (m.cleanOldData K i (logDataSize * k)).1 all

/-! ## Records of the log -/

/-- The records after a position start with the record there. -/
theorem recordsAfter_eq_cons {i : Int} {k : Nat} (hp : m.InLog i k) {l : CommitLogData}
    (hl : (m.fileAt i)[k]? = some l) : ∃ rest, m.recordsAfter i k = l :: rest := by
  obtain ⟨hk, rfl⟩ := List.getElem?_eq_some_iff.mp hl
  unfold recordsAfter
  split
  · rename_i hlt
    simp only [fileAt_of_lt hlt] at hk ⊢
    exact ⟨_, by rw [List.drop_eq_getElem_cons hk, List.cons_append, List.cons_append]⟩
  · rename_i hlt
    have hcs : i = m.currentStart := Int.le_antisymm hp.le_current (Int.not_lt.mp hlt)
    subst hcs
    simp only [fileAt_current] at hk ⊢
    exact ⟨_, List.drop_eq_getElem_cons hk⟩

/-- The record at a position is the log's record of its count. -/
theorem Layout.getElem?_logFrom (hv : m.Layout N) {i : Int} {k : Nat} (hp : m.InLog i k)
    {l : CommitLogData} (hl : (m.fileAt i)[k]? = some l) : m.logFrom[m.posIndex i k]? = some l := by
  obtain ⟨rest, hrest⟩ := recordsAfter_eq_cons hp hl
  rw [← Nat.add_zero (m.posIndex i k), ← List.getElem?_drop, hv.drop_posIndex hp, hrest]
  rfl

/-! ## The whole log over runs -/

/-- What a run keeps of the whole log `all` it wrote. -/
structure History (N : Nat) (m : TopicCommitLogMgr) (all : List CommitLogData) : Prop where
  layout : m.Layout N
  start_nonneg : 0 ≤ m.logStartInfo.segmentStartIndex
  startIndex_le : m.startIndex N ≤ all.length
  logFrom_eq : m.logFrom = all.drop (m.startIndex N)
  first_logID : ∀ b ∈ all.head?, 0 < b.logID
  pLogID_of_nil : all = [] → m.pLogID = 0

/-- Cleaning at a position moves the log start in the whole log past the log records before it. -/
theorem Layout.startIndex_cleanedStart (hv : m.Layout N)
    (hs : 0 ≤ m.logStartInfo.segmentStartIndex) {i : Int} {k : Nat} (hp : m.InLog i k)
    (ht : t.logStartInfo = m.cleanedStart i k) :
    t.startIndex N = m.startIndex N + m.posIndex i k := by
  have hglobal := hv.posIndex_global hs hp
  have hi := hp.start_le
  unfold startIndex startRecord
  rw [ht]
  by_cases hend : i < m.currentStart ∧ k = (m.fileAt i).length
  · -- at the end of a segment file: the start of the next file, `N` records on
    obtain ⟨hidx, hoff⟩ := cleanedStart_of_end hend
    have hlen := hv.length_fileAt_of_lt hi hend.1
    rw [hidx, hoff, Int.zero_ediv, Int.toNat_zero, Nat.add_zero,
      show (i + 1).toNat = i.toNat + 1 by omega, Nat.succ_mul]
    unfold startRecord at hglobal
    omega
  · obtain ⟨hidx, hoff⟩ := cleanedStart_of_not_end hend
    rw [hidx, hoff, div_logDataSize]
    unfold startRecord at hglobal
    omega

theorem History.init {p : Int} {bufSize : Nat} (hN : 0 < N)
    (h : initTopicCommitLogMgr p bufSize = .ok m) : History N m [] := by
  obtain ⟨hv, hlog⟩ := initTopicCommitLogMgr_valid hN h
  have hm : m.logStartInfo = ⟨0, 0, 0⟩ ∧ m.pLogID = 0 := by
    unfold initTopicCommitLogMgr at h
    split at h
    · cases h
    · injection h with h
      subst h
      exact ⟨rfl, rfl⟩
  have hsi : m.startIndex N = 0 := by
    rw [startIndex, startRecord, hm.1]
    simp only [Int.toNat_zero, Int.zero_ediv, Nat.zero_mul, Nat.add_zero]
  exact ⟨hv.toLayout, by rw [hm.1], by rw [hsi]; exact Nat.le_refl _,
    by rw [hsi, List.drop_zero]; exact hlog, fun _ hb => absurd hb (Option.not_mem_none _), fun _ => hm.2⟩

theorem History.append (hh : History N m all) {l : CommitLogData} {slave : Bool}
    (hacc : (m.appendCommitLog N l slave).2 = none) :
    History N (m.appendCommitLog N l slave).1 (all ++ [l]) := by
  obtain ⟨hlayout, hlog, hstart, -, -⟩ := hh.layout.appendCommitLog hacc
  obtain ⟨hid, -⟩ := appendCommitLog_accepted hacc
  have hsi : (m.appendCommitLog N l slave).1.startIndex N = m.startIndex N := by
    rw [startIndex, startIndex, startRecord, startRecord, hstart]
  refine ⟨hlayout, by rw [hstart]; exact hh.start_nonneg, ?_, ?_, ?_, fun h => ?_⟩
  · rw [hsi, List.length_append]
    exact Nat.le_trans hh.startIndex_le (Nat.le_add_right _ _)
  · rw [hsi, hlog, hh.logFrom_eq, List.drop_append_of_le_length hh.startIndex_le]
  · -- the first record ever written is past the initial `pLogID`
    intro b hb
    cases all with
    | nil =>
      rw [List.nil_append, List.head?_singleton, Option.mem_some_iff] at hb
      rw [← hb]
      have := hh.pLogID_of_nil rfl
      omega
    | cons a rest => exact hh.first_logID b hb
  · exact absurd h (List.append_ne_nil_of_right_ne_nil all (List.cons_ne_nil l []))

theorem History.clean {K : Int} (hK : 0 ≤ K) (hh : History N m all) {i : Int} {k : Nat}
    (hp : m.InLog i k) (hacc : (m.cleanOldData K i (logDataSize * k)).2 = none) :
    History N (m.cleanOldData K i (logDataSize * k)).1 all := by
  obtain ⟨hlayout, hlog, -, hstart, hpl, -⟩ := hh.layout.cleanOldData hp hK hacc
  have hsi := hh.layout.startIndex_cleanedStart hh.start_nonneg hp hstart
  have hlen := hh.layout.length_logFrom hp
  have hidx : 0 ≤ (m.cleanedStart i k).segmentStartIndex := by
    have := hp.start_le
    have := hh.start_nonneg
    unfold cleanedStart
    split <;> dsimp only <;> omega
  refine ⟨hlayout, by rw [hstart]; exact hidx, ?_, ?_, hh.first_logID, fun h => ?_⟩
  · -- the log records before the position are records of the log
    rw [hsi]
    rw [hh.logFrom_eq, List.length_drop] at hlen
    have := hh.startIndex_le
    omega
  · rw [hsi, hlog, hh.logFrom_eq, List.drop_drop]
  · rw [hpl]
    exact hh.pLogID_of_nil h

/-- Every state of a run keeps its history. -/
theorem AppendRun.history {K : Int} {all : List CommitLogData} (hN : 0 < N) (hK : 0 ≤ K)
    (h : AppendRun N K m all) : History N m all := by
  induction h with
  | init p bufSize hinit => exact History.init hN hinit
  | append l slave _ hacc ih => exact ih.append hacc
  | clean i k _ hp hacc ih => exact ih.clean hK hp hacc

/-- The record at a position of the log is record `i · N + k` of the whole log. -/
theorem History.getElem?_fileAt (hh : History N m all) {i : Int} {k : Nat} (hp : m.InLog i k)
    {l : CommitLogData} (hl : (m.fileAt i)[k]? = some l) : all[i.toNat * N + k]? = some l := by
  have hat := hh.layout.getElem?_logFrom hp hl
  rw [hh.logFrom_eq, List.getElem?_drop] at hat
  rw [← hh.layout.posIndex_global hh.start_nonneg hp]
  exact hat

end TopicCommitLogMgr

end Nsq
