import Nsq.CommitLog.Basic

/-!
# Reading and cutting commit log files

What the file functions of the commit log do at a record boundary `logDataSize * k`: the read
answers record `k` (`getCommitLogFromFile_of_lt`), the last-record read answers the last record
at its offset (`getLastCommitLogDataFromFile_of_ne_nil`), the cut keeps the first `k` records and
answers the one before the cut (`truncateFileToOffset_of_lt`) or `ErrCommitLogEOF` at the start
offset (`truncateFileToOffset_of_eq`), and the backward scan of `GetLastCommitLogOffsetV2` stops
at once on a last record that carries the ID it looks for (`findLastOffset_of_getElem`).
-/

namespace Nsq

/-! ## Record boundaries -/

@[simp] theorem tdiv_logDataSize (k : Nat) : (logDataSize * k).tdiv logDataSize = k :=
  Int.mul_tdiv_cancel_left _ (by decide)

@[simp] theorem tmod_logDataSize (k : Nat) : (logDataSize * k).tmod logDataSize = 0 :=
  Int.mul_tmod_right _ _

@[simp] theorem div_logDataSize (k : Nat) : ((logDataSize * k) / logDataSize).toNat = k := by
  rw [Int.mul_ediv_cancel_left _ (by decide), Int.toNat_natCast]

theorem logDataSize_mul_lt {j k : Nat} : logDataSize * j < logDataSize * k ↔ j < k := by
  simp only [logDataSize]
  omega

theorem logDataSize_mul_inj {j k : Nat} : logDataSize * j = logDataSize * k ↔ j = k := by
  simp only [logDataSize]
  omega

/-! ## The file functions -/

variable {file : List CommitLogData}

theorem getCommitLogFromFile_of_lt {k : Nat} (hk : k < file.length) :
    getCommitLogFromFile file (logDataSize * k) = .ok file[k] := by
  have hend : logDataSize * k ≠ logDataSize * file.length :=
    fun h => absurd (logDataSize_mul_inj.mp h) (Nat.ne_of_lt hk)
  have hbound : ¬ logDataSize * k > logDataSize * file.length - logDataSize := by
    simp only [logDataSize]
    omega
  have hnonneg : ¬ logDataSize * k < 0 := by
    simp only [logDataSize]
    omega
  unfold getCommitLogFromFile
  simp only [hend, hbound, hnonneg, tmod_logDataSize, div_logDataSize, List.getElem?_eq_getElem hk,
    if_false, ne_eq, not_true_eq_false]

theorem getLastCommitLogDataFromFile_of_ne_nil (h : file ≠ []) :
    getLastCommitLogDataFromFile file =
      .ok (file.getLast h, logDataSize * (file.length - 1 : Nat)) := by
  have hpos : 0 < file.length := List.length_pos_iff.mpr h
  have hlen : file.length - 1 < file.length := Nat.sub_lt hpos Nat.one_pos
  have hcast : ((file.length : Int) - 1) = ((file.length - 1 : Nat) : Int) := by omega
  unfold getLastCommitLogDataFromFile
  rw [if_neg (Nat.ne_of_gt hpos)]
  dsimp only
  rw [hcast, getCommitLogFromFile_of_lt hlen, List.getLast_eq_getElem]

theorem truncateRecords_of_le {k : Nat} (hk : k ≤ file.length) :
    truncateRecords file (logDataSize * k) = file.take k := by
  unfold truncateRecords
  simp only [div_logDataSize, if_pos hk]

section Truncate

variable {j k : Nat} (hk : k ≤ file.length)
include hk

/-- Cut at the start offset, the file answers `ErrCommitLogEOF`: no record of it is left. -/
theorem truncateFileToOffset_of_eq :
    truncateFileToOffset file (logDataSize * k) (logDataSize * k) = (file.take k, .error .eof) := by
  have hsmall : ¬ (logDataSize * k > 0 ∧ logDataSize * k < logDataSize) := by
    simp only [logDataSize]
    omega
  unfold truncateFileToOffset
  simp only [hsmall, Int.lt_irrefl, truncateRecords_of_le hk, if_false, if_true]

/-- Cut past the start offset, the file answers the record before the cut. -/
theorem truncateFileToOffset_of_lt (hjk : j < k) :
    ∃ l, (file.take k).getLast? = some l ∧
      truncateFileToOffset file (logDataSize * j) (logDataSize * k) = (file.take k, .ok l) := by
  have hsmall : ¬ (logDataSize * k > 0 ∧ logDataSize * k < logDataSize) := by
    simp only [logDataSize]
    omega
  have hstart : ¬ logDataSize * k < logDataSize * j := fun h => by
    have := logDataSize_mul_lt.mp h
    omega
  have hne : logDataSize * k ≠ logDataSize * j := fun h => by
    have := logDataSize_mul_inj.mp h
    omega
  -- the record read back sits at `offset - logDataSize`, the last one kept
  have hprev : logDataSize * k - logDataSize = logDataSize * (k - 1 : Nat) := by
    simp only [logDataSize]
    omega
  have hlast : k - 1 < (file.take k).length := by
    rw [List.length_take]
    omega
  refine ⟨(file.take k)[k - 1], ?_, ?_⟩
  · rw [List.getLast?_eq_getElem?, List.length_take, Nat.min_eq_left hk,
      List.getElem?_eq_getElem hlast]
  · unfold truncateFileToOffset
    simp only [hsmall, hstart, hne, truncateRecords_of_le hk, hprev, div_logDataSize,
      List.getElem?_eq_getElem hlast, if_false]

end Truncate

/-- The scan stops at once on a record that carries the ID it looks for. -/
theorem findLastOffset_of_getElem {k : Nat} {pLogID : Int} (hk : k < file.length)
    (hid : file[k].logID = pLogID) :
    TopicCommitLogMgr.findLastOffset file pLogID k = .ok (logDataSize * k, file[k]) := by
  cases k with
  | zero =>
    have hread := getCommitLogFromFile_of_lt (k := 0) hk
    rw [Int.natCast_zero, Int.mul_zero] at hread
    simp only [TopicCommitLogMgr.findLastOffset, hread, hid, if_true, Int.natCast_zero, Int.mul_zero]
  | succ k =>
    have hread := getCommitLogFromFile_of_lt hk
    push_cast at hread ⊢
    simp only [TopicCommitLogMgr.findLastOffset, hread, hid, if_true]

end Nsq
