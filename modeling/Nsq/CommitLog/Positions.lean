import Nsq.CommitLog.ReadSpec

/-!
# Counts and positions of the commit log

Under the layout every file from the log start's to the one before a position `(i, k)` holds `N`
records, so `posIndex i k + startRecord = (i - SegmentStartIndex) · N + k`
(`Layout.posIndex_add_startRecord`), and `ConvertToCountIndex` answers
`SegmentStartCount + posIndex i k` (`Layout.convertToCountIndex_eq`).

The end of a segment file and the start of the next count the same records. A position is
*canonical* when it lies inside its file, or in the current one; a canonical position is the only
one of its count (`Layout.eq_of_posIndex_eq`). `ConvertToOffsetIndex` answers the canonical
position of every count from `SegmentStartCount` to the end (`Layout.convertToOffsetIndex_eq`), so
the two conversions are inverse, up to the two names of a segment end.
-/

namespace Nsq

namespace TopicCommitLogMgr

variable {m t : TopicCommitLogMgr} {N : Nat}

/-- Position `(i, k)` lies inside its file, or in the current one. -/
def Canonical (m : TopicCommitLogMgr) (i : Int) (k : Nat) : Prop :=
  i < m.currentStart → k < (m.fileAt i).length

instance (i : Int) (k : Nat) : Decidable (m.Canonical i k) :=
  inferInstanceAs (Decidable (_ → _))

/-! ## Counting the records before a position -/

theorem Layout.length_fileAt_of_lt (hv : m.Layout N) {i : Int}
    (hs : m.logStartInfo.segmentStartIndex ≤ i) (hi : i < m.currentStart) :
    (m.fileAt i).length = N := by
  obtain ⟨seg, hseg, hlen⟩ := hv.segment_full i hs hi
  rw [fileAt_of_lt hi, hseg, Option.getD_some, hlen]

theorem Layout.length_recordsBefore_eq (hv : m.Layout N) {i : Int} {k : Nat} (hp : m.InLog i k) :
    (m.recordsBefore i k).length = (i - m.logStartInfo.segmentStartIndex).toNat * N + k := by
  have := hp.start_le
  have := hp.le_current
  rw [length_recordsBefore hp, length_segmentRecords fun j hj hj' =>
    hv.segment_full j hj (by omega)]

/-- The records of the files before a position: those of the log before it, and those before the
log start. -/
theorem Layout.posIndex_add_startRecord (hv : m.Layout N) {i : Int} {k : Nat}
    (hp : m.InLog i k) :
    m.posIndex i k + m.startRecord = (i - m.logStartInfo.segmentStartIndex).toNat * N + k := by
  rw [posIndex, Nat.sub_add_cancel (hv.startRecord_le_recordsBefore hp),
    hv.length_recordsBefore_eq hp]

theorem Layout.length_logFrom (hv : m.Layout N) {i : Int} {k : Nat} (hp : m.InLog i k) :
    m.logFrom.length = m.posIndex i k + (m.recordsAfter i k).length := by
  rw [hv.logFrom_eq hp, List.length_append, ← posIndex_eq]

/-- Moving `c` records on inside a file. -/
theorem Layout.inLog_add (hv : m.Layout N) {i : Int} {k : Nat} (hp : m.InLog i k) {c : Nat}
    (hc : k + c ≤ (m.fileAt i).length) :
    m.InLog i (k + c) ∧ m.posIndex i (k + c) = m.posIndex i k + c := by
  have hq : m.InLog i (k + c) :=
    ⟨hp.start_le, hp.le_current, hc, fun h => Nat.le_add_right_of_le (hp.start_le_record h)⟩
  have h₁ := hv.posIndex_add_startRecord hp
  have h₂ := hv.posIndex_add_startRecord hq
  exact ⟨hq, by omega⟩

/-- The start of the file after a segment file counts the records up to that file's end. -/
theorem Layout.inLog_next (hv : m.Layout N) {i : Int} {k : Nat} (hp : m.InLog i k)
    (hi : i < m.currentStart) :
    m.InLog (i + 1) 0 ∧ m.posIndex (i + 1) 0 = m.posIndex i k + (N - k) := by
  have hs := hp.start_le
  have hk : k ≤ N := hv.length_fileAt_of_lt hs hi ▸ hp.le_length
  have hq : m.InLog (i + 1) 0 :=
    ⟨by omega, hi, Nat.zero_le _, fun h => absurd h (by omega)⟩
  have h₁ := hv.posIndex_add_startRecord hp
  have h₂ := hv.posIndex_add_startRecord hq
  have hsucc : (i + 1 - m.logStartInfo.segmentStartIndex).toNat =
      (i - m.logStartInfo.segmentStartIndex).toNat + 1 := by omega
  rw [hsucc, Nat.succ_mul] at h₂
  exact ⟨hq, by omega⟩

/-- A canonical position in an earlier file counts fewer records. -/
theorem Layout.posIndex_lt_of_lt (hv : m.Layout N) {i j : Int} {k l : Nat} (hp : m.InLog i k)
    (hq : m.InLog j l) (hc : m.Canonical i k) (hij : i < j) :
    m.posIndex i k < m.posIndex j l := by
  have hi : i < m.currentStart := Int.lt_of_lt_of_le hij hq.le_current
  have hk : k < N := hv.length_fileAt_of_lt hp.start_le hi ▸ hc hi
  have hd : (i - m.logStartInfo.segmentStartIndex).toNat + 1 ≤
      (j - m.logStartInfo.segmentStartIndex).toNat := by
    have := hp.start_le
    omega
  have hmul := Nat.mul_le_mul_right N hd
  rw [Nat.succ_mul] at hmul
  have h₁ := hv.posIndex_add_startRecord hp
  have h₂ := hv.posIndex_add_startRecord hq
  omega

/-- A canonical position is the only one of its count. -/
theorem Layout.eq_of_posIndex_eq (hv : m.Layout N) {i j : Int} {k l : Nat} (hp : m.InLog i k)
    (hq : m.InLog j l) (hcp : m.Canonical i k) (hcq : m.Canonical j l)
    (h : m.posIndex i k = m.posIndex j l) : i = j ∧ k = l := by
  rcases Int.lt_trichotomy i j with hij | rfl | hji
  · exact absurd h (Nat.ne_of_lt (hv.posIndex_lt_of_lt hp hq hcp hij))
  · have h₁ := hv.posIndex_add_startRecord hp
    have h₂ := hv.posIndex_add_startRecord hq
    exact ⟨rfl, by omega⟩
  · exact absurd h (Nat.ne_of_gt (hv.posIndex_lt_of_lt hq hp hcq hji))

/-- In one file, positions count records as their record numbers do. -/
theorem Layout.posIndex_lt_iff (hv : m.Layout N) {i : Int} {j k : Nat} (hp : m.InLog i j)
    (hq : m.InLog i k) : m.posIndex i j < m.posIndex i k ↔ j < k := by
  have h₁ := hv.posIndex_add_startRecord hp
  have h₂ := hv.posIndex_add_startRecord hq
  omega

/-- Counted from the first record of file 0, a position's record number is the log start's and
the log records before the position. -/
theorem Layout.posIndex_global (hv : m.Layout N) (hs : 0 ≤ m.logStartInfo.segmentStartIndex)
    {i : Int} {k : Nat} (hp : m.InLog i k) :
    m.logStartInfo.segmentStartIndex.toNat * N + m.startRecord + m.posIndex i k =
      i.toNat * N + k := by
  have hsum := hv.posIndex_add_startRecord hp
  have hi : i.toNat = m.logStartInfo.segmentStartIndex.toNat +
      (i - m.logStartInfo.segmentStartIndex).toNat := by
    have := hp.start_le
    omega
  rw [hi, Nat.add_mul]
  omega

/-! ## From a position to its count -/

/-- The count loop reads only the segment files. -/
theorem countLoop_congr (hs : t.segments = m.segments) : t.countLoop = m.countLoop := by
  funext j n
  induction n generalizing j with
  | zero => rfl
  | succ n ih =>
    funext c o
    simp only [countLoop, hs, ih]

/-- Passing `n` full segment files from their starts counts `N` records each. -/
theorem countLoop_full {n : Nat} : ∀ {j : Int} (c : Int),
    (∀ x, j ≤ x → x < j + n → ∃ seg, m.segments x = some seg ∧ seg.length = N) →
    m.countLoop j n c 0 = .ok (c + n * N, 0) := by
  induction n with
  | zero => intro j c _; simp only [countLoop, Int.natCast_zero, Int.zero_mul, Int.add_zero]
  | succ n ih =>
    intro j c hfull
    obtain ⟨seg, hseg, hlen⟩ := hfull j le_rfl (by omega)
    simp only [countLoop, hseg, getCommitLogCountFromFile, hlen, Int.zero_tdiv, Int.sub_zero]
    rw [ih _ fun x hx hx' => hfull x (by omega) (by omega)]
    simp only [Int.natCast_add, Int.natCast_one, Int.add_mul, Int.one_mul]
    congr 2
    omega

/-- Passing `n + 1` full segment files from record `r` of the first. -/
theorem countLoop_from {n : Nat} {j : Int} (c : Int) (r : Nat)
    (hfull : ∀ x, j ≤ x → x < j + (n + 1) → ∃ seg, m.segments x = some seg ∧ seg.length = N) :
    m.countLoop j (n + 1) c (logDataSize * r) = .ok (c + (N - r) + n * N, 0) := by
  obtain ⟨seg, hseg, hlen⟩ := hfull j le_rfl (by omega)
  simp only [countLoop, hseg, getCommitLogCountFromFile, hlen, tdiv_logDataSize]
  exact countLoop_full _ fun x hx hx' => hfull x (by omega) (by omega)

/-- `ConvertToCountIndex` of a position of the log: the log start's count and the log records
before it. -/
theorem Layout.convertToCountIndex_eq (hv : m.Layout N) {i : Int} {k : Nat} (hp : m.InLog i k) :
    m.convertToCountIndex i (logDataSize * k) =
      .ok (m.logStartInfo.segmentStartCount + m.posIndex i k) := by
  have hbefore : ¬ (i < m.logStartInfo.segmentStartIndex ∨ (i = m.logStartInfo.segmentStartIndex ∧
      logDataSize * k < m.logStartInfo.segmentStartOffset)) := by
    rintro (h | h)
    · exact absurd hp.start_le (Int.not_le.mpr h)
    · exact hv.not_before_start hp h
  have hsum := hv.posIndex_add_startRecord hp
  unfold convertToCountIndex
  rw [if_neg (Int.not_lt.mpr hp.le_current), tmod_logDataSize, if_neg (by decide), if_neg hbefore,
    hv.start_offset]
  rcases Int.lt_or_eq_of_le hp.start_le with hlt | heq
  · -- past the log start's segment: the loop passes it from the log start, and whole files after
    obtain ⟨n, hn⟩ : ∃ n, (i - m.logStartInfo.segmentStartIndex).toNat = n + 1 :=
      ⟨(i - m.logStartInfo.segmentStartIndex).toNat - 1, by omega⟩
    have hr := hv.startRecord_lt
    rw [hn, countLoop_from _ _ fun x hx hx' => hv.segment_full x hx (by have := hp.le_current; omega)]
    dsimp only
    rw [if_neg (by simp only [logDataSize]; omega), Int.sub_zero, tdiv_logDataSize]
    rw [hn, Nat.succ_mul] at hsum
    congr 1
    omega
  · -- in the log start's segment: no file is passed
    subst heq
    have hr := hp.start_le_record rfl
    rw [Int.sub_self, Int.toNat_zero]
    dsimp only [countLoop]
    rw [if_neg (Int.not_lt.mpr (Int.mul_le_mul_of_nonneg_left (by omega) (by decide))),
      ← Int.mul_sub, show (k : Int) - m.startRecord = ((k - m.startRecord : Nat) : Int) by omega,
      tdiv_logDataSize]
    rw [Int.sub_self, Int.toNat_zero, Nat.zero_mul, Nat.zero_add] at hsum
    congr 1
    omega

/-! ## From a count to its position -/

/-- The log start is a canonical position of the log, of count 0. -/
theorem Layout.inLog_start (hv : m.Layout N) :
    m.InLog m.logStartInfo.segmentStartIndex m.startRecord ∧
      m.Canonical m.logStartInfo.segmentStartIndex m.startRecord ∧
      m.posIndex m.logStartInfo.segmentStartIndex m.startRecord = 0 := by
  have hlen : m.startRecord ≤ (m.fileAt m.logStartInfo.segmentStartIndex).length := by
    rcases Int.lt_or_eq_of_le hv.start_le with hlt | heq
    · rw [hv.length_fileAt_of_lt le_rfl hlt]
      exact Nat.le_of_lt hv.startRecord_lt
    · rw [heq, fileAt_current]
      exact hv.start_in_current heq
  have hp : m.InLog m.logStartInfo.segmentStartIndex m.startRecord :=
    ⟨le_rfl, hv.start_le, hlen, fun _ => Nat.le_refl _⟩
  refine ⟨hp, fun h => ?_, by rw [posIndex_start hp, Nat.sub_self]⟩
  rw [hv.length_fileAt_of_lt le_rfl h]
  exact hv.startRecord_lt

/-- The loop of `ConvertToOffsetIndex` stops at `(j, r)` with `c` counts left when none is left,
or in the current file, which then holds them. -/
theorem Layout.offsetLoop_stop (hv : m.Layout N) {n : Nat} (hn : n ≤ m.logFrom.length) {j : Int}
    {r c : Nat} (hp : m.InLog j r) (hc : m.Canonical j r) (hsum : m.posIndex j r + c = n)
    (hstop : c = 0 ∨ j = m.currentStart) :
    m.InLog j (r + c) ∧ m.Canonical j (r + c) ∧ m.posIndex j (r + c) = n := by
  rcases hstop with rfl | rfl
  · exact ⟨hp, hc, hsum⟩
  · -- the current file holds the records up to the end of the log
    have hlen := hv.length_logFrom hp
    rw [recordsAfter, if_neg (Int.lt_irrefl _), List.length_drop] at hlen
    have hr := hp.le_length
    rw [fileAt_current] at hr
    obtain ⟨hq, hpos⟩ := hv.inLog_add hp (c := c) (by rw [fileAt_current]; omega)
    exact ⟨hq, fun h => absurd h (Int.lt_irrefl _), by omega⟩

/-- The loop of `ConvertToOffsetIndex` from a canonical position `(j, r)` of the log with `c`
counts left, where `posIndex j r + c = n` is a count of the log, with a round of fuel for each
segment file from `j` on. It answers the canonical position `(s, k)` of count `n` when it finds it
in a segment file, or stops at `(s, r')` with `c'` counts left, none or those the current file
holds from there. -/
theorem Layout.offsetLoop_eq (hv : m.Layout N) {n : Nat} (hn : n ≤ m.logFrom.length) :
    ∀ fuel j r c, (m.currentStart - j).toNat ≤ fuel → m.InLog j r → m.Canonical j r →
      m.posIndex j r + c = n → ∃ s k, m.InLog s k ∧ m.Canonical s k ∧ m.posIndex s k = n ∧
        (m.offsetLoop fuel j (logDataSize * r) c = .ok (.inl (s, logDataSize * k)) ∨
          ∃ r' c', r' + c' = k ∧ (c' = 0 ∨ s = m.currentStart) ∧
            m.offsetLoop fuel j (logDataSize * r) c = .ok (.inr (s, logDataSize * r', c'))) := by
  intro fuel
  induction fuel with
  | zero =>
    intro j r c hfuel hp hc hsum
    -- out of fuel only at the current file
    have hj : j = m.currentStart := by
      have := hp.le_current
      omega
    obtain ⟨hq, hcq, hpos⟩ := hv.offsetLoop_stop hn hp hc hsum (.inr hj)
    exact ⟨j, r + c, hq, hcq, hpos, .inr ⟨r, c, rfl, .inr hj, rfl⟩⟩
  | succ fuel ih =>
    intro j r c hfuel hp hc hsum
    by_cases hgo : (c : Int) > 0 ∧ j < m.currentStart
    · -- a segment file, of `N` records: the count lies in it, or the loop passes it
      obtain ⟨seg, hseg, hlen⟩ := hv.segment_full j hp.start_le hgo.2
      have hfile := hv.length_fileAt_of_lt hp.start_le hgo.2
      have hr : r < N := hfile ▸ hc hgo.2
      have hloop : m.offsetLoop (fuel + 1) j (logDataSize * r) c =
          if (c : Int) < N - r then .ok (.inl (j, logDataSize * r + c * logDataSize))
          else m.offsetLoop fuel (j + 1) 0 (c - (N - r)) := by
        simp only [offsetLoop, if_pos hgo, hseg, getCommitLogCountFromFile, hlen, tdiv_logDataSize]
      by_cases hin : (c : Int) < N - r
      · obtain ⟨hq, hpos⟩ := hv.inLog_add hp (c := c) (by omega)
        refine ⟨j, r + c, hq, fun _ => by omega, by omega, .inl ?_⟩
        rw [hloop, if_pos hin]
        simp only [logDataSize, Int.natCast_add]
        congr 3
        omega
      · obtain ⟨hnext, hpos⟩ := hv.inLog_next hp hgo.2
        have hcnext : m.Canonical (j + 1) 0 := fun h => by
          have := hv.startRecord_lt
          rw [hv.length_fileAt_of_lt hnext.start_le h]
          omega
        obtain ⟨s, k, hq, hcq, hposs, hres⟩ :=
          ih (j + 1) 0 (c - (N - r)) (by omega) hnext hcnext (by omega)
        refine ⟨s, k, hq, hcq, hposs, ?_⟩
        rw [hloop, if_neg hin, show (c : Int) - (N - r) = ((c - (N - r) : Nat) : Int) by omega,
          show (0 : Int) = logDataSize * ((0 : Nat) : Int) by decide]
        exact hres
    · have hstop : c = 0 ∨ j = m.currentStart := by
        have := hp.le_current
        omega
      obtain ⟨hq, hcq, hpos⟩ := hv.offsetLoop_stop hn hp hc hsum hstop
      refine ⟨j, r + c, hq, hcq, hpos, .inr ⟨r, c, rfl, hstop, ?_⟩⟩
      rw [offsetLoop, if_neg hgo]

/-- `ConvertToOffsetIndex` of every count from `SegmentStartCount` to the end of the log answers
the canonical position of that count. -/
theorem Layout.convertToOffsetIndex_eq (hv : m.Layout N) {n : Nat} (hn : n ≤ m.logFrom.length) :
    ∃ s k, m.InLog s k ∧ m.Canonical s k ∧ m.posIndex s k = n ∧
      (m.convertToOffsetIndex (m.logStartInfo.segmentStartCount + n)).2 =
        .ok (s, logDataSize * k) := by
  obtain ⟨hstart, hcstart, hpos₀⟩ := hv.inLog_start
  obtain ⟨s, k, hq, hcq, hpos, hres⟩ :=
    hv.offsetLoop_eq hn _ _ _ n le_rfl hstart hcstart (by omega)
  refine ⟨s, k, hq, hcq, hpos, ?_⟩
  unfold convertToOffsetIndex
  rw [if_neg (by omega), hv.start_offset,
    show m.logStartInfo.segmentStartCount + n - m.logStartInfo.segmentStartCount = (n : Int) by
      omega]
  rcases hres with hres | ⟨r', c', hk, hc', hres⟩
  · rw [hres]
  · rw [hres]
    dsimp only
    by_cases hcur : s = m.currentStart ∧ (c' : Int) > 0
    · -- the current file holds the counts left
      have hle := hq.le_length
      rw [hcur.1, fileAt_current] at hle
      have hcount := hv.count_eq
      rw [if_pos hcur, tdiv_logDataSize, if_neg (by omega)]
      simp only [logDataSize, ← hk, Int.natCast_add]
      congr 3
      omega
    · have hc0 : c' = 0 := by omega
      rw [if_neg hcur, ← hk, hc0, Nat.add_zero]

/-! ## The conversions are inverse -/

/-- `ConvertToOffsetIndex` leaves the log as it is: it flushes the buffer at most. -/
theorem sameLog_convertToOffsetIndex (c : Int) : SameLog (m.convertToOffsetIndex c).1 m := by
  have hsame := SameLog.refl m
  unfold convertToOffsetIndex
  split
  · exact hsame
  · split
    · exact hsame
    · exact hsame
    · -- the count lies in the current file: the buffer is flushed
      split
      · split
        · exact hsame
        · exact sameLog_flushCommitLogsNoLock
      · exact hsame

theorem SameLog.convertToCountIndex (h : SameLog t m) :
    t.convertToCountIndex = m.convertToCountIndex := by
  funext i o
  unfold TopicCommitLogMgr.convertToCountIndex
  rw [h.currentStart, h.logStartInfo, countLoop_congr h.segments]

/-- The position conversions of the commit log are inverse: on every state a run reaches, with
`LOGROTATE_NUM = N > 0`, `ConvertToOffsetIndex` of every count from `SegmentStartCount` to the
end of the log answers a record-aligned position whose `ConvertToCountIndex` is that count; and
`ConvertToOffsetIndex` of the count of a position of the log answers that position, or
`(i + 1, 0)` for the end `(i, size of file i)` of a segment file. -/
theorem convertIndex_inverse {K : Int} {log : List CommitLogData} (hN : 0 < N) (hK : 0 ≤ K)
    (h : LogRun N K m log) :
    (∀ c : Int, m.logStartInfo.segmentStartCount ≤ c →
      c ≤ m.logStartInfo.segmentStartCount + log.length →
      ∃ s k, (m.convertToOffsetIndex c).2 = .ok (s, logDataSize * k) ∧
        (m.convertToOffsetIndex c).1.convertToCountIndex s (logDataSize * k) = .ok c) ∧
    (∀ (i : Int) (k : Nat), m.InLog i k →
      ∃ c, m.convertToCountIndex i (logDataSize * k) = .ok c ∧
        (m.convertToOffsetIndex c).2 = .ok (if i < m.currentStart ∧ k = (m.fileAt i).length
          then (i + 1, 0) else (i, logDataSize * k))) := by
  obtain ⟨hv, rfl⟩ := h.valid hN hK
  have hl := hv.toLayout
  refine ⟨fun c hlo hhi => ?_, fun i k hp => ?_⟩
  · -- a count of the log names its canonical position, whose count it is
    obtain ⟨n, rfl⟩ : ∃ n : Nat, c = m.logStartInfo.segmentStartCount + n :=
      ⟨(c - m.logStartInfo.segmentStartCount).toNat, by omega⟩
    obtain ⟨s, k, hq, -, hpos, hres⟩ := hl.convertToOffsetIndex_eq (n := n) (by omega)
    refine ⟨s, k, hres, ?_⟩
    rw [(sameLog_convertToOffsetIndex _).convertToCountIndex, hl.convertToCountIndex_eq hq, hpos]
  · -- the count of a position names the canonical position of that count
    have hn : m.posIndex i k ≤ m.logFrom.length := by
      rw [hl.length_logFrom hp]
      exact Nat.le_add_right _ _
    obtain ⟨s, k', hq, hcq, hpos, hres⟩ := hl.convertToOffsetIndex_eq hn
    refine ⟨_, hl.convertToCountIndex_eq hp, ?_⟩
    rw [hres]
    split
    · -- the end of segment file `i` is the start of file `i + 1`
      rename_i hend
      obtain ⟨hnext, hposn⟩ := hl.inLog_next hp hend.1
      have hcn : m.Canonical (i + 1) 0 := fun h => by
        rw [hl.length_fileAt_of_lt hnext.start_le h]
        exact Nat.lt_of_le_of_lt (Nat.zero_le _) hl.startRecord_lt
      have hkN : k = N := hend.2.trans (hl.length_fileAt_of_lt hp.start_le hend.1)
      obtain ⟨rfl, rfl⟩ := hl.eq_of_posIndex_eq hq hnext hcq hcn
        (by rw [hpos, hposn, hkN, Nat.sub_self, Nat.add_zero])
      rfl
    · -- inside its file, or in the current one, the position is canonical
      rename_i hend
      have hcp : m.Canonical i k := fun h =>
        Nat.lt_of_le_of_ne hp.le_length fun he => hend ⟨h, he⟩
      obtain ⟨rfl, rfl⟩ := hl.eq_of_posIndex_eq hq hp hcq hcp hpos
      rfl

/-- On the log of two records in two files, the end of segment 0 counts one record, and that
count converts back to the start of file 1. -/
theorem convertIndex_inverse_segment_end :
    ∃ m, LogRun 1 1000 m [⟨1, 0, 1, 0, 0, 1, 1⟩, ⟨2, 0, 2, 0, 0, 2, 1⟩] ∧
      m.convertToCountIndex 0 48 = .ok 1 ∧ (m.convertToOffsetIndex 1).2 = .ok (1, 0) := by
  obtain ⟨c, hc, hoff⟩ := (convertIndex_inverse (by decide) (by decide) logRun_rotated_pair).2 0 1
    ⟨by decide, by decide, by decide, fun _ => by decide⟩
  have hc1 : c = 1 := by
    have : (Except.ok c : Except CommitLogError Int) = .ok 1 := hc.symm.trans rfl
    exact Except.ok.inj this
  subst hc1
  exact ⟨_, logRun_rotated_pair, hc, hoff.trans rfl⟩

end TopicCommitLogMgr

end Nsq
