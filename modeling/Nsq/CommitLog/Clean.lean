import Nsq.CommitLog.Ops

/-!
# Cleaning the log start

`CleanOldData(fileIndex, fileOffset)` moves the log start forward to a position, keeping at
least `MIN_KEEP_LOG_ITEM` records after it. Its loop `cleanSegments` walks the segment files from
the log start's to `fileIndex`, counting each into `SegmentStartCount` and removing all but the
last (`cleanSegments_succ`); then the log start moves to `fileOffset` in `fileIndex`, or to the
start of the next file when that is the end of a segment file.

At a position of the log, `CleanOldData` either refuses to clean and changes nothing, or moves
the log start to the position, counts the log records it passes, and removes only segment files
before the one before `fileIndex` (`Layout.cleanOldData_eq`): the log then keeps the records after
the position (`Layout.logFrom_cleaned`).
-/

namespace Nsq

namespace TopicCommitLogMgr

variable {t : TopicCommitLogMgr}

/-- Counting a segment file in from record `j` on passes its other records. -/
theorem tdiv_remaining {seg : List CommitLogData} {j : Nat} (hj : j ≤ seg.length) :
    (logDataSize * seg.length - logDataSize * j).tdiv logDataSize = ((seg.length - j : Nat) : Int) := by
  rw [← Int.mul_sub, show ((seg.length : Int) - j) = ((seg.length - j : Nat) : Int) by omega,
    tdiv_logDataSize]

/-- The loop of `CleanOldData` ends at `fileIndex`. -/
theorem cleanSegments_of_le {fileIndex i o : Int} (h : fileIndex ≤ i) :
    t.cleanSegments fileIndex i o = (t, .ok o) := by
  rw [cleanSegments, if_neg (Int.not_lt.mpr h)]

/-- The loop of `CleanOldData` over the `n + 1` segment files from `i`, starting `j` records into
the first: it moves the log start to the start of file `i + n + 1`, counting the records it
passes, and removes the files it passes but the last. -/
theorem cleanSegments_succ (n : Nat) {i : Int} {j : Nat}
    (hfiles : ∀ d : Nat, d ≤ n → ∃ seg, t.segments (i + d) = some seg)
    (hj : j ≤ ((t.segments i).getD []).length) :
    ∃ segs, t.cleanSegments (i + (n + 1 : Nat)) i (logDataSize * j) =
        ({ t with
          logStartInfo := ⟨t.logStartInfo.segmentStartCount +
              (((t.segmentRecords i (n + 1)).length - j : Nat) : Int),
            t.logStartInfo.segmentStartIndex + (n + 1 : Nat), 0⟩,
          segments := segs }, .ok 0) ∧
      (∀ x, x < i ∨ i + n ≤ x → segs x = t.segments x) ∧
      (∀ x, i ≤ x → x < i + n → segs x = none) := by
  induction n generalizing t i j with
  | zero =>
    obtain ⟨seg, hseg⟩ := hfiles 0 le_rfl
    rw [Int.natCast_zero, Int.add_zero] at hseg
    rw [hseg, Option.getD_some] at hj
    have hin : ¬ logDataSize * j > logDataSize * seg.length := fun h =>
      absurd (logDataSize_mul_lt.mp h) (Nat.not_lt.mpr hj)
    refine ⟨t.segments, ?_, fun _ _ => rfl, fun x hx hx' => absurd hx' (by omega)⟩
    rw [cleanSegments, if_pos (by omega), hseg]
    dsimp only
    rw [if_neg hin, tdiv_remaining hj, ← Int.mul_sub, show ((seg.length : Int) - j) =
      ((seg.length - j : Nat) : Int) by omega, tmod_logDataSize, if_neg (not_not.mpr rfl),
      if_neg (by omega), cleanSegments_of_le (by omega)]
    simp only [segmentRecords_succ, segmentRecords_zero, hseg, Option.getD_some, List.append_nil,
      Nat.zero_add, Int.natCast_one]
  | succ n ih =>
    obtain ⟨seg, hseg⟩ := hfiles 0 (Nat.zero_le _)
    rw [Int.natCast_zero, Int.add_zero] at hseg
    rw [hseg, Option.getD_some] at hj
    have hin : ¬ logDataSize * j > logDataSize * seg.length := fun h =>
      absurd (logDataSize_mul_lt.mp h) (Nat.not_lt.mpr hj)
    -- the first file is counted in and removed; the loop goes on from the next one
    let t₁ : TopicCommitLogMgr := { t with
      logStartInfo := ⟨t.logStartInfo.segmentStartCount + ((seg.length - j : Nat) : Int),
        t.logStartInfo.segmentStartIndex + 1, 0⟩,
      segments := Function.update t.segments i none }
    have hsegs₁ : ∀ x, t₁.segments x = Function.update t.segments i none x := fun _ => rfl
    have hrest : t₁.segmentRecords (i + 1) (n + 1) = t.segmentRecords (i + 1) (n + 1) :=
      segmentRecords_congr fun x hx _ => Function.update_of_ne (by omega) _ _
    obtain ⟨segs, hloop, hkeep, hgone⟩ := ih (t := t₁) (i := i + 1) (j := 0)
      (fun d hd => by
        obtain ⟨seg', hseg'⟩ := hfiles (d + 1) (by omega)
        refine ⟨seg', ?_⟩
        rw [hsegs₁, Function.update_of_ne (by omega), ← hseg']
        congr 1
        omega)
      (Nat.zero_le _)
    have hcnt : t.logStartInfo.segmentStartCount + ((seg.length - j : Nat) : Int) +
        (((t₁.segmentRecords (i + 1) (n + 1)).length - 0 : Nat) : Int) =
          t.logStartInfo.segmentStartCount +
            (((t.segmentRecords i (n + 1 + 1)).length - j : Nat) : Int) := by
      rw [hrest, segmentRecords_succ (m := t) i (n + 1), hseg, Option.getD_some,
        List.length_append]
      omega
    refine ⟨segs, ?_, fun x hx => ?_, fun x hx hx' => ?_⟩
    · have hend : i + ((n + 1 + 1 : Nat) : Int) = i + 1 + ((n + 1 : Nat) : Int) := by omega
      rw [Int.natCast_zero, Int.mul_zero] at hloop
      rw [hend, cleanSegments, if_pos (by omega), hseg]
      dsimp only
      rw [if_neg hin, ← Int.mul_sub, show ((seg.length : Int) - j) =
        ((seg.length - j : Nat) : Int) by omega, tmod_logDataSize, if_neg (not_not.mpr rfl),
        tdiv_logDataSize, if_pos (by omega)]
      change t₁.cleanSegments _ _ _ = _
      have hidx : t.logStartInfo.segmentStartIndex + 1 + ((n + 1 : Nat) : Int) =
          t.logStartInfo.segmentStartIndex + ((n + 1 + 1 : Nat) : Int) := by omega
      rw [hloop, ← hcnt, ← hidx]
    · rcases hx with hx | hx
      · rw [hkeep x (.inl (by omega)), hsegs₁, Function.update_of_ne (by omega)]
      · rw [hkeep x (.inr (by omega)), hsegs₁, Function.update_of_ne (by omega)]
    · by_cases hxi : x = i
      · subst hxi
        rw [hkeep x (.inl (by omega)), hsegs₁, Function.update_self]
      · exact hgone x (by omega) (by omega)

/-- The final move of `CleanOldData`, from record `j` to record `k` of the log start's file. -/
theorem moveStart_eq {o : Int} {j k : Nat} {f : List CommitLogData}
    (ho : o = logDataSize * j) (hjk : j ≤ k)
    (hfile : t.logStartInfo.segmentStartIndex < t.currentStart →
      t.segments t.logStartInfo.segmentStartIndex = some f ∧ k ≤ f.length) :
    t.moveStart (logDataSize * k) o =
      ({ t with logStartInfo :=
          if t.logStartInfo.segmentStartIndex < t.currentStart ∧ k = f.length then
            ⟨t.logStartInfo.segmentStartCount + ((k - j : Nat) : Int),
              t.logStartInfo.segmentStartIndex + 1, 0⟩
          else ⟨t.logStartInfo.segmentStartCount + ((k - j : Nat) : Int),
              t.logStartInfo.segmentStartIndex, logDataSize * k⟩ }, none) := by
  have hnot : ¬ logDataSize * k < logDataSize * j := fun h =>
    absurd (logDataSize_mul_lt.mp h) (Nat.not_lt.mpr hjk)
  have hdiff : (logDataSize * k - logDataSize * j).tdiv logDataSize = ((k - j : Nat) : Int) := by
    rw [← Int.mul_sub, show (k : Int) - j = ((k - j : Nat) : Int) by omega, tdiv_logDataSize]
  unfold moveStart
  rw [ho, if_neg hnot]
  dsimp only
  rw [hdiff]
  by_cases hc : t.logStartInfo.segmentStartIndex < t.currentStart
  · -- inside a segment file: at its end the log start moves on to the next file
    obtain ⟨hseg, hk⟩ := hfile hc
    have hgt : ¬ logDataSize * k > logDataSize * f.length := fun h =>
      absurd (logDataSize_mul_lt.mp h) (Nat.not_lt.mpr hk)
    rw [if_pos hc, hseg]
    dsimp only
    rw [if_neg hgt]
    by_cases hend : k = f.length
    · rw [if_pos (by rw [hend]), if_pos ⟨hc, hend⟩]
    · rw [if_neg (fun h => hend (logDataSize_mul_inj.mp h)), if_neg (fun h => hend h.2)]
  · rw [if_neg hc, if_neg (fun h => hc h.1)]

variable {m : TopicCommitLogMgr} {N : Nat} {K i : Int} {k : Nat}

/-- At a position of the log, the checks of `CleanOldData` either refuse to clean, or pass
because more than `MIN_KEEP_LOG_ITEM` records stay after it. -/
theorem Layout.cleanKeepCheck_eq (hv : m.Layout N) (hp : m.InLog i k) :
    m.cleanKeepCheck K i (logDataSize * k) = some .cleanKeepMin ∨
      (m.cleanKeepCheck K i (logDataSize * k) = none ∧
        (i = m.currentStart → (k : Int) + K < m.currentCount) ∧
        (i = m.currentStart - 1 →
          K < (((m.fileAt i).length - k : Nat) : Int) + m.currentCount)) := by
  unfold cleanKeepCheck
  rw [if_neg (Int.not_lt.mpr hp.le_current)]
  by_cases hc : i = m.currentStart
  · -- in the current file
    rw [if_pos hc, tdiv_logDataSize]
    by_cases hK : (k : Int) + K ≥ m.currentCount
    · exact .inl (if_pos hK)
    · refine .inr ⟨if_neg hK, fun _ => Int.lt_of_not_ge hK, fun h => ?_⟩
      omega
  · rw [if_neg hc]
    by_cases hc' : i = m.currentStart - 1
    · -- in the segment file before the current one
      rw [if_pos hc']
      obtain ⟨seg, hseg, _⟩ := hv.segment_full i hp.start_le (by omega)
      have hk : k ≤ seg.length := by
        have := hp.le_length
        rwa [fileAt_of_lt (by omega), hseg, Option.getD_some] at this
      have hleft : ¬ logDataSize * seg.length - logDataSize * k < 0 := by
        have := logDataSize_mul_lt.not.mpr (Nat.not_lt.mpr hk)
        omega
      rw [hseg]
      dsimp only
      rw [if_neg hleft, tdiv_remaining hk]
      by_cases hK : (((seg.length - k : Nat) : Int) + m.currentCount) ≤ K
      · exact .inl (if_pos hK)
      · refine .inr ⟨if_neg hK, fun h => absurd h hc, fun _ => ?_⟩
        rw [fileAt_of_lt (by omega), hseg, Option.getD_some]
        exact Int.lt_of_not_ge hK
    · exact .inr ⟨if_neg hc', fun h => absurd h hc, fun h => absurd h hc'⟩

/-- Where `CleanOldData` moves the log start at record `k` of file `i`, with the log records
before it counted in: the start of the next file when that is the end of a segment file. -/
def cleanedStart (m : TopicCommitLogMgr) (i : Int) (k : Nat) : LogStartInfo :=
  if i < m.currentStart ∧ k = (m.fileAt i).length then
    ⟨m.logStartInfo.segmentStartCount + m.posIndex i k, i + 1, 0⟩
  else ⟨m.logStartInfo.segmentStartCount + m.posIndex i k, i, logDataSize * k⟩

/-- The state `CleanOldData` leaves at record `k` of file `i`, with the segment files `segs`. -/
def cleanedTo (m : TopicCommitLogMgr) (segs : Int → Option (List CommitLogData)) (i : Int)
    (k : Nat) : TopicCommitLogMgr :=
  { m with logStartInfo := m.cleanedStart i k, segments := segs }

section Cleaned

variable {segs : Int → Option (List CommitLogData)}

@[simp] theorem cleanedTo_logStartInfo : (m.cleanedTo segs i k).logStartInfo = m.cleanedStart i k :=
  rfl

@[simp] theorem cleanedTo_segments : (m.cleanedTo segs i k).segments = segs := rfl

@[simp] theorem cleanedTo_currentStart : (m.cleanedTo segs i k).currentStart = m.currentStart := rfl

@[simp] theorem cleanedTo_current : (m.cleanedTo segs i k).current = m.current := rfl

end Cleaned

/-- Once its checks pass, `CleanOldData` at a position of the log moves the log start there and
removes only segment files before the one before the position's. -/
theorem Layout.cleanTo_eq (hv : m.Layout N) (hp : m.InLog i k) :
    ∃ segs, m.cleanTo i (logDataSize * k) = (m.cleanedTo segs i k, none) ∧
      (∀ x, i - 1 ≤ x → segs x = m.segments x) ∧ (∀ x, 0 ≤ x → x < i - 1 → segs x = none) := by
  let segs₀ : Int → Option (List CommitLogData) := fun x =>
    if 0 ≤ x ∧ x < m.logStartInfo.segmentStartIndex ∧ x < i - 1 then none else m.segments x
  have hkeep₀ : ∀ x, i - 1 ≤ x → segs₀ x = m.segments x :=
    fun x hx => if_neg fun h => absurd h.2.2 (Int.not_lt.mpr hx)
  -- the file of the position, where the log start moves to
  have hfile : i < m.currentStart → segs₀ i = some (m.fileAt i) ∧ k ≤ (m.fileAt i).length := by
    intro hc
    obtain ⟨seg, hseg, _⟩ := hv.segment_full i hp.start_le hc
    have hk := hp.le_length
    rw [fileAt_of_lt hc, hseg, Option.getD_some] at hk ⊢
    exact ⟨(hkeep₀ i (Int.sub_le_self i Int.one_nonneg)).trans hseg, hk⟩
  unfold cleanTo
  dsimp only
  rw [hv.start_offset]
  rcases Int.lt_or_eq_of_le hp.start_le with hlt | heq
  · -- the loop passes the `n + 1` segment files from the log start's to the position's
    obtain ⟨n, hn⟩ : ∃ n : Nat, i = m.logStartInfo.segmentStartIndex + ((n + 1 : Nat) : Int) :=
      ⟨(i - m.logStartInfo.segmentStartIndex - 1).toNat, by omega⟩
    have hstart₀ : ∀ x, m.logStartInfo.segmentStartIndex ≤ x → segs₀ x = m.segments x :=
      fun x hx => if_neg fun h => absurd h.2.1 (Int.not_lt.mpr hx)
    have hfiles : ∀ d : Nat, d ≤ n →
        ∃ seg, segs₀ (m.logStartInfo.segmentStartIndex + d) = some seg := by
      intro d hd
      obtain ⟨seg, hseg, _⟩ := hv.segment_full (m.logStartInfo.segmentStartIndex + d) (by omega)
        (by have := hp.le_current; omega)
      exact ⟨seg, (hstart₀ _ (by omega)).trans hseg⟩
    have hj : m.startRecord ≤ ((segs₀ m.logStartInfo.segmentStartIndex).getD []).length := by
      obtain ⟨seg, hseg, hlen⟩ := hv.segment_full _ le_rfl (by have := hp.le_current; omega)
      rw [hstart₀ _ le_rfl, hseg, Option.getD_some, hlen]
      exact Nat.le_of_lt hv.startRecord_lt
    obtain ⟨segs, hloop, hkeep, hgone⟩ :=
      cleanSegments_succ (t := { m with segments := segs₀ }) n hfiles hj
    rw [← hn] at hloop
    -- the log records passed: those of the passed files and of the position's file before it
    have hcount : m.logStartInfo.segmentStartCount +
        (((({ m with segments := segs₀ } : TopicCommitLogMgr).segmentRecords
          m.logStartInfo.segmentStartIndex (n + 1)).length - m.startRecord : Nat) : Int) +
        ((k - 0 : Nat) : Int) = m.logStartInfo.segmentStartCount + m.posIndex i k := by
      have hsegs : ({ m with segments := segs₀ } : TopicCommitLogMgr).segmentRecords
          m.logStartInfo.segmentStartIndex (n + 1) = m.segmentRecords
            m.logStartInfo.segmentStartIndex (i - m.logStartInfo.segmentStartIndex).toNat := by
        rw [show (i - m.logStartInfo.segmentStartIndex).toNat = n + 1 by omega]
        exact segmentRecords_congr fun x hx _ => hstart₀ x hx
      have hpassed := hv.startRecord_lt_segmentRecords hlt hp.le_current
      rw [hsegs, posIndex, length_recordsBefore hp]
      omega
    refine ⟨segs, ?_, ?_, ?_⟩
    · rw [hloop]
      dsimp only
      rw [moveStart_eq (o := 0) (f := m.fileAt i) (by simp) (Nat.zero_le k)]
      · dsimp only
        rw [cleanedTo, cleanedStart, hcount]
      · intro hc
        dsimp only at hc ⊢
        rw [hkeep i (.inr (by omega))]
        exact hfile hc
    · exact fun x hx => (hkeep x (.inr (by omega))).trans (hkeep₀ x hx)
    · -- before the log start they were removed up front, from it on by the loop
      intro x hx hx'
      by_cases hxs : x < m.logStartInfo.segmentStartIndex
      · exact (hkeep x (.inl hxs)).trans (if_pos ⟨hx, hxs, hx'⟩)
      · exact hgone x (Int.not_lt.mp hxs) (by omega)
  · -- no segment file to pass: the log start moves inside its file
    subst heq
    refine ⟨segs₀, ?_, hkeep₀, fun x hx hx' => if_pos ⟨hx, by omega, hx'⟩⟩
    rw [cleanSegments_of_le le_rfl]
    dsimp only
    rw [moveStart_eq (f := m.fileAt _) rfl (hp.start_le_record rfl) hfile, cleanedTo, cleanedStart,
      posIndex_start hp]

/-- `CleanOldData` at a position of the log either refuses and changes nothing, or cleans, when
more than `MIN_KEEP_LOG_ITEM` records stay in the last two files. -/
theorem Layout.cleanOldData_eq (hv : m.Layout N) (hp : m.InLog i k) :
    m.cleanOldData K i (logDataSize * k) = (m, some .cleanKeepMin) ∨
      ∃ segs, m.cleanOldData K i (logDataSize * k) = (m.cleanedTo segs i k, none) ∧
        (∀ x, i - 1 ≤ x → segs x = m.segments x) ∧ (∀ x, 0 ≤ x → x < i - 1 → segs x = none) ∧
        (i = m.currentStart → (k : Int) + K < m.currentCount) ∧
        (i = m.currentStart - 1 →
          K < (((m.fileAt i).length - k : Nat) : Int) + m.currentCount) := by
  rcases hv.cleanKeepCheck_eq (K := K) hp with hcheck | ⟨hcheck, hcur, hprev⟩
  · left
    rw [cleanOldData, hcheck]
  · right
    obtain ⟨segs, hclean, hkeep, hgone⟩ := hv.cleanTo_eq hp
    refine ⟨segs, ?_, hkeep, hgone, hcur, hprev⟩
    rw [cleanOldData, hcheck]
    exact hclean

section Cleaned

variable {segs : Int → Option (List CommitLogData)}

/-- After cleaning, the log is the records after the position. -/
theorem logFrom_cleanedTo (hp : m.InLog i k) (hsegs : ∀ x, i - 1 ≤ x → segs x = m.segments x) :
    (m.cleanedTo segs i k).logFrom = m.recordsAfter i k := by
  have hcongr : ∀ j n, i - 1 ≤ j →
      (m.cleanedTo segs i k).segmentRecords j n = m.segmentRecords j n :=
    fun j n hj => segmentRecords_congr fun x hx _ => hsegs x (by omega)
  unfold logFrom records startRecord
  rw [cleanedTo_logStartInfo, cleanedTo_currentStart, cleanedTo_current, cleanedStart]
  split
  · -- at the end of a segment file: the log starts with the next file
    rename_i hend
    have hrest : (m.currentStart - (i + 1)).toNat = (m.currentStart - i - 1).toNat := by
      rw [Int.sub_sub]
    dsimp only
    rw [hcongr _ _ (by omega), Int.zero_ediv, Int.toNat_zero, List.drop_zero, hrest, recordsAfter,
      if_pos hend.1, ← fileAt_of_lt hend.1, hend.2, List.drop_length, List.nil_append]
  · dsimp only
    rw [hcongr _ _ (by omega), div_logDataSize, recordsAfter]
    rcases Int.lt_or_eq_of_le hp.le_current with hc | hc
    · -- inside a segment file, which stays the log start's
      have hsucc : (m.currentStart - i).toNat = (m.currentStart - i - 1).toNat + 1 := by omega
      have hk : k ≤ ((m.segments i).getD []).length := by
        rw [← fileAt_of_lt hc]
        exact hp.le_length
      rw [if_pos hc, hsucc, segmentRecords_succ, List.append_assoc,
        List.drop_append_of_le_length hk, List.append_assoc]
    · -- inside the current file
      rw [hc, if_neg (Int.lt_irrefl _), Int.sub_self, Int.toNat_zero, segmentRecords_zero,
        List.nil_append]

/-- When the checks of `CleanOldData` pass with `MIN_KEEP_LOG_ITEM ≥ 0`, records stay after the
position: in the current file, in the last segment file, or in a full segment file between. -/
theorem Layout.recordsAfter_ne_nil (hv : m.Layout N) (hp : m.InLog i k) (hK : 0 ≤ K)
    (hcur : i = m.currentStart → (k : Int) + K < m.currentCount)
    (hprev : i = m.currentStart - 1 →
      K < (((m.fileAt i).length - k : Nat) : Int) + m.currentCount) :
    m.recordsAfter i k ≠ [] := by
  apply List.ne_nil_of_length_pos
  have hcount := hv.count_eq
  rcases Int.lt_or_eq_of_le hp.le_current with hc | hc
  · rw [recordsAfter, if_pos hc, List.length_append, List.length_append, List.length_drop,
      ← fileAt_of_lt hc]
    by_cases hlast : i = m.currentStart - 1
    · have := hprev hlast
      omega
    · -- a full segment file lies between
      have hfull := length_segmentRecords (m := m) (i := i + 1) (n := (m.currentStart - i - 1).toNat)
        fun j hj hj' => hv.segment_full j (by have := hp.start_le; omega) (by omega)
      have hN : 0 < N := Nat.lt_of_le_of_lt (Nat.zero_le _) hv.startRecord_lt
      have hn : 0 < (m.currentStart - i - 1).toNat := by omega
      rw [hfull]
      have := Nat.mul_pos hn hN
      omega
  · rw [recordsAfter, if_neg (by omega), List.length_drop]
    have := hcur hc
    omega

end Cleaned

end TopicCommitLogMgr

end Nsq
