import Nsq.CommitLog.Search
import Nsq.CommitLog.Ends
import Nsq.CommitLog.Positions
import Nsq.CommitLog.History
import Nsq.Lib.BinarySearch

/-!
# What the commit log search finds

A comparator *locates* record `n` of the log when it answers that the target lies past every
earlier record and before every later one, and in record `n` itself. A comparator against the
records' ranges locates the record whose range holds the target when the ranges are chained
(`rangeComparator_locates`); a contiguous log chains the ranges of all three comparators.

On a state with the layout, a search by a comparator that locates the record at position
`(i, k)`, with its bound above file `i`, answers that record at `(i, 48 k)`
(`Layout.searchLogDataByComparator_eq`). The file loop keeps `i` bracketed: a file before `i` ends
below the target, a file after it starts above, and file `i` does neither; the record loop keeps
`k` bracketed the same way. Every read the loops make is a read of a position of the log, on a
state that differs from the first by a flush at most.

The bound `target / LOGROTATE_NUM + 1` lies above file `i` when the target is at least the record's
number in the whole log written, counted from the first record of file 0. `AppendRun` keeps that
whole log over appends and cleans. When its first record's `MsgCnt` and `MsgOffset` are not
negative, the record at `(i, k)` is record `i · N + k` of it, its range starts at `i · N + k` at
least, and the bound holds (`searchLogData_finds_record`); the first `LogID` is positive, being past
the initial `pLogID`.
-/

namespace Nsq

open RangeChain BinarySearch

/-! ## Comparators that locate a record -/

namespace CommitLogComparator

/-- `comp` locates record `n` of `log`: the target lies past every record before it and not before
it, and before every record after it and not past it. -/
structure Locates (comp : CommitLogComparator) (log : List CommitLogData) (n : Nat) : Prop where
  left_false : ∀ j l, log[j]? = some l → j ≤ n → comp.lessThanLeftBoundary l = false
  right_false : ∀ j l, log[j]? = some l → n ≤ j → comp.greatThanRightBoundary l = false
  right_true : ∀ j l, log[j]? = some l → j < n → comp.greatThanRightBoundary l = true
  left_true : ∀ j l, log[j]? = some l → n < j → comp.lessThanLeftBoundary l = true

end CommitLogComparator

/-- Over chained ranges, a comparator against the ranges locates the record whose range holds
the target. -/
theorem rangeComparator_locates {left right : CommitLogData → Int} {log : List CommitLogData}
    (hchain : Chained left right log) (rotateNum : Int) {c : Int} {n : Nat} {l : CommitLogData}
    (hl : log[n]? = some l) (hc : left l ≤ c ∧ c ≤ right l) :
    (rangeComparator rotateNum c left right).Locates log n where
  left_false j a ha hj := by
    rcases Nat.lt_or_eq_of_le hj with hlt | rfl
    · have hlink := hchain.hi_lt_lo_of_getElem? ha hl hlt
      have hrange := hchain.lo_le_hi_of_getElem? ha
      simp only [rangeComparator, decide_eq_false_iff_not]
      omega
    · rw [hl, Option.some.injEq] at ha
      subst ha
      simp only [rangeComparator, decide_eq_false_iff_not]
      omega
  right_false j a ha hj := by
    rcases Nat.lt_or_eq_of_le hj with hlt | rfl
    · have hlink := hchain.hi_lt_lo_of_getElem? hl ha hlt
      have hrange := hchain.lo_le_hi_of_getElem? ha
      simp only [rangeComparator, decide_eq_false_iff_not]
      omega
    · rw [hl, Option.some.injEq] at ha
      subst ha
      simp only [rangeComparator, decide_eq_false_iff_not]
      omega
  right_true j a ha hj := by
    have hlink := hchain.hi_lt_lo_of_getElem? ha hl hj
    simp only [rangeComparator, decide_eq_true_eq]
    omega
  left_true j a ha hj := by
    have hlink := hchain.hi_lt_lo_of_getElem? hl ha hj
    simp only [rangeComparator, decide_eq_true_eq]
    omega

/-- The offset comparator compares with the range `[MsgOffset, MsgOffset + MsgSize - 1]`. -/
theorem msgOffsetComparator_eq (rotateNum c : Int) :
    msgOffsetComparator rotateNum c =
      rangeComparator rotateNum c CommitLogData.msgOffset fun l => l.msgOffset + l.msgSize - 1 := by
  simp only [msgOffsetComparator, rangeComparator, CommitLogComparator.mk.injEq, true_and]
  funext l
  exact decide_eq_decide.mpr (by omega)

namespace TopicCommitLogMgr

variable {m t : TopicCommitLogMgr} {N : Nat}

/-! ## Reads at positions of the log -/

theorem Layout.flush (hv : m.Layout N) : m.flushCommitLogsNoLock.Layout N :=
  hv.of_sameLog sameLog_flushCommitLogsNoLock (Nat.zero_le _)

/-- `GetCommitLogFromOffsetV2` at a position of the log reads the record there. -/
theorem Layout.getCommitLogFromOffsetV2_of_getElem? (hv : m.Layout N) {i : Int} {k : Nat}
    (hp : m.InLog i k) {l : CommitLogData} (hl : (m.fileAt i)[k]? = some l) {fuel : Nat}
    (hfuel : (m.currentStart - i).toNat < fuel) :
    m.getCommitLogFromOffsetV2 fuel i (logDataSize * k) = some (m.flushCommitLogsNoLock, .ok l) := by
  obtain ⟨rest, hrest⟩ := recordsAfter_eq_cons hp hl
  exact hv.getCommitLogFromOffsetV2_eq hp hrest hfuel

/-- `GetCommitLogFromOffsetV2` at a position of the log answers, after a flush. -/
theorem Layout.getCommitLogFromOffsetV2_some (hv : m.Layout N) {i : Int} {k : Nat}
    (hp : m.InLog i k) {fuel : Nat} (hfuel : (m.currentStart - i).toNat < fuel) :
    ∃ r, m.getCommitLogFromOffsetV2 fuel i (logDataSize * k) = some (m.flushCommitLogsNoLock, r) := by
  unfold getCommitLogFromOffsetV2
  rw [if_neg (Int.not_lt.mpr hp.le_current), if_neg (Int.not_lt.mpr hp.start_le),
    if_neg (hv.not_before_start hp)]
  by_cases hcur : i = m.currentStart
  · rw [if_pos hcur]
    exact ⟨_, rfl⟩
  · -- an earlier file: a read of one record across the files, answered beside the flushed state
    rw [if_neg hcur, hv.getCommitLogsV2_eq hp Nat.one_pos hfuel]
    simp only [Option.map_some, Option.some.injEq]
    split
    · exact ⟨_, rfl⟩
    · split <;> exact ⟨_, rfl⟩

/-- `GetLastCommitLogDataOnSegment` of a segment file of the log: its last record, record `N - 1`,
at offset `48 (N - 1)`. -/
theorem Layout.getLastCommitLogDataOnSegment_of_lt (hv : m.Layout N) {i : Int}
    (hs : m.logStartInfo.segmentStartIndex ≤ i) (hi : i < m.currentStart) :
    ∃ l, (m.fileAt i)[N - 1]? = some l ∧
      m.getLastCommitLogDataOnSegment i = (m, .ok (logDataSize * (N - 1 : Nat), l)) := by
  obtain ⟨seg, hseg, hlen⟩ := hv.segment_full i hs hi
  have hne : seg ≠ [] :=
    List.ne_nil_of_length_pos (by rw [hlen]; exact Nat.lt_of_le_of_lt (Nat.zero_le _) hv.startRecord_lt)
  refine ⟨seg.getLast hne, ?_, ?_⟩
  · rw [fileAt_of_lt hi, hseg, Option.getD_some, ← hlen, List.getLast_eq_getElem]
    exact List.getElem?_eq_getElem _
  · unfold getLastCommitLogDataOnSegment
    rw [if_neg (Int.ne_of_gt hi), if_neg (Int.not_lt.mpr (Int.le_of_lt hi)), if_neg (Int.not_lt.mpr hs),
      hseg, getLastCommitLogData, getLastCommitLogDataFromFile_of_ne_nil hne, hlen]
    rfl

/-- `GetLastCommitLogDataOnSegment` of a nonempty file of the log answers the offset of its last
record, after a flush when it is the current file. -/
theorem Layout.getLastCommitLogDataOnSegment_eq (hv : m.Layout N) {i : Int}
    (hs : m.logStartInfo.segmentStartIndex ≤ i) (hi : i ≤ m.currentStart)
    (hne : 0 < (m.fileAt i).length) :
    ∃ u l, SameLog u m ∧ u.Layout N ∧ m.getLastCommitLogDataOnSegment i =
      (u, .ok (logDataSize * ((m.fileAt i).length - 1 : Nat), l)) := by
  rcases Int.lt_or_eq_of_le hi with hlt | rfl
  · obtain ⟨l, -, hlast⟩ := hv.getLastCommitLogDataOnSegment_of_lt hs hlt
    rw [hv.length_fileAt_of_lt hs hlt]
    exact ⟨m, l, SameLog.refl m, hv, hlast⟩
  · -- the current file, read after the flush
    rw [fileAt_current] at hne ⊢
    have hcur : m.current ≠ [] := List.ne_nil_of_length_pos hne
    refine ⟨m.flushCommitLogsNoLock, m.current.getLast hcur, sameLog_flushCommitLogsNoLock,
      hv.flush, ?_⟩
    unfold getLastCommitLogDataOnSegment
    rw [if_pos rfl]
    show (_, (getLastCommitLogDataFromFile m.current).map _) = _
    rw [getLastCommitLogDataFromFile_of_ne_nil hcur]
    rfl

/-! ## The two loops -/

section Loops

variable {comp : CommitLogComparator} {i : Int} {k : Nat} {l : CommitLogData}

/-- A position with a record lies inside its file. -/
theorem canonical_of_getElem? (hl : (m.fileAt i)[k]? = some l) : m.Canonical i k :=
  fun _ => (List.getElem?_eq_some_iff.mp hl).1

theorem Layout.posIndex_le_of_le (hv : m.Layout N) {j : Nat} (hp : m.InLog i j)
    (hq : m.InLog i k) (h : j ≤ k) : m.posIndex i j ≤ m.posIndex i k :=
  Nat.le_of_not_lt fun hlt => absurd ((hv.posIndex_lt_iff hq hp).mp hlt) (Nat.not_lt.mpr h)

/-- The record a search reads first in file `x`: the log start's record in its file, else the
first, at the offset the search computes. -/
theorem Layout.exists_searchBegin (hv : m.Layout N) (x : Int) :
    ∃ b : Nat, (x = m.logStartInfo.segmentStartIndex → b = m.startRecord) ∧
      (x ≠ m.logStartInfo.segmentStartIndex → b = 0) ∧
      (if x = m.logStartInfo.segmentStartIndex then m.logStartInfo.segmentStartOffset else 0) =
        logDataSize * b := by
  by_cases hx : x = m.logStartInfo.segmentStartIndex
  · exact ⟨m.startRecord, fun _ => rfl, fun h => absurd hx h, by rw [if_pos hx, hv.start_offset]⟩
  · exact ⟨0, fun h => absurd h hx, fun _ => rfl, by rw [if_neg hx, Int.natCast_zero, Int.mul_zero]⟩

/-- The file loop, from an interval `[lo, hi]` of files of the log that brackets the target's file
`i`, with reads of enough fuel: it stops at file `i`, with an end of the interval not below it.
Each probe reads the last record of a segment file and its first one from the log start. -/
theorem Layout.searchSegmentLoop_eq (hv : m.Layout N) (hp : m.InLog i k)
    (hl : (m.fileAt i)[k]? = some l) (hloc : comp.Locates m.logFrom (m.posIndex i k))
    {readFuel : Nat}
    (hread : (m.currentStart - m.logStartInfo.segmentStartIndex).toNat < readFuel) :
    ∀ fuel t lo hi, SameLog t m → t.Layout N → m.logStartInfo.segmentStartIndex ≤ lo →
      Brackets lo hi i → hi ≤ m.currentStart → (hi - lo).toNat < fuel →
      ∃ u hi', searchSegmentLoop comp m.logStartInfo readFuel fuel t lo hi = some (u, .ok (i, hi')) ∧
        i ≤ hi' ∧ SameLog u m ∧ u.Layout N := by
  intro fuel
  induction fuel with
  | zero =>
    intro t lo hi _ _ _ _ _ hfuel
    omega
  | succ fuel ih =>
    intro t lo hi hsame ht hlo hb hhi hfuel
    by_cases hlt : lo < hi
    · -- the probe `x` is a segment file of the log
      have hxlo := le_midpoint hb.le
      have hxhi := midpoint_lt hlt
      have hxs : m.logStartInfo.segmentStartIndex ≤ midpoint lo hi := by omega
      have hxc : midpoint lo hi < m.currentStart := by omega
      have hfile := hv.length_fileAt_of_lt hxs hxc
      have hN := hv.startRecord_lt
      have hflush : SameLog t.flushCommitLogsNoLock m := sameLog_flushCommitLogsNoLock.trans hsame
      -- its last record, record `N - 1`
      obtain ⟨le, hle, hlast⟩ := ht.getLastCommitLogDataOnSegment_of_lt (i := midpoint lo hi)
        (by rw [hsame.logStartInfo]; exact hxs) (by rw [hsame.currentStart]; exact hxc)
      rw [hsame.fileAt] at hle
      have hpe : m.InLog (midpoint lo hi) (N - 1) :=
        ⟨hxs, Int.le_of_lt hxc, by omega, fun _ => by omega⟩
      -- its first record from the log start, record `b`
      obtain ⟨b, hbs, hb0, hbegin⟩ := hv.exists_searchBegin (midpoint lo hi)
      have hbN : b < N := by
        by_cases hx : midpoint lo hi = m.logStartInfo.segmentStartIndex
        · rw [hbs hx]; exact hN
        · rw [hb0 hx]; omega
      have hpb : m.InLog (midpoint lo hi) b :=
        ⟨hxs, Int.le_of_lt hxc, by omega, fun hx => by rw [hbs hx]⟩
      obtain ⟨lb, hlb⟩ : ∃ lb, (m.fileAt (midpoint lo hi))[b]? = some lb :=
        ⟨_, List.getElem?_eq_getElem (by omega)⟩
      have hfirst := ht.getCommitLogFromOffsetV2_of_getElem? (hsame.inLog hpb)
        (by rw [hsame.fileAt]; exact hlb)
        (show (t.currentStart - midpoint lo hi).toNat < readFuel by rw [hsame.currentStart]; omega)
      have hstep : searchSegmentLoop comp m.logStartInfo readFuel (fuel + 1) t lo hi =
          if comp.greatThanRightBoundary le then
            searchSegmentLoop comp m.logStartInfo readFuel fuel t.flushCommitLogsNoLock
              (midpoint lo hi + 1) hi
          else if comp.lessThanLeftBoundary lb then
            searchSegmentLoop comp m.logStartInfo readFuel fuel t.flushCommitLogsNoLock lo
              (midpoint lo hi - 1)
          else some (t.flushCommitLogsNoLock, .ok (midpoint lo hi, hi)) := by
        rw [searchSegmentLoop, if_pos hlt]
        dsimp only
        rw [show lo + (hi - lo).tdiv 2 = midpoint lo hi from rfl, hlast]
        dsimp only
        rw [hbegin, hfirst]
      rw [hstep]
      have hfe := hv.getElem?_logFrom hpe hle
      have hfb := hv.getElem?_logFrom hpb hlb
      rcases Int.lt_trichotomy (midpoint lo hi) i with hxi | rfl | hxi
      · -- a file before the target's: its last record lies below the target
        have hright := hloc.right_true _ _ hfe
          (hv.posIndex_lt_of_lt hpe hp (canonical_of_getElem? hle) hxi)
        rw [if_pos hright]
        obtain ⟨hb', hsmall⟩ := hb.above hxi
        exact ih _ _ _ hflush ht.flush (by omega) hb' hhi (by omega)
      · -- the target's file: its last record is not below the target, its first not above
        have hk : k ≤ N - 1 := by
          have := (List.getElem?_eq_some_iff.mp hl).1
          omega
        have hbk : b ≤ k := by
          by_cases hx : midpoint lo hi = m.logStartInfo.segmentStartIndex
          · rw [hbs hx]; exact hp.start_le_record hx
          · rw [hb0 hx]; exact Nat.zero_le _
        have hright := hloc.right_false _ _ hfe (hv.posIndex_le_of_le hp hpe hk)
        have hleft := hloc.left_false _ _ hfb (hv.posIndex_le_of_le hpb hp hbk)
        rw [if_neg (by rw [hright]; decide), if_neg (by rw [hleft]; decide)]
        exact ⟨_, hi, rfl, hb.le_hi, hflush, ht.flush⟩
      · -- a file after the target's: its first record lies above the target
        have hright := hloc.right_false _ _ hfe
          (Nat.le_of_lt (hv.posIndex_lt_of_lt hp hpe (canonical_of_getElem? hl) hxi))
        have hleft := hloc.left_true _ _ hfb
          (hv.posIndex_lt_of_lt hp hpb (canonical_of_getElem? hl) hxi)
        rw [if_neg (by rw [hright]; decide), if_pos hleft]
        obtain ⟨hb', hsmall⟩ := hb.below hxi
        exact ih _ _ _ hflush ht.flush hlo hb' (by omega) (by omega)
    · -- one file left: the target's
      obtain ⟨hli, hhi'⟩ := hb.eq_of_not_lt hlt
      rw [searchSegmentLoop, if_neg hlt, hli]
      exact ⟨t, hi, rfl, Int.le_of_eq hhi'.symm, hsame, ht⟩

/-- The record loop over records `[lo, hi]` of the target's file `i`, from the log start's record
on, with reads of enough fuel: it stops at the target's record `k`, at offset `48 k`. -/
theorem Layout.searchRecordLoop_eq (hv : m.Layout N) (hp : m.InLog i k)
    (hl : (m.fileAt i)[k]? = some l) (hloc : comp.Locates m.logFrom (m.posIndex i k))
    {readFuel : Nat} (hread : (m.currentStart - i).toNat < readFuel) :
    ∀ fuel t lo hi off cur, SameLog t m → t.Layout N →
      (i = m.logStartInfo.segmentStartIndex → (m.startRecord : Int) ≤ lo) → 0 ≤ lo →
      Brackets lo hi k → hi < (m.fileAt i).length → (hi - lo).toNat < fuel →
      ∃ u, searchRecordLoop comp i readFuel fuel t lo hi off cur =
        some (u, (i, logDataSize * k, some l, none)) ∧ SameLog u m ∧ u.Layout N := by
  intro fuel
  induction fuel with
  | zero =>
    intro t lo hi _ _ _ _ _ _ _ _ hfuel
    omega
  | succ fuel ih =>
    intro t lo hi off cur hsame ht hstart hlo0 hb hhi hfuel
    have hklo := hb.lo_le
    have hkhi := hb.le_hi
    have hxlo := le_midpoint hb.le
    have hxhi := midpoint_le hb.le
    have hflush : SameLog t.flushCommitLogsNoLock m := sameLog_flushCommitLogsNoLock.trans hsame
    -- the probe is record `p` of file `i`
    obtain ⟨p, hpx⟩ : ∃ p : Nat, (p : Int) = midpoint lo hi :=
      ⟨(midpoint lo hi).toNat, Int.toNat_of_nonneg (by omega)⟩
    have hpp : m.InLog i p :=
      ⟨hp.start_le, hp.le_current, by omega, fun h => by have := hstart h; omega⟩
    obtain ⟨c, hc⟩ : ∃ c, (m.fileAt i)[p]? = some c := ⟨_, List.getElem?_eq_getElem (by omega)⟩
    have hreadp := ht.getCommitLogFromOffsetV2_of_getElem? (hsame.inLog hpp)
      (by rw [hsame.fileAt]; exact hc)
      (show (t.currentStart - i).toNat < readFuel by rw [hsame.currentStart]; exact hread)
    have hstep : searchRecordLoop comp i readFuel (fuel + 1) t lo hi off cur =
        if comp.lessThanLeftBoundary c then
          searchRecordLoop comp i readFuel fuel t.flushCommitLogsNoLock lo (midpoint lo hi - 1)
            (logDataSize * p) (some c)
        else if comp.greatThanRightBoundary c then
          searchRecordLoop comp i readFuel fuel t.flushCommitLogsNoLock (midpoint lo hi + 1) hi
            (logDataSize * p) (some c)
        else some (t.flushCommitLogsNoLock, (i, logDataSize * p, some c, none)) := by
      rw [searchRecordLoop, if_neg (Int.not_lt.mpr hb.le)]
      dsimp only
      rw [show lo + (hi - lo).tdiv 2 = midpoint lo hi from rfl, ← hpx, Int.mul_comm, hreadp]
    rw [hstep]
    have hfc := hv.getElem?_logFrom hpp hc
    rcases Nat.lt_trichotomy p k with hpk | rfl | hpk
    · -- a record before the target's
      have hpos := (hv.posIndex_lt_iff hpp hp).mpr hpk
      rw [if_neg (by rw [hloc.left_false _ _ hfc (Nat.le_of_lt hpos)]; decide),
        if_pos (hloc.right_true _ _ hfc hpos)]
      obtain ⟨hb', hsmall⟩ := hb.above (by omega)
      exact ih _ _ _ _ _ hflush ht.flush (fun h => by have := hstart h; omega) (by omega) hb' hhi
        (by omega)
    · -- the target's record
      rw [hl, Option.some.injEq] at hc
      subst hc
      rw [if_neg (by rw [hloc.left_false _ _ hfc (Nat.le_refl _)]; decide),
        if_neg (by rw [hloc.right_false _ _ hfc (Nat.le_refl _)]; decide)]
      exact ⟨_, rfl, hflush, ht.flush⟩
    · -- a record after the target's
      have hpos := (hv.posIndex_lt_iff hp hpp).mpr hpk
      rw [if_pos (hloc.left_true _ _ hfc hpos)]
      obtain ⟨hb', hsmall⟩ := hb.below (by omega)
      exact ih _ _ _ _ _ hflush ht.flush hstart hlo0 hb' (by omega) (by omega)

/-! ## The search -/

/-- A search by a comparator that locates the record at position `(i, k)` of the log, with its
bound above file `i` and enough fuel, answers that record at offset `48 k` of file `i`. -/
theorem Layout.searchLogDataByComparator_eq (hv : m.Layout N) (hp : m.InLog i k)
    (hl : (m.fileAt i)[k]? = some l) (hloc : comp.Locates m.logFrom (m.posIndex i k))
    (hend : i < comp.searchEndBoundary) {fuel : Nat}
    (hfuel : (m.currentStart - m.logStartInfo.segmentStartIndex).toNat + N < fuel) :
    ∃ u, m.searchLogDataByComparator fuel comp = some (u, (i, logDataSize * k, some l, none)) := by
  have hflush : SameLog m.flushCommitLogsNoLock m := sameLog_flushCommitLogsNoLock
  have hlen : k < (m.fileAt i).length := (List.getElem?_eq_some_iff.mp hl).1
  have hfile : (m.fileAt i).length ≤ N := hv.length_fileAt_le hp.start_le hp.le_current
  have hs := hp.start_le
  have hc := hp.le_current
  -- the log start read first
  have hread : (m.currentStart - m.logStartInfo.segmentStartIndex).toNat < fuel := by omega
  obtain ⟨r, hfirst⟩ := hv.getCommitLogFromOffsetV2_some hv.inLog_start.1 hread
  -- the file loop, over the files from the log start's up to the bound
  have hb : Brackets m.logStartInfo.segmentStartIndex
      (if comp.searchEndBoundary > m.flushCommitLogsNoLock.currentStart then
        m.flushCommitLogsNoLock.currentStart else comp.searchEndBoundary) i := by
    rw [hflush.currentStart]
    exact ⟨hp.start_le, by split <;> omega⟩
  obtain ⟨u, hi', hloop, hihi, hsu, hu⟩ := hv.searchSegmentLoop_eq hp hl hloc hread
    fuel _ _ _ hflush hv.flush le_rfl hb
    (by rw [hflush.currentStart]; split <;> omega) (by rw [hflush.currentStart]; split <;> omega)
  -- the last record of file `i`, and the record loop up to it
  obtain ⟨w, le, hsw, hw, hlast⟩ := hu.getLastCommitLogDataOnSegment_eq (i := i)
    (by rw [hsu.logStartInfo]; exact hp.start_le) (by rw [hsu.currentStart]; exact hp.le_current)
    (by rw [hsu.fileAt]; omega)
  rw [hsu.fileAt] at hlast
  obtain ⟨v, hrec, -, -⟩ := hv.searchRecordLoop_eq hp hl hloc
    (show (m.currentStart - i).toNat < fuel by omega) fuel w
    (if i = m.logStartInfo.segmentStartIndex then (m.startRecord : Int) else 0)
    (((m.fileAt i).length - 1 : Nat) : Int) m.logStartInfo.segmentStartOffset none (hsw.trans hsu) hw
    (fun h => by rw [if_pos h]) (by split <;> omega)
    ⟨by split
        · exact Int.ofNat_le.mpr (hp.start_le_record (by assumption))
        · exact Int.natCast_nonneg _, by omega⟩
    (by omega) (by split <;> omega)
  refine ⟨v, ?_⟩
  rw [← hv.start_offset] at hfirst
  unfold searchLogDataByComparator
  dsimp only
  rw [hfirst]
  dsimp only
  rw [hloop]
  dsimp only
  rw [if_neg (Int.not_lt.mpr hihi), hlast]
  dsimp only
  rw [hsu.logStartInfo, hv.start_offset, tdiv_logDataSize, tdiv_logDataSize]
  rw [hv.start_offset] at hrec
  exact hrec

end Loops

/-! ## Searching the whole log written -/

/-- A target at or past record `i · N + k` of the whole log bounds the search above file `i`. -/
theorem lt_tdiv_add_one (hN : 0 < N) {i c : Int} {k : Nat} (hi : 0 ≤ i)
    (hc : ((i.toNat * N + k : Nat) : Int) ≤ c) : i < c.tdiv N + 1 := by
  have hiN : i * N ≤ c := by
    have h := Int.toNat_of_nonneg hi
    push_cast at hc
    rw [h] at hc
    omega
  have hc0 : 0 ≤ c := Int.le_trans (Int.mul_nonneg hi (Int.natCast_nonneg N)) hiN
  rw [Int.tdiv_eq_ediv_of_nonneg hc0]
  have := Int.le_ediv_of_mul_le (by omega) hiN
  omega

variable {all : List CommitLogData} {i : Int} {k : Nat} {l : CommitLogData}

/-- On a run's state, a search against ranges that chain along the whole log written, the first
starting at 0 at least, finds the record whose range holds the target. -/
theorem History.search_range (hh : History N m all) (hN : 0 < N) {left right : CommitLogData → Int}
    (hchain : Chained left right all) {b : CommitLogData} (hb : all.head? = some b)
    (hbase : 0 ≤ left b) (hp : m.InLog i k) (hl : (m.fileAt i)[k]? = some l) {c : Int}
    (hc : left l ≤ c ∧ c ≤ right l) {fuel : Nat}
    (hfuel : (m.currentStart - m.logStartInfo.segmentStartIndex).toNat + N < fuel) :
    ∃ u, m.searchLogDataByComparator fuel (rangeComparator N c left right) =
      some (u, (i, logDataSize * k, some l, none)) := by
  have hv := hh.layout
  have hloc : (rangeComparator N c left right).Locates m.logFrom (m.posIndex i k) := by
    have hat := hv.getElem?_logFrom hp hl
    rw [hh.logFrom_eq] at hat ⊢
    exact rangeComparator_locates (hchain.drop _) N hat hc
  -- the record's range starts one at least past each earlier record of the whole log
  have hglobal := hchain.lo_add_le hb _ (hh.getElem?_fileAt hp hl)
  exact hv.searchLogDataByComparator_eq hp hl hloc
    (lt_tdiv_add_one (k := k) hN (Int.le_trans hh.start_nonneg hp.start_le) (by omega)) hfuel

/-- Commit log search finds the covering record: on every state of a run of accepted appends and
cleans, with `LOGROTATE_NUM = N > 0`, whose whole log written is contiguous with a first `MsgCnt`
and `MsgOffset` not negative, a search by count, by ID or by offset for a target in the range of
the record at a position `(i, k)` of the log answers that record at `(i, 48 k)`. -/
theorem searchLogData_finds_record {K : Int} (hN : 0 < N) (hK : 0 ≤ K) (h : AppendRun N K m all)
    (hcont : Contiguous all) (hbase : ∀ b ∈ all.head?, 0 ≤ b.msgCnt ∧ 0 ≤ b.msgOffset)
    (hp : m.InLog i k) (hl : (m.fileAt i)[k]? = some l) (c : Int) {fuel : Nat}
    (hfuel : (m.currentStart - m.logStartInfo.segmentStartIndex).toNat + N < fuel) :
    (l.msgCnt ≤ c → c ≤ l.msgCnt + l.msgNum - 1 →
      ∃ u, m.searchLogDataByMsgCnt fuel N c = some (u, (i, logDataSize * k, some l, none))) ∧
    (l.logID ≤ c → c ≤ l.lastMsgLogID →
      ∃ u, m.searchLogDataByMsgID fuel N c = some (u, (i, logDataSize * k, some l, none))) ∧
    (l.msgOffset ≤ c → c < l.msgOffset + l.msgSize →
      ∃ u, m.searchLogDataByMsgOffset fuel N c = some (u, (i, logDataSize * k, some l, none))) := by
  have hh := h.history hN hK
  obtain ⟨b, hb⟩ : ∃ b, all.head? = some b := by
    have hlen := (List.getElem?_eq_some_iff.mp (hh.getElem?_fileAt hp hl)).1
    cases all with
    | nil => exact absurd hlen (Nat.not_lt_zero _)
    | cons b _ => exact ⟨b, rfl⟩
  refine ⟨fun h₁ h₂ => ?_, fun h₁ h₂ => ?_, fun h₁ h₂ => ?_⟩
  · exact hh.search_range hN hcont.chained_cnt hb (hbase b hb).1 hp hl ⟨h₁, by omega⟩ hfuel
  · exact hh.search_range hN hcont.chained_logID hb (Int.le_of_lt (hh.first_logID b hb)) hp hl
      ⟨h₁, h₂⟩ hfuel
  · rw [searchLogDataByMsgOffset, msgOffsetComparator_eq]
    exact hh.search_range hN hcont.chained_offset hb (hbase b hb).2 hp hl ⟨h₁, by omega⟩ hfuel

/-- Five records written two a file, the log cleaned up to file 1: a search by count 3 finds the
fourth record, the second of file 1. -/
theorem searchLogData_finds_record_after_clean :
    ∃ m, AppendRun 2 0 m [⟨1, 0, 1, 0, 10, 0, 1⟩, ⟨2, 0, 2, 10, 10, 1, 1⟩, ⟨3, 0, 3, 20, 10, 2, 1⟩,
        ⟨4, 0, 4, 30, 10, 3, 1⟩, ⟨5, 0, 5, 40, 10, 4, 1⟩] ∧ m.logStartInfo = ⟨2, 1, 0⟩ ∧
      ∃ u, m.searchLogDataByMsgCnt 4 2 3 = some (u, (1, 48, some ⟨4, 0, 4, 30, 10, 3, 1⟩, none)) := by
  have h₀ : AppendRun 2 0
      { partition := 0, nLogID := 1, pLogID := 0, segments := fun _ => none, appender := [],
        committedLogs := [], commitCap := 400, bufSize := 400, currentStart := 0,
        currentCount := 0, logStartInfo := ⟨0, 0, 0⟩ } [] := .init 0 400 rfl
  have h₁ := AppendRun.append ⟨1, 0, 1, 0, 10, 0, 1⟩ true h₀ rfl
  have h₂ := AppendRun.append ⟨2, 0, 2, 10, 10, 1, 1⟩ true h₁ rfl
  have h₃ := AppendRun.append ⟨3, 0, 3, 20, 10, 2, 1⟩ true h₂ rfl
  have h₄ := AppendRun.append ⟨4, 0, 4, 30, 10, 3, 1⟩ true h₃ rfl
  have h₅ := AppendRun.append ⟨5, 0, 5, 40, 10, 4, 1⟩ true h₄ rfl
  have h₆ := AppendRun.clean 1 0 h₅ ⟨by decide +kernel, by decide +kernel, by decide +kernel,
    by decide +kernel⟩ (by decide +kernel)
  refine ⟨_, h₆, by decide +kernel, ?_⟩
  exact (searchLogData_finds_record (i := 1) (k := 1) (l := ⟨4, 0, 4, 30, 10, 3, 1⟩)
    (by decide) (Int.le_refl 0) h₆ (by decide) (fun b hb => by cases hb; decide)
    ⟨by decide +kernel, by decide +kernel, by decide +kernel, by decide +kernel⟩
    (by decide +kernel) 3 (by decide +kernel)).1 (by decide) (by decide)

/-- A first record with a negative count and offset: the search bound `-3 / 1 + 1` lies below
file 0, and the searches for its own count and offset find nothing. -/
theorem searchLogData_negative_count :
    ∃ m, AppendRun 1 0 m [⟨1, 0, 1, -3, 1, -3, 1⟩] ∧ Contiguous [⟨1, 0, 1, -3, 1, -3, 1⟩] ∧
      m.InLog 0 0 ∧ (m.fileAt 0)[0]? = some ⟨1, 0, 1, -3, 1, -3, 1⟩ ∧
      (∃ u, m.searchLogDataByMsgCnt 10 1 (-3) = some (u, (-2, 0, none, some .searchNotFound))) ∧
      ∃ u, m.searchLogDataByMsgOffset 10 1 (-3) = some (u, (-2, 0, none, some .searchNotFound)) := by
  have h₀ : AppendRun 1 0
      { partition := 0, nLogID := 1, pLogID := 0, segments := fun _ => none, appender := [],
        committedLogs := [], commitCap := 400, bufSize := 400, currentStart := 0,
        currentCount := 0, logStartInfo := ⟨0, 0, 0⟩ } [] := .init 0 400 rfl
  have h₁ := AppendRun.append ⟨1, 0, 1, -3, 1, -3, 1⟩ true h₀ rfl
  exact ⟨_, h₁, by decide, ⟨by decide +kernel, by decide +kernel, by decide +kernel,
    by decide +kernel⟩, by decide +kernel, ⟨_, rfl⟩, ⟨_, rfl⟩⟩

end TopicCommitLogMgr

end Nsq
