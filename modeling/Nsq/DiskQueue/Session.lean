import Mathlib.Data.List.GetD
import Nsq.DiskQueue.ResetRead
import Nsq.DiskQueue.ResetWrite

/-!
# A consumer's session with the reader

The calls a consumer makes on `diskQueueReader` over a written log: `TryReadOne`, `ConfirmRead`,
`ResetReadToConfirmed`, `ResetReadToOffset`, `SkipReadToOffset` and `SkipReadToEnd`, with offsets
on message boundaries, as the channel passes them. What they are for is `Cursor`: a read index and
a confirmed index into the messages, the confirmed one never after the read one. The reader
refines it (`readerRun_refines`): a run of calls answers what the cursor's run answers, each read
the message at the read index with its offset, frame size and count.

The reader's invariant is `SessionAt i j`: read on the `i`-th boundary, confirmed on the `j`-th.
Unlike `ReaderInv`, confirmed may stand at the end of the file before the queue end's position
after a roll: `internalConfirm` walks from confirmed towards the read position, and a walk that
covers a file stops at its end.

`ResetLastReadOne` gives the last read back by moving the position back by the frame's size
within its file. After a read in a session it restores the session before it
(`readOne_resetLastReadOne`), except after a frame that filled its file, which the read closed
and left for the next one.
-/

namespace Nsq

namespace DiskQueueReader

open FrameLog

/-! ## What a read leaves alone -/

/-- What reading leaves alone: the confirmed position, the queue end and the exit flag. -/
structure ReadKeeps (d d' : DiskQueueReader) : Prop where
  confirmed : d'.confirmedQueueInfo = d.confirmedQueueInfo
  queueEnd : d'.queueEndInfo = d.queueEndInfo
  running : d'.exitFlag = d.exitFlag

theorem ReadKeeps.refl (d : DiskQueueReader) : ReadKeeps d d := ⟨rfl, rfl, rfl⟩

theorem ReadKeeps.trans {d₁ d₂ d₃ : DiskQueueReader} (h₁ : ReadKeeps d₁ d₂) (h₂ : ReadKeeps d₂ d₃) :
    ReadKeeps d₁ d₃ :=
  ⟨h₂.confirmed.trans h₁.confirmed, h₂.queueEnd.trans h₁.queueEnd, h₂.running.trans h₁.running⟩

variable {disk : Disk}

theorem ensureReadBuffer_keeps {d d' : DiskQueueReader} {h h' : OsFile} {need p cfe : Int}
    (he : ensureReadBuffer disk d h need p cfe = .ok (d', h')) : ReadKeeps d d' := by
  unfold ensureReadBuffer at he
  dsimp only at he
  split_ifs at he <;> simp only [Except.ok.injEq, Prod.mk.injEq] at he <;>
    obtain ⟨rfl, -⟩ := he <;> exact ⟨rfl, rfl, rfl⟩

/-- The `CheckFileOpen` loop moves the read position and the open file only. -/
theorem checkFileOpen_keeps (d : DiskQueueReader) : ReadKeeps d (checkFileOpen disk d).1 := by
  fun_induction checkFileOpen disk d with
  | case1 d hopen => exact ReadKeeps.refl d
  | case2 d h hopen hnext ih =>
    refine ReadKeeps.trans ?_ ih
    exact ⟨rfl, rfl, rfl⟩
  | case3 d h hopen hstay => exact ⟨rfl, rfl, rfl⟩

/-- `readFrame` moves the read position, the open file and the buffer only: its failures leave
the reader it was given with the buffer and the file dropped. -/
theorem readFrame_keeps (d : DiskQueueReader) (h : OsFile) : ReadKeeps d (readFrame disk d h).1 := by
  rcases hc : (if d.readQueueInfo.endOffset.fileNum = d.queueEndInfo.endOffset.fileNum then
      some d.queueEndInfo.endOffset.pos
    else if d.readQueueInfo.endOffset.fileNum < d.queueEndInfo.endOffset.fileNum then
      some ((disk.contents h.fileNum).length : Int) else none) with _ | cfe
  · simp only [readFrame, hc]
    exact ⟨rfl, rfl, rfl⟩
  rcases he₁ : ensureReadBuffer disk d h 4 d.readQueueInfo.endOffset.pos cfe with e | ⟨d₁, h₁⟩
  · simp only [readFrame, hc, he₁]
    exact ⟨rfl, rfl, rfl⟩
  have k₁ := ensureReadBuffer_keeps he₁
  -- the frame's length, kept opaque: the kernel checks the unfolded body far faster without it
  obtain ⟨m, hm⟩ : ∃ m, BigEndian.decodeInt 4 (d₁.readBuffer.take 4) = m := ⟨_, rfl⟩
  by_cases h4 : d₁.readBuffer.length < 4
  · simp only [readFrame, hc, he₁, hm, h4, if_true]
    exact ⟨rfl, rfl, rfl⟩
  by_cases hsz : m ≤ 0 ∨ m > maxPossibleMsgSize
  · simp only [readFrame, hc, he₁, hm, h4, hsz, if_true, if_false]
    exact ⟨rfl, rfl, rfl⟩
  rcases he₃ : ensureReadBuffer disk { d₁ with readBuffer := d₁.readBuffer.drop 4 } h₁ m
      (d.readQueueInfo.endOffset.pos + 4) cfe with e | ⟨d₃, h₃⟩
  · simp only [readFrame, hc, he₁, hm, h4, hsz, he₃, if_false]
    exact ⟨rfl, rfl, rfl⟩
  have k := k₁.trans ((⟨rfl, rfl, rfl⟩ : ReadKeeps d₁ { d₁ with readBuffer := d₁.readBuffer.drop 4 }).trans
    (ensureReadBuffer_keeps he₃))
  by_cases hl : (d₃.readBuffer.length : Int) < m
  · simp only [readFrame, hc, he₁, hm, h4, hsz, he₃, hl, if_true, if_false]
    exact ⟨rfl, rfl, rfl⟩
  simp only [readFrame, hc, he₁, hm, h4, hsz, he₃, hl, if_false]
  split_ifs <;> exact k.trans ⟨rfl, rfl, rfl⟩

/-- `readOne` moves the read position, the open file and the buffer only. -/
theorem readOne_keeps (d : DiskQueueReader) : ReadKeeps d (readOne disk d).1 := by
  unfold readOne
  split_ifs
  · exact ReadKeeps.refl d
  · split
    · rename_i d₁ e he
      have : ReadKeeps d (checkFileOpen disk d).1 := checkFileOpen_keeps d
      rw [he] at this
      exact this
    · rename_i d₁ h he
      have : ReadKeeps d (checkFileOpen disk d).1 := checkFileOpen_keeps d
      rw [he] at this
      exact this.trans (readFrame_keeps d₁ h)

/-- `CheckFileOpen` moves the read position only to the start of a next file. -/
theorem checkFileOpen_pos_nonneg (d : DiskQueueReader) :
    0 ≤ d.readQueueInfo.endOffset.pos → 0 ≤ (checkFileOpen disk d).1.readQueueInfo.endOffset.pos := by
  fun_induction checkFileOpen disk d with
  | case1 d hopen => exact id
  | case2 d h hopen hnext ih => exact fun _ => ih (le_refl 0)
  | case3 d h hopen hstay => exact id

/-- After `readFrame` the file is closed with nothing buffered, or the read position lies past the
start of its file: a frame read inside a file leaves it open past the frame, and one that ends
its file closes it. -/
theorem readFrame_closed_or_past (d : DiskQueueReader) (h : OsFile)
    (hp : 0 ≤ d.readQueueInfo.endOffset.pos) :
    ((readFrame disk d h).1.readFile = none ∧ (readFrame disk d h).1.readBuffer = []) ∨
      0 < (readFrame disk d h).1.readQueueInfo.endOffset.pos := by
  rcases hc : (if d.readQueueInfo.endOffset.fileNum = d.queueEndInfo.endOffset.fileNum then
      some d.queueEndInfo.endOffset.pos
    else if d.readQueueInfo.endOffset.fileNum < d.queueEndInfo.endOffset.fileNum then
      some ((disk.contents h.fileNum).length : Int) else none) with _ | cfe
  · simp only [readFrame, hc, true_and, true_or]
  rcases he₁ : ensureReadBuffer disk d h 4 d.readQueueInfo.endOffset.pos cfe with e | ⟨d₁, h₁⟩
  · simp only [readFrame, hc, he₁, true_and, true_or]
  obtain ⟨m, hm⟩ : ∃ m, BigEndian.decodeInt 4 (d₁.readBuffer.take 4) = m := ⟨_, rfl⟩
  by_cases h4 : d₁.readBuffer.length < 4
  · simp only [readFrame, hc, he₁, hm, h4, if_true, true_and, true_or]
  by_cases hsz : m ≤ 0 ∨ m > maxPossibleMsgSize
  · simp only [readFrame, hc, he₁, hm, h4, hsz, if_true, if_false, true_and, true_or]
  rcases he₃ : ensureReadBuffer disk { d₁ with readBuffer := d₁.readBuffer.drop 4 } h₁ m
      (d.readQueueInfo.endOffset.pos + 4) cfe with e | ⟨d₃, h₃⟩
  · simp only [readFrame, hc, he₁, hm, h4, hsz, he₃, if_false, true_and, true_or]
  by_cases hl : (d₃.readBuffer.length : Int) < m
  · simp only [readFrame, hc, he₁, hm, h4, hsz, he₃, hl, if_true, if_false, true_and, true_or]
  simp only [readFrame, hc, he₁, hm, h4, hsz, he₃, hl, if_false]
  -- a frame that ends its file closes it; any other leaves the position past its bytes
  split_ifs <;> simp only [true_and, true_or, false_and, false_or]
  all_goals omega

/-- A `readOne` without error leaves the file closed with nothing buffered, or the read position
past the start of its file. -/
theorem readOne_closed_or_past {d : DiskQueueReader} (hp : 0 ≤ d.readQueueInfo.endOffset.pos)
    (hn : (readOne disk d).2.err = none) :
    ((readOne disk d).1.readFile = none ∧ (readOne disk d).1.readBuffer = []) ∨
      0 < (readOne disk d).1.readQueueInfo.endOffset.pos := by
  unfold readOne at hn ⊢
  split_ifs at hn ⊢ with hc
  rcases hco : checkFileOpen disk d with ⟨d₁, e | h⟩
  · simp [hco] at hn
  have hp₁ : 0 ≤ d₁.readQueueInfo.endOffset.pos := by
    have : 0 ≤ (checkFileOpen disk d).1.readQueueInfo.endOffset.pos := checkFileOpen_pos_nonneg d hp
    rwa [hco] at this
  exact readFrame_closed_or_past d₁ h hp₁

/-! ## Walking from confirmed towards the read position -/

section Walks

variable {disk : Disk} {q : FrameLog}

/-- Located positions in a later file lie at later offsets: a position at a smaller offset than
another is in the same file or an earlier one. -/
theorem Located.fileNum_le {p m : DiskQueueOffset} {v w : Int} (hp : q.Located p v)
    (hm : q.Located m w) (hvw : v < w) : p.fileNum ≤ m.fileNum := by
  obtain ⟨hp₀, -, hpos, -, hv⟩ := hp
  obtain ⟨hm₀, -, -, hsz, hw⟩ := hm
  by_contra hlt
  have hstart := @Segments.start_add_le q.size m.fileNum.toNat p.fileNum.toNat (by omega)
  have hsize : q.size m.fileNum.toNat = (q.files m.fileNum).length := by
    unfold size
    rw [Int.toNat_of_nonneg hm₀]
  unfold startOf at hv hw
  omega

/-- In one file, the position at the smaller offset is the earlier one. -/
theorem Located.pos_le {p m : DiskQueueOffset} {v w : Int} (hp : q.Located p v)
    (hm : q.Located m w) (hvw : v ≤ w) (hF : p.fileNum = m.fileNum) : p.pos ≤ m.pos := by
  obtain ⟨-, -, -, -, hv⟩ := hp
  obtain ⟨-, -, -, -, hw⟩ := hm
  rw [hF] at hv
  omega

/-- Located positions at increasing offsets are in order. -/
theorem Located.le_of_lt {p m : DiskQueueOffset} {v w : Int} (hp : q.Located p v)
    (hm : q.Located m w) (hvw : v < w) : p.Le m := by
  rcases Int.lt_or_eq_of_le (Located.fileNum_le hp hm hvw) with h | h
  · exact Or.inl h
  · exact Or.inr ⟨h, Located.pos_le hp hm hvw.le h⟩

variable (hcont : ∀ f, disk.contents f = q.files f)
  (hpres : ∀ f, q.files f ≠ [] → disk.dataFile f ≠ none)

include hcont hpres in
/-- The forward walk from a located position `o`, by a positive distance whose target does not
pass a located bound `m`: it lands on the position located at the target. The walk takes a file
to end at its size while it started in a file before `m`'s, and at `m`'s position when it started
in `m`'s file; either way the target lies within. The recursion is on the files left before
`m`'s. -/
theorem stepForward_located_below (hq : q.WF) (hf : q.Flat) (cur : DiskQueueOffset)
    {o m : DiskQueueOffset} {v s w : Int} (hcur : cur.fileNum ≤ o.fileNum)
    (ho : q.Located o v) (hm : q.Located m w) (hs : 0 < s) (hend : v + s ≤ w) :
    ∃ p', stepForward disk cur m s o = .ok p' ∧ q.Located p' (v + s) := by
  have hom : o.fileNum ≤ m.fileNum := Located.fileNum_le ho hm (by omega)
  obtain ⟨h₀, hF, hpos, hsz, hv⟩ := ho
  have hmloc := hm
  obtain ⟨hm₀, hmF, hmpos, hmsz, hw⟩ := hm
  have hstart := startOf_succ q h₀
  -- where the walk takes `o`'s file to end, and that the target is not before it
  obtain ⟨fileEnd, hfe, hfe_le, hfe_m⟩ : ∃ fileEnd,
      (if cur.fileNum < m.fileNum then getQueueSegmentEnd disk o.fileNum else .ok m.pos) =
        .ok fileEnd ∧ fileEnd ≤ (q.files o.fileNum).length ∧
        (o.fileNum = m.fileNum → m.pos ≤ fileEnd) := by
    by_cases hlt : cur.fileNum < m.fileNum
    · -- the walk asks the disk; `o`'s file holds something, or the target would pass `m`
      have hne : q.files o.fileNum ≠ [] := by
        rcases Int.lt_or_eq_of_le hF with hlast | heq
        · have := hf.full o.fileNum.toNat (by omega)
          rwa [Int.toNat_of_nonneg h₀] at this
        · intro hnil
          have hmo : m.fileNum = o.fileNum := by omega
          rw [hnil] at hsz
          rw [hmo, hnil] at hmsz
          rw [hmo] at hw
          simp only [List.length_nil, Nat.cast_zero] at hsz hmsz
          omega
      refine ⟨_, ?_, le_refl _, fun heq => by rw [heq]; exact hmsz⟩
      rw [if_pos hlt]
      simp only [getQueueSegmentEnd, dataFile_of_ne_nil hcont hpres hne]
    · have heq : o.fileNum = m.fileNum := by omega
      refine ⟨m.pos, by rw [if_neg hlt], by rw [heq]; exact hmsz, fun _ => le_refl _⟩
  rw [stepForward, hfe]
  dsimp only
  by_cases hgo : s > fileEnd - o.pos
  · -- the target lies past this file, so this is not `m`'s file
    have hlt : o.fileNum < m.fileNum := by
      rcases Int.lt_or_eq_of_le hom with hlt | heq
      · exact hlt
      · have := hfe_m heq
        rw [heq] at hv
        omega
    have hfull : fileEnd = (q.files o.fileNum).length := by
      rw [if_pos (lt_of_le_of_lt hcur hlt)] at hfe
      simp only [getQueueSegmentEnd] at hfe
      split at hfe
      · rename_i file hfile
        cases hfe
        have := hcont o.fileNum
        rw [Disk.contents, hfile, Option.getD_some] at this
        rw [this]
      · cases hfe
    have hnext : (⟨o.fileNum + 1, 0⟩ : DiskQueueOffset).greatThan m = false := by
      rw [DiskQueueOffset.greatThan_eq_false_iff]
      unfold DiskQueueOffset.Le
      dsimp only
      omega
    have hloc : q.Located ⟨o.fileNum + 1, 0⟩ (v + (fileEnd - o.pos)) :=
      ⟨by dsimp only; omega, by dsimp only; omega, le_refl _, by simp, by dsimp only; omega⟩
    rw [if_pos hgo, dif_neg (Bool.eq_false_iff.mp hnext)]
    by_cases hzero : s - (fileEnd - o.pos) = 0
    · rw [if_pos hzero]
      exact ⟨_, rfl, by rwa [show v + (fileEnd - o.pos) = v + s by omega] at hloc⟩
    · rw [if_neg hzero]
      obtain ⟨p', hwalk, hp'⟩ := stepForward_located_below hq hf cur (by dsimp only; omega) hloc
        hmloc (s := s - (fileEnd - o.pos)) (by omega) (by omega)
      exact ⟨p', hwalk, by rwa [show v + (fileEnd - o.pos) + (s - (fileEnd - o.pos)) = v + s by
        ring] at hp'⟩
  · have hstop : (⟨o.fileNum, o.pos + s⟩ : DiskQueueOffset).greatThan m = false := by
      rw [DiskQueueOffset.greatThan_eq_false_iff]
      unfold DiskQueueOffset.Le
      dsimp only
      rcases Int.lt_or_eq_of_le hom with hlt | heq
      · exact Or.inl hlt
      · rw [heq] at hv
        exact Or.inr ⟨heq, by omega⟩
    refine ⟨⟨o.fileNum, o.pos + s⟩, ?_, h₀, hF, by dsimp only; omega, by dsimp only; omega,
      by dsimp only; omega⟩
    rw [if_neg hgo, if_neg (Bool.eq_false_iff.mp hstop)]
termination_by (m.fileNum - o.fileNum).toNat
decreasing_by omega

include hcont hpres in
/-- `stepOffset` forward from a located position to a later offset, bounded by a located position
at or after the target, as `internalConfirm` walks from confirmed towards the read position: it
lands on the position located at the target. -/
theorem stepOffset_forward_below (hq : q.WF) (hf : q.Flat) {c r : DiskQueueEndInfo} {t : Int}
    (hc : q.Located c.endOffset c.virtualEnd) (hr : q.Located r.endOffset r.virtualEnd)
    (hct : c.virtualEnd < t) (htr : t ≤ r.virtualEnd) :
    ∃ p', stepOffset disk c (t - c.offset) r = .ok p' ∧ q.Located p' t := by
  have hF := Located.fileNum_le hc hr (by omega)
  have h₀ := hc.2.2.2.2
  have hpos := hc.2.2.1
  unfold stepOffset DiskQueueEndInfo.offset
  rw [if_neg (by omega), if_neg (by omega), if_neg (by omega), if_neg (by omega), if_neg (by omega)]
  obtain ⟨p', hwalk, hp'⟩ := stepForward_located_below hcont hpres hq hf c.endOffset (le_refl _) hc hr
    (s := t - c.virtualEnd) (by omega) (by omega)
  exact ⟨p', hwalk, by rwa [show c.virtualEnd + (t - c.virtualEnd) = t by ring] at hp'⟩

end Walks

/-! ## The session invariant -/

section Session

variable (maxBytesPerFile : Int) (ds : List (List UInt8))

/-- `e` on the `i`-th message boundary of `ds`, at a position located there: the writer's end
after `i` messages, or the end of the file before it. -/
def OnBoundary (i : Nat) (e : DiskQueueEndInfo) : Prop :=
  i ≤ ds.length ∧ e.virtualEnd = frameOffset ds i ∧ e.totalMsgCnt = i ∧
    (empty.appendAll maxBytesPerFile ds).Located e.endOffset (frameOffset ds i)

/-- The reader in a session over the log of `ds`: the queue end is the log's, the read position on
the `i`-th boundary, confirmed on the `j`-th with `j ≤ i`, the buffer agreeing with the file at
the read position, and the reader running. -/
structure SessionAt (disk : Disk) (i j : Nat) (d : DiskQueueReader) : Prop where
  queueEnd : d.queueEndInfo = (empty.appendAll maxBytesPerFile ds).last
  read : AtBoundary maxBytesPerFile ds i d.readQueueInfo
  confirmed : OnBoundary maxBytesPerFile ds j d.confirmedQueueInfo
  confirmed_le : j ≤ i
  buffer : BufferAt disk d.readQueueInfo.endOffset d
  running : d.exitFlag = false

variable {maxBytesPerFile ds} {disk : Disk}

theorem AtBoundary.onBoundary {i : Nat} {e : DiskQueueEndInfo}
    (h : AtBoundary maxBytesPerFile ds i e) : OnBoundary maxBytesPerFile ds i e :=
  ⟨h.1, h.2.1, h.2.2.1, h.2.2.2.1⟩

/-- Before the last boundary the two readings of a boundary agree. -/
theorem OnBoundary.atBoundary {i : Nat} {e : DiskQueueEndInfo}
    (h : OnBoundary maxBytesPerFile ds i e) (hi : i < ds.length) : AtBoundary maxBytesPerFile ds i e :=
  ⟨h.1, h.2.1, h.2.2.1, h.2.2.2, fun h' => absurd h' (by omega)⟩

/-- One frame offset names one boundary. -/
theorem frameOffset_inj {i j : Nat} (hi : i ≤ ds.length) (hj : j ≤ ds.length)
    (h : frameOffset ds i = frameOffset ds j) : i = j := by
  rcases Nat.lt_trichotomy i j with hlt | heq | hgt
  · exact absurd h (ne_of_lt (frameOffset_lt ds hlt hj))
  · exact heq
  · exact absurd h (ne_of_gt (frameOffset_lt ds hgt hi))

/-- The invariant as `ReaderInv` has it, when confirmed is before the last boundary. -/
theorem SessionAt.readerInv {i j : Nat} {d : DiskQueueReader}
    (hs : SessionAt maxBytesPerFile ds disk i j d) (hj : j < ds.length) :
    ReaderInv maxBytesPerFile ds disk d :=
  ⟨hs.queueEnd, ⟨i, hs.read⟩, ⟨j, hs.confirmed.atBoundary hj⟩, by
    rw [DiskQueueEndInfo.offset, DiskQueueEndInfo.offset, hs.confirmed.2.1, hs.read.2.1]
    exact frameOffset_le ds hs.confirmed_le hs.read.1, hs.buffer, hs.running⟩

/-- A reader with read and confirmed on one boundary, as the skips leave it, is in a session
there. -/
theorem ReaderInv.sessionAt {k : Nat} {d : DiskQueueReader} (hd : ReaderInv maxBytesPerFile ds disk d)
    (hrc : d.readQueueInfo = d.confirmedQueueInfo) (hk : AtBoundary maxBytesPerFile ds k d.readQueueInfo) :
    SessionAt maxBytesPerFile ds disk k k d :=
  ⟨hd.queueEnd, hk, by rw [← hrc]; exact hk.onBoundary, le_refl _, hd.buffer, hd.running⟩

end Session

/-! ## Reading -/

/-- What reading the `i`-th message of `ds` answers: its frame's offset and size, the count after
it, and its payload. -/
def messageAt (ds : List (List UInt8)) (i : Nat) : ReadResult :=
  ⟨frameOffset ds i, 4 + (ds.getD i []).length, (i : Int) + 1, ds.getD i [], none⟩

/-- The writer's end after one more message is the end after the frame of that message. -/
theorem boundary_succ (maxBytesPerFile : Int) (ds : List (List UInt8)) {i : Nat} (hi : i < ds.length) :
    boundary maxBytesPerFile ds (i + 1) =
      (boundary maxBytesPerFile ds i).afterFrame maxBytesPerFile (ds.getD i []) := by
  rw [boundary, boundary, List.take_succ_eq_append_getElem hi, DiskQueueWriter.appendAll_concat, append_last,
    List.getD_eq_getElem _ _ hi]

/-- `TryReadOne` answers the read of one frame when the queue end lies ahead and the read has no
error. -/
theorem tryReadOne_of_readOne {disk : Disk} {d d' : DiskQueueReader} {r : ReadResult} (fuel : Nat)
    (hg : d.queueEndInfo.endOffset.greatThan d.readQueueInfo.endOffset = true)
    (hr : readOne disk d = (d', r)) (hn : r.err = none) :
    tryReadOne (fuel + 1) disk d = some (d', r, true) := by
  simp only [tryReadOne, hg, if_true, hr, hn]

section Read

variable {maxBytesPerFile : Int} {ds : List (List UInt8)} {disk : Disk}

/-- A position on a boundary before the last lies before the queue end. -/
theorem AtBoundary.ahead {i : Nat} {e : DiskQueueEndInfo} (he : AtBoundary maxBytesPerFile ds i e)
    (hi : i < ds.length) :
    (empty.appendAll maxBytesPerFile ds).last.endOffset.greatThan e.endOffset = true := by
  have hlast : AtBoundary maxBytesPerFile ds ds.length (empty.appendAll maxBytesPerFile ds).last :=
    atBoundary_last
  have hlt := frameOffset_lt ds hi (le_refl _)
  have hF := Located.fileNum_le he.2.2.2.1 hlast.2.2.2.1 hlt
  apply greatThan_of_lt
  rcases Int.lt_or_eq_of_le hF with h | h
  · exact Or.inl h
  · refine Or.inr ⟨h, ?_⟩
    have := he.2.2.2.1.2.2.2.2
    have := hlast.2.2.2.1.2.2.2.2
    rw [h] at *
    omega

/-- At the last boundary the read position is the queue end itself. -/
theorem AtBoundary.not_ahead {e : DiskQueueEndInfo} (he : AtBoundary maxBytesPerFile ds ds.length e) :
    (empty.appendAll maxBytesPerFile ds).last.endOffset.greatThan e.endOffset = false := by
  rw [he.2.2.2.2 rfl, DiskQueueOffset.greatThan_eq_false_iff]
  exact DiskQueueOffset.le_refl _

variable (hcont : ∀ f, disk.contents f = (empty.appendAll maxBytesPerFile ds).files f)
  (hpres : ∀ f, (empty.appendAll maxBytesPerFile ds).files f ≠ [] → disk.dataFile f ≠ none)
  (hsizes : ∀ data ∈ ds, 0 < data.length ∧ (data.length : Int) ≤ maxPossibleMsgSize)

include hcont hpres hsizes in
/-- `readOne` at the writer's end after `i` messages answers the `i`-th message and moves on to
the writer's end after it, confirmed untouched. -/
theorem readOne_session_boundary {i j : Nat} {d : DiskQueueReader}
    (hs : SessionAt maxBytesPerFile ds disk i j d) (hi : i < ds.length)
    (heq : d.readQueueInfo = boundary maxBytesPerFile ds i) :
    ∃ d', readOne disk d = (d', messageAt ds i) ∧ SessionAt maxBytesPerFile ds disk (i + 1) j d' ∧
      d'.readQueueInfo = boundary maxBytesPerFile ds (i + 1) := by
  have hcnt := hs.read.2.2.1
  have hr : ReaderAt disk (empty.appendAll maxBytesPerFile ds) d := by
    refine ⟨hs.queueEnd, hs.buffer, by omega, fun h => ?_⟩
    -- a zero count is the first boundary, at offset zero
    rw [DiskQueueEndInfo.offset, hs.read.2.1, show i = 0 by omega]
    simp [frameOffset]
  have hspells := spells_boundary maxBytesPerFile ds i
  rw [← heq, List.drop_eq_getElem_cons hi] at hspells
  obtain ⟨hsize, hmax⟩ := hsizes _ (List.getElem_mem hi)
  obtain ⟨d', hone, hpos, hr', -⟩ :=
    readOne_spells hcont hpres (log_spec maxBytesPerFile ds).1 hr hspells hsize hmax
  have hkeep : ReadKeeps d d' := by
    have : ReadKeeps d (readOne disk d).1 := readOne_keeps d
    rwa [hone] at this
  have hnext : d'.readQueueInfo = boundary maxBytesPerFile ds (i + 1) := by
    rw [hpos, heq, boundary_succ maxBytesPerFile ds hi, List.getD_eq_getElem _ _ hi]
  refine ⟨d', ?_, ⟨hr'.queueEnd, hnext ▸ atBoundary_boundary hi, hkeep.confirmed ▸ hs.confirmed,
    by have := hs.confirmed_le; omega, hr'.buffer, hkeep.running.trans hs.running⟩, hnext⟩
  rw [hone, frameResult, messageAt, DiskQueueEndInfo.offset, hs.read.2.1, hcnt,
    List.getD_eq_getElem _ _ hi]

include hcont hpres hsizes in
/-- `readOne` on the `i`-th boundary answers the `i`-th message: from the writer's end there
directly, and from the end of the file before it through `CheckFileOpen`, which moves on to the
writer's end before reading. -/
theorem readOne_session {i j : Nat} {d : DiskQueueReader}
    (hs : SessionAt maxBytesPerFile ds disk i j d) (hi : i < ds.length) :
    ∃ d', readOne disk d = (d', messageAt ds i) ∧ SessionAt maxBytesPerFile ds disk (i + 1) j d' ∧
      d'.readQueueInfo = boundary maxBytesPerFile ds (i + 1) := by
  rcases hs.read.eq_or_alias with heq | ⟨-, hpos, hnext⟩
  · exact readOne_session_boundary hcont hpres hsizes hs hi heq
  · -- at the end of the file before the boundary, which holds something and is on disk
    have hb : AtBoundary maxBytesPerFile ds i (boundary maxBytesPerFile ds i) := atBoundary_boundary hi.le
    obtain ⟨h₀, -, -, -, -⟩ := hs.read.2.2.2.1
    have hF : d.readQueueInfo.endOffset.fileNum < d.queueEndInfo.endOffset.fileNum := by
      have := hb.2.2.2.1.2.1
      rw [hnext, ← hs.queueEnd] at this
      exact this
    have hne := (log_spec maxBytesPerFile ds).2.files_ne_nil h₀ (by rw [← hs.queueEnd]; exact hF)
    have hfull : ((disk.contents d.readQueueInfo.endOffset.fileNum).length : Int) ≤
        d.readQueueInfo.endOffset.pos := by rw [hcont]; omega
    have hcnt : ¬ (d.readQueueInfo.totalMsgCnt ≤ 0 ∧ d.readQueueInfo.offset > 0) := by
      rw [DiskQueueEndInfo.offset, hs.read.2.1, hs.read.2.2.1]
      rintro ⟨hc, hv⟩
      rw [show i = 0 by omega] at hv
      simp [frameOffset] at hv
    have hone := readOne_nextFile hcnt hs.buffer hF hfull
      (dataFile_of_ne_nil hcont hpres hne ▸ Option.some_ne_none _)
    -- the reader moved on is in the session at the writer's end, with nothing open
    have hs' : SessionAt maxBytesPerFile ds disk i j
        { d with readQueueInfo := d.readQueueInfo.nextFile, readFile := none } :=
      ⟨hs.queueEnd, hnext ▸ hb, hs.confirmed, hs.confirmed_le,
        bufferAt_closed rfl (hs.buffer.buffer_eq_nil hfull), hs.running⟩
    rw [hone]
    exact readOne_session_boundary hcont hpres hsizes hs' hi hnext.symm

include hcont hpres hsizes in
/-- `TryReadOne` in a session on the `i`-th boundary before the last answers the `i`-th message
and moves the session to the next boundary. -/
theorem tryReadOne_session {i j : Nat} {d : DiskQueueReader}
    (hs : SessionAt maxBytesPerFile ds disk i j d) (hi : i < ds.length) (fuel : Nat) :
    ∃ d', tryReadOne (fuel + 1) disk d = some (d', messageAt ds i, true) ∧
      SessionAt maxBytesPerFile ds disk (i + 1) j d' := by
  obtain ⟨d', hone, hs', -⟩ := readOne_session hcont hpres hsizes hs hi
  exact ⟨d', tryReadOne_of_readOne fuel (hs.queueEnd ▸ hs.read.ahead hi) hone rfl, hs'⟩

/-- `TryReadOne` at the last boundary: no data, and nothing moves. -/
theorem tryReadOne_session_end {j : Nat} {d : DiskQueueReader}
    (hs : SessionAt maxBytesPerFile ds disk ds.length j d) (fuel : Nat) :
    tryReadOne (fuel + 1) disk d = some (d, .empty, false) := by
  have hg := hs.read.not_ahead
  rw [← hs.queueEnd] at hg
  simp only [tryReadOne, hg, Bool.false_eq_true, if_false]

end Read

/-! ## Giving a read back -/

section GiveBack

variable {maxBytesPerFile : Int} {ds : List (List UInt8)} {disk : Disk}

/-- The count a give-back of the `i`-th message restores, `i`, is the one `ResetLastReadOne`
takes: positive, or zero at offset zero. -/
theorem giveBack_cnt (ds : List (List UInt8)) (i : Nat) :
    (messageAt ds i).curCnt - 1 > 0 ∨ ((messageAt ds i).offset = 0 ∧ (messageAt ds i).curCnt - 1 = 0) := by
  rcases Nat.eq_zero_or_pos i with rfl | h
  · right
    simp [messageAt, frameOffset]
  · left
    simp only [messageAt]
    omega

/-- Giving back the `i`-th message when its frame did not end its file: the reader is moved back
to the writer's end before the frame, with nothing open. -/
theorem resetLastReadOne_of_not_roll {d : DiskQueueReader} {i : Nat} (hi : i < ds.length)
    (hd : d.readQueueInfo = boundary maxBytesPerFile ds (i + 1))
    (hroll : ¬ (boundary maxBytesPerFile ds i).endOffset.pos + ((ds.getD i []).length + 4) ≥
      maxBytesPerFile) :
    resetLastReadOne d (messageAt ds i).offset ((messageAt ds i).curCnt - 1) (messageAt ds i).movedSize =
      { d with readFile := none, readBuffer := [], readQueueInfo := boundary maxBytesPerFile ds i } := by
  have hend : d.readQueueInfo.endOffset = ⟨(boundary maxBytesPerFile ds i).endOffset.fileNum,
      (boundary maxBytesPerFile ds i).endOffset.pos + ((ds.getD i []).length + 4)⟩ := by
    rw [hd, boundary_succ maxBytesPerFile ds hi, afterFrame_of_not_roll maxBytesPerFile hroll]
  have hp := (located_boundary maxBytesPerFile ds i).2.2.1
  unfold resetLastReadOne
  dsimp only
  rw [if_neg (by rw [hend]; simp only [messageAt]; omega), if_pos (giveBack_cnt ds i)]
  congr 1
  refine DiskQueueEndInfo.ext (DiskQueueOffset.ext ?_ ?_) ?_ ?_
  · rw [hend]
  · rw [hend]
    simp only [messageAt]
    omega
  · simp only [messageAt, boundary_virtualEnd]
  · simp only [messageAt, boundary_totalMsgCnt maxBytesPerFile ds hi.le]
    omega

/-- Giving back the `i`-th message when its frame ended its file, so that the read closed the file
and moved to the next one: the position is not that far into the new file, and nothing moves. -/
theorem resetLastReadOne_of_roll {d : DiskQueueReader} {i : Nat} (hi : i < ds.length)
    (hd : d.readQueueInfo = boundary maxBytesPerFile ds (i + 1)) (hf : d.readFile = none)
    (hroll : (boundary maxBytesPerFile ds i).endOffset.pos + ((ds.getD i []).length + 4) ≥
      maxBytesPerFile) :
    resetLastReadOne d (messageAt ds i).offset ((messageAt ds i).curCnt - 1) (messageAt ds i).movedSize =
      d := by
  have hpos : d.readQueueInfo.endOffset.pos = 0 := by
    rw [hd, boundary_succ maxBytesPerFile ds hi, afterFrame_of_roll maxBytesPerFile hroll]
  unfold resetLastReadOne
  dsimp only
  rw [if_pos (by rw [hpos]; simp only [messageAt]; omega), ← hf]

variable (hcont : ∀ f, disk.contents f = (empty.appendAll maxBytesPerFile ds).files f)
  (hpres : ∀ f, (empty.appendAll maxBytesPerFile ds).files f ≠ [] → disk.dataFile f ≠ none)
  (hsizes : ∀ data ∈ ds, 0 < data.length ∧ (data.length : Int) ≤ maxPossibleMsgSize)

include hcont hpres hsizes in
/-- Reading the `i`-th message and giving it back at once, as `messagePump` does with a message
older than the last: when the frame did not end its file the session is back on the `i`-th
boundary, and when it did the read already closed the file and the give-back does nothing. -/
theorem readOne_resetLastReadOne {i j : Nat} {d : DiskQueueReader}
    (hs : SessionAt maxBytesPerFile ds disk i j d) (hi : i < ds.length) :
    ∃ d', readOne disk d = (d', messageAt ds i) ∧ SessionAt maxBytesPerFile ds disk (i + 1) j d' ∧
      (¬ (boundary maxBytesPerFile ds i).endOffset.pos + ((ds.getD i []).length + 4) ≥ maxBytesPerFile →
        SessionAt maxBytesPerFile ds disk i j (resetLastReadOne d' (messageAt ds i).offset
          ((messageAt ds i).curCnt - 1) (messageAt ds i).movedSize)) ∧
      ((boundary maxBytesPerFile ds i).endOffset.pos + ((ds.getD i []).length + 4) ≥ maxBytesPerFile →
        resetLastReadOne d' (messageAt ds i).offset ((messageAt ds i).curCnt - 1)
          (messageAt ds i).movedSize = d') := by
  obtain ⟨d', hone, hs', hnext⟩ := readOne_session hcont hpres hsizes hs hi
  refine ⟨d', hone, hs', fun hroll => ?_, fun hroll => ?_⟩
  · rw [resetLastReadOne_of_not_roll hi hnext hroll]
    exact ⟨hs'.queueEnd, atBoundary_boundary hi.le, hs'.confirmed, hs.confirmed_le,
      bufferAt_closed rfl rfl, hs'.running⟩
  · -- the read moved to the start of the next file, which it can only do with the file closed
    have hpos : d'.readQueueInfo.endOffset.pos = 0 := by
      rw [hnext, boundary_succ maxBytesPerFile ds hi, afterFrame_of_roll maxBytesPerFile hroll]
    have hclosed := readOne_closed_or_past hs.read.2.2.2.1.2.2.1 (by rw [hone]; rfl)
    rw [hone] at hclosed
    dsimp only at hclosed
    rcases hclosed with ⟨hf, -⟩ | hpast
    · exact resetLastReadOne_of_roll hi hnext hf hroll
    · omega

end GiveBack

/-! ## Confirming -/

section Confirm

variable {maxBytesPerFile : Int} {ds : List (List UInt8)} {disk : Disk}

/-- `ConfirmRead` to a boundary at or before confirmed: already confirmed, nothing moves. -/
theorem internalConfirm_le {i j k : Nat} {d : DiskQueueReader}
    (hs : SessionAt maxBytesPerFile ds disk i j d) (hkj : k ≤ j) :
    internalConfirm disk d (frameOffset ds k) k = (d, none) := by
  have hle := frameOffset_le ds hkj hs.confirmed.1
  have h₀ := frameOffset_nonneg ds (hkj.trans hs.confirmed.1)
  rw [internalConfirm, if_neg (by omega), if_pos (by rw [DiskQueueEndInfo.offset, hs.confirmed.2.1]; exact hle)]

/-- `ConfirmRead` to a boundary past the read position is refused, and nothing moves. -/
theorem internalConfirm_past {i j k : Nat} {d : DiskQueueReader}
    (hs : SessionAt maxBytesPerFile ds disk i j d) (hk : k ≤ ds.length) (hik : i < k) :
    internalConfirm disk d (frameOffset ds k) k = (d, some .confirmSizeInvalid) := by
  have hlt := frameOffset_lt ds hik hk
  have hle := frameOffset_le ds hs.confirmed_le hs.read.1
  have h₀ := frameOffset_nonneg ds hk
  rw [internalConfirm, if_neg (by omega), if_neg (by rw [DiskQueueEndInfo.offset, hs.confirmed.2.1]; omega),
    if_pos (by rw [DiskQueueEndInfo.offset, hs.read.2.1]; exact hlt)]

variable (hcont : ∀ f, disk.contents f = (empty.appendAll maxBytesPerFile ds).files f)
  (hpres : ∀ f, (empty.appendAll maxBytesPerFile ds).files f ≠ [] → disk.dataFile f ≠ none)

/-- `updateDepth` keeps a session: it moves only the depths and the waiting flag, and confirmed
only at the queue end's offset, whose boundary is the last and whose count is the end's. -/
theorem SessionAt.updateDepth {i k : Nat} {d : DiskQueueReader}
    (hs : SessionAt maxBytesPerFile ds disk i k d) :
    SessionAt maxBytesPerFile ds disk i k (DiskQueueReader.updateDepth d) := by
  obtain ⟨hread, hqe, hfile, hbuffer, -⟩ := updateDepth_keeps d
  have hconf : (DiskQueueReader.updateDepth d).confirmedQueueInfo = d.confirmedQueueInfo := by
    apply updateDepth_confirmed
    intro hoff
    rw [hs.queueEnd] at hoff ⊢
    have hlast : AtBoundary maxBytesPerFile ds ds.length (empty.appendAll maxBytesPerFile ds).last :=
      atBoundary_last
    have hn := frameOffset_inj hs.confirmed.1 (le_refl _)
      (hs.confirmed.2.1.symm.trans (hoff.symm.trans hlast.2.1))
    rw [hlast.2.2.1, hs.confirmed.2.2.1, hn]
  refine ⟨by rw [hqe]; exact hs.queueEnd, by rw [hread]; exact hs.read,
    by rw [hconf]; exact hs.confirmed, hs.confirmed_le, ?_, by rw [updateDepth_exitFlag]; exact hs.running⟩
  rw [hread]
  exact hs.buffer.congr hfile hbuffer

include hcont hpres in
/-- `ConfirmRead` to a boundary after confirmed and not after the read position: the walk from
confirmed lands on a position located there, and confirmed moves to it with the boundary's count. -/
theorem internalConfirm_session {i j k : Nat} {d : DiskQueueReader}
    (hs : SessionAt maxBytesPerFile ds disk i j d) (hjk : j < k) (hki : k ≤ i) :
    ∃ d', internalConfirm disk d (frameOffset ds k) k = (d', none) ∧
      SessionAt maxBytesPerFile ds disk i k d' ∧ d'.readQueueInfo = d.readQueueInfo := by
  have hk : k ≤ ds.length := hki.trans hs.read.1
  have hlt := frameOffset_lt ds hjk hk
  have hle := frameOffset_le ds hki hs.read.1
  have h₀ := frameOffset_nonneg ds hk
  have hlast : AtBoundary maxBytesPerFile ds ds.length (empty.appendAll maxBytesPerFile ds).last :=
    atBoundary_last
  have hc : (empty.appendAll maxBytesPerFile ds).Located d.confirmedQueueInfo.endOffset
      d.confirmedQueueInfo.virtualEnd := by rw [hs.confirmed.2.1]; exact hs.confirmed.2.2.2
  have hr : (empty.appendAll maxBytesPerFile ds).Located d.readQueueInfo.endOffset
      d.readQueueInfo.virtualEnd := by rw [hs.read.2.1]; exact hs.read.2.2.2.1
  obtain ⟨hwf, hflat⟩ := log_spec maxBytesPerFile ds
  obtain ⟨p, hstep, hp⟩ := stepOffset_forward_below hcont hpres hwf hflat hc hr
    (by rw [hs.confirmed.2.1]; exact hlt) (by rw [hs.read.2.1]; exact hle)
  -- the count checks pass: the count is the boundary's, and not zero past the start
  have hcnt : ¬ (frameOffset ds k = d.readQueueInfo.offset ∧ (k : Int) ≠ d.readQueueInfo.totalMsgCnt) := by
    rintro ⟨hv, hne⟩
    rw [DiskQueueEndInfo.offset, hs.read.2.1] at hv
    exact hne (by rw [hs.read.2.2.1, frameOffset_inj hk hs.read.1 hv])
  have hgt : p.greatThan d.queueEndInfo.endOffset = false := by
    rw [DiskQueueOffset.greatThan_eq_false_iff, hs.queueEnd]
    unfold DiskQueueOffset.Le
    rcases Int.lt_or_eq_of_le hp.2.1 with h | h
    · exact Or.inl h
    · exact Or.inr ⟨h, Located.pos_le hp hlast.2.2.2.1 (frameOffset_le ds hk (le_refl _)) h⟩
  have hend : ¬ frameOffset ds k > d.queueEndInfo.offset := by
    rw [hs.queueEnd, DiskQueueEndInfo.offset, hlast.2.1]
    exact not_lt.mpr (frameOffset_le ds hk (le_refl _))
  have hs' : SessionAt maxBytesPerFile ds disk i k
      { d with confirmedQueueInfo := ⟨p, frameOffset ds k, k⟩ } :=
    ⟨hs.queueEnd, hs.read, ⟨hk, rfl, rfl, hp⟩, hki, hs.buffer, hs.running⟩
  refine ⟨_, ?_, hs'.updateDepth, (updateDepth_keeps _).1⟩
  rw [internalConfirm, if_neg (by omega), if_neg (by rw [DiskQueueEndInfo.offset, hs.confirmed.2.1]; omega),
    if_neg (by rw [DiskQueueEndInfo.offset, hs.read.2.1]; omega)]
  simp only [show ¬ ((k : Int) = 0) by omega, and_false, if_false, hcnt, false_and, hstep, hgt, hend,
    Bool.false_eq_true, or_self]

/-- `ConfirmRead(-1)`: confirmed moves to the read position. -/
theorem internalConfirm_all {i j : Nat} {d : DiskQueueReader}
    (hs : SessionAt maxBytesPerFile ds disk i j d) (cnt : Int) :
    ∃ d', internalConfirm disk d (-1) cnt = (d', none) ∧ SessionAt maxBytesPerFile ds disk i i d' ∧
      d'.readQueueInfo = d.readQueueInfo := by
  have hs' : SessionAt maxBytesPerFile ds disk i i { d with confirmedQueueInfo := d.readQueueInfo } :=
    ⟨hs.queueEnd, hs.read, hs.read.onBoundary, le_refl _, hs.buffer, hs.running⟩
  exact ⟨_, by rw [internalConfirm, if_pos rfl], hs'.updateDepth, (updateDepth_keeps _).1⟩

end Confirm

/-! ## Skipping -/

section Skip

variable {maxBytesPerFile : Int} {ds : List (List UInt8)} {disk : Disk}

/-- `internalSkipTo` reads confirmed only through its offset while that is the read position's:
replacing confirmed by a position with the same offset changes no skip that succeeds. -/
theorem internalSkipTo_of_confirmed {d d' : DiskQueueReader} {c : DiskQueueEndInfo} {v cnt : Int}
    {b : Bool} (hcr : d.confirmedQueueInfo.offset = d.readQueueInfo.offset)
    (hc : c.offset = d.readQueueInfo.offset)
    (h : internalSkipTo disk { d with confirmedQueueInfo := c } v cnt b = (d', none)) :
    internalSkipTo disk d v cnt b = (d', none) := by
  by_cases hv : v = d.readQueueInfo.offset
  · -- the read position: both skips set read and confirmed from it
    rw [internalSkipTo, if_pos hv] at h ⊢
    exact h
  · rw [internalSkipTo, if_neg hv] at h ⊢
    dsimp only at h ⊢
    rw [if_neg (by rw [hc]; exact hv)] at h
    rw [if_neg (by rw [hcr]; exact hv)]
    rw [hc] at h
    rw [hcr]
    split_ifs at h ⊢ <;> first | exact h | simp at h | skip
    split at h <;> simp_all

/-- Dropping the open file and the buffer keeps a session. -/
theorem SessionAt.close {i j : Nat} {d : DiskQueueReader}
    (hs : SessionAt maxBytesPerFile ds disk i j d) :
    SessionAt maxBytesPerFile ds disk i j { d with readFile := none, readBuffer := [] } :=
  ⟨hs.queueEnd, hs.read, hs.confirmed, hs.confirmed_le, bufferAt_closed rfl rfl, hs.running⟩

variable (hcont : ∀ f, disk.contents f = (empty.appendAll maxBytesPerFile ds).files f)
  (hpres : ∀ f, (empty.appendAll maxBytesPerFile ds).files f ≠ [] → disk.dataFile f ≠ none)

include hcont hpres in
/-- In a session, `internalSkipTo` to a boundary, allowed below confirmed wherever the target lies
there, succeeds with read and confirmed on it. Confirmed at an alias of the last boundary has the
read position's offset, and the skip is then the one from confirmed on the read position. -/
theorem internalSkipTo_session {i j k : Nat} {d : DiskQueueReader}
    (hs : SessionAt maxBytesPerFile ds disk i j d) (hk : k ≤ ds.length) (back : Bool)
    (hback : frameOffset ds k < d.confirmedQueueInfo.offset → back = true) :
    ∃ d', internalSkipTo disk d (frameOffset ds k) k back = (d', none) ∧
      SessionAt maxBytesPerFile ds disk k k d' := by
  by_cases hj : j < ds.length
  · obtain ⟨d', hskip, hinv, hrc, hat⟩ :=
      internalSkipTo_boundary hcont hpres (hs.readerInv hj) hk back hback
    exact ⟨d', hskip, hinv.sessionAt hrc hat⟩
  · -- confirmed and read both on the last boundary
    have hj' : j = ds.length := by have := hs.confirmed.1; omega
    have hi : i = ds.length := by have := hs.read.1; have := hs.confirmed_le; omega
    have hoff : d.confirmedQueueInfo.offset = d.readQueueInfo.offset := by
      rw [DiskQueueEndInfo.offset, DiskQueueEndInfo.offset, hs.confirmed.2.1, hs.read.2.1, hj', hi]
    have hd₁ : ReaderInv maxBytesPerFile ds disk { d with confirmedQueueInfo := d.readQueueInfo } :=
      ⟨hs.queueEnd, ⟨i, hs.read⟩, ⟨i, hs.read⟩, le_refl _, hs.buffer, hs.running⟩
    obtain ⟨d', hskip, hinv, hrc, hat⟩ := internalSkipTo_boundary hcont hpres hd₁ hk back
      (fun h => hback (by rw [hoff]; exact h))
    exact ⟨d', internalSkipTo_of_confirmed hoff rfl hskip, hinv.sessionAt hrc hat⟩

include hcont hpres in
/-- `ResetReadToOffset` to any boundary, forward or back, succeeds with both positions on it. -/
theorem resetReadToOffset_session {i j k : Nat} {d : DiskQueueReader}
    (hs : SessionAt maxBytesPerFile ds disk i j d) (hk : k ≤ ds.length) :
    ∃ d', resetReadToOffset disk d (frameOffset ds k) k = (d', some d'.confirmedQueueInfo, none) ∧
      SessionAt maxBytesPerFile ds disk k k d' := by
  obtain ⟨d', hskip, hs'⟩ := internalSkipTo_session hcont hpres hs.close hk
    (decide (frameOffset ds k < d.confirmedQueueInfo.offset)) decide_eq_true
  refine ⟨d', ?_, hs'⟩
  rw [resetReadToOffset, if_neg (by rw [hs.running]; exact Bool.false_ne_true)]
  dsimp only
  rw [hskip]

include hcont hpres in
/-- `SkipReadToOffset` to a boundary at or after confirmed succeeds as the reset does. -/
theorem skipReadToOffset_session {i j k : Nat} {d : DiskQueueReader}
    (hs : SessionAt maxBytesPerFile ds disk i j d) (hk : k ≤ ds.length) (hjk : j ≤ k) :
    ∃ d', skipReadToOffset disk d (frameOffset ds k) k = (d', some d'.confirmedQueueInfo, none) ∧
      SessionAt maxBytesPerFile ds disk k k d' := by
  have hle := frameOffset_le ds hjk hk
  obtain ⟨d', hskip, hs'⟩ := internalSkipTo_session hcont hpres hs hk false
    (fun h => absurd h (by rw [DiskQueueEndInfo.offset, hs.confirmed.2.1]; omega))
  refine ⟨d', ?_, hs'⟩
  rw [skipReadToOffset, if_neg (by rw [hs.running]; exact Bool.false_ne_true)]
  dsimp only
  rw [hskip]

/-- `SkipReadToOffset` below confirmed fails with `ErrMoveOffsetInvalid`, only closing the file. -/
theorem skipReadToOffset_session_below {i j k : Nat} {d : DiskQueueReader}
    (hs : SessionAt maxBytesPerFile ds disk i j d) (hkj : k < j) :
    skipReadToOffset disk d (frameOffset ds k) k =
      ({ d with readFile := none, readBuffer := [] }, some d.confirmedQueueInfo,
        some .moveOffsetInvalid) := by
  have hlt := frameOffset_lt ds hkj hs.confirmed.1
  have hle := frameOffset_le ds hs.confirmed_le hs.read.1
  rw [skipReadToOffset, if_neg (by rw [hs.running]; exact Bool.false_ne_true)]
  dsimp only
  rw [internalSkipTo, if_neg (by rw [DiskQueueEndInfo.offset, hs.read.2.1]; omega)]
  dsimp only
  rw [if_neg (by rw [DiskQueueEndInfo.offset, hs.confirmed.2.1]; omega),
    if_pos ⟨by rw [DiskQueueEndInfo.offset, hs.confirmed.2.1]; exact hlt, rfl⟩]

include hcont hpres in
/-- `ResetReadToConfirmed` moves the read position back to confirmed. -/
theorem resetReadToConfirmed_session {i j : Nat} {d : DiskQueueReader}
    (hs : SessionAt maxBytesPerFile ds disk i j d) :
    ∃ d', resetReadToConfirmed disk d = (d', some d'.confirmedQueueInfo, none) ∧
      SessionAt maxBytesPerFile ds disk j j d' := by
  obtain ⟨d', hskip, hs'⟩ := internalSkipTo_session hcont hpres hs hs.confirmed.1 false
    (fun h => absurd h (by rw [DiskQueueEndInfo.offset, hs.confirmed.2.1]; exact lt_irrefl _))
  refine ⟨d', ?_, hs'⟩
  have hv : d.confirmedQueueInfo.offset = frameOffset ds j := hs.confirmed.2.1
  have hc : d.confirmedQueueInfo.totalMsgCnt = j := hs.confirmed.2.2.1
  rw [resetReadToConfirmed, if_neg (by rw [hs.running]; exact Bool.false_ne_true)]
  dsimp only
  rw [hv, hc, hskip]

include hcont hpres in
/-- `SkipReadToEnd` moves both positions to the queue end itself. -/
theorem skipReadToEnd_session {i j : Nat} {d : DiskQueueReader}
    (hs : SessionAt maxBytesPerFile ds disk i j d) :
    ∃ d', skipReadToEnd disk d = (d', some d'.confirmedQueueInfo, none) ∧
      SessionAt maxBytesPerFile ds disk ds.length ds.length d' ∧
      d'.readQueueInfo = (empty.appendAll maxBytesPerFile ds).last := by
  have hlast : AtBoundary maxBytesPerFile ds ds.length (empty.appendAll maxBytesPerFile ds).last :=
    atBoundary_last
  obtain ⟨d', hskip, hs'⟩ := internalSkipTo_session hcont hpres hs (le_refl _) false
    (fun h => absurd h (by
      rw [DiskQueueEndInfo.offset, hs.confirmed.2.1]
      exact not_lt.mpr (frameOffset_le ds hs.confirmed.1 (le_refl _))))
  have hv : d.queueEndInfo.offset = frameOffset ds ds.length := by
    rw [hs.queueEnd, DiskQueueEndInfo.offset, hlast.2.1]
  have hc : d.queueEndInfo.totalMsgCnt = ds.length := by rw [hs.queueEnd, hlast.2.2.1]
  -- the skip leaves read on the last boundary, at the end's own position
  have hpos : d'.readQueueInfo.endOffset = d'.queueEndInfo.endOffset := by
    rw [hs'.read.2.2.2.2 rfl, hs'.queueEnd]
  refine ⟨{ d' with confirmedQueueInfo := d'.queueEndInfo, readQueueInfo := d'.queueEndInfo },
    ?_, ⟨hs'.queueEnd, by rw [hs'.queueEnd]; exact hlast, by rw [hs'.queueEnd]; exact hlast.onBoundary,
      le_refl _, by rw [← hpos]; exact hs'.buffer, hs'.running⟩, hs'.queueEnd⟩
  rw [skipReadToEnd, if_neg (by rw [hs.running]; exact Bool.false_ne_true)]
  dsimp only
  rw [hv, hc, hskip]

end Skip

/-! ## The log growing -/

section Grow

variable {maxBytesPerFile : Int} {ds : List (List UInt8)} {disk disk' : Disk}

/-- Appending to the messages appends to their log. -/
theorem log_append (ds more : List (List UInt8)) :
    empty.appendAll maxBytesPerFile (ds ++ more) =
      (empty.appendAll maxBytesPerFile ds).appendAll maxBytesPerFile more := by
  rw [appendAll, appendAll, appendAll, List.foldl_append]

/-- Appending only extends the log's files. -/
theorem files_prefix_append (ds more : List (List UInt8)) (f : Int) :
    (empty.appendAll maxBytesPerFile ds).files f <+:
      (empty.appendAll maxBytesPerFile (ds ++ more)).files f := by
  obtain ⟨hwf, hfl⟩ := log_spec maxBytesPerFile ds
  obtain ⟨-, -, hbelow, hpre, -⟩ := appendAll_spec maxBytesPerFile hwf hfl more
  rw [log_append]
  rcases lt_trichotomy f (empty.appendAll maxBytesPerFile ds).last.endOffset.fileNum with h | h | h
  · simp only [hbelow f h, List.prefix_refl]
  · rw [h]
    exact hpre
  · rw [hwf.2.2 f h]
    exact List.nil_prefix

theorem frameOffset_append (more : List (List UInt8)) {i : Nat} (hi : i ≤ ds.length) :
    frameOffset (ds ++ more) i = frameOffset ds i := by
  rw [frameOffset, frameOffset, List.take_append_of_le_length hi]

theorem Located.append_log {p : DiskQueueOffset} {v : Int}
    (hp : (empty.appendAll maxBytesPerFile ds).Located p v) (more : List (List UInt8)) :
    (empty.appendAll maxBytesPerFile (ds ++ more)).Located p v := by
  obtain ⟨hwf, hfl⟩ := log_spec maxBytesPerFile ds
  rw [log_append]
  exact hp.appendAll maxBytesPerFile hwf hfl more

/-- A boundary of the messages is one of the messages with more appended. -/
theorem OnBoundary.append {i : Nat} {e : DiskQueueEndInfo} (h : OnBoundary maxBytesPerFile ds i e)
    (more : List (List UInt8)) : OnBoundary maxBytesPerFile (ds ++ more) i e :=
  ⟨by rw [List.length_append]; exact h.1.trans (Nat.le_add_right _ _),
    by rw [frameOffset_append more h.1]; exact h.2.1, h.2.2.1,
    by rw [frameOffset_append more h.1]; exact Located.append_log h.2.2.2 more⟩

/-- A position on a boundary stays on it when messages are appended; the last boundary only
stays the last when none are. -/
theorem AtBoundary.append {i : Nat} {e : DiskQueueEndInfo} (h : AtBoundary maxBytesPerFile ds i e)
    (more : List (List UInt8)) : AtBoundary maxBytesPerFile (ds ++ more) i e := by
  obtain ⟨hle, hv, hc, hloc⟩ := OnBoundary.append h.onBoundary more
  refine ⟨hle, hv, hc, hloc, fun hi => ?_⟩
  have hnil : more = [] := List.eq_nil_of_length_eq_zero (by
    rw [List.length_append] at hi
    have := h.1
    omega)
  subst hnil
  rw [List.append_nil] at hi ⊢
  exact h.2.2.2.2 hi

/-- A buffer read from a disk agrees with every disk whose files extend its files. -/
theorem BufferAt.grow {p : DiskQueueOffset} {d : DiskQueueReader} (h : BufferAt disk p d)
    (hgrow : ∀ f, disk.contents f <+: disk'.contents f) : BufferAt disk' p d := by
  rcases h with h | ⟨hf, hfile, hnum, hcur, hpre⟩
  · exact Or.inl h
  · exact Or.inr ⟨hf, hfile, hnum, hcur, hpre.trans ((hgrow _).drop _)⟩

theorem SessionAt.grow {i j : Nat} {d : DiskQueueReader} (hs : SessionAt maxBytesPerFile ds disk i j d)
    (hgrow : ∀ f, disk.contents f <+: disk'.contents f) : SessionAt maxBytesPerFile ds disk' i j d :=
  ⟨hs.queueEnd, hs.read, hs.confirmed, hs.confirmed_le, hs.buffer.grow hgrow, hs.running⟩

/-- In a session confirmed lies after the read position only when both are on one boundary. -/
theorem SessionAt.eq_of_confirmed_ahead {i j : Nat} {d : DiskQueueReader}
    (hs : SessionAt maxBytesPerFile ds disk i j d)
    (h : d.confirmedQueueInfo.endOffset.greatThan d.readQueueInfo.endOffset = true ∨
      d.confirmedQueueInfo.offset > d.readQueueInfo.offset) : j = i := by
  by_contra hne
  have hlt := frameOffset_lt ds (lt_of_le_of_ne hs.confirmed_le hne) hs.read.1
  have hle := Located.le_of_lt hs.confirmed.2.2.2 hs.read.2.2.2.1 hlt
  rw [DiskQueueOffset.greatThan_eq_true_iff, DiskQueueEndInfo.offset, DiskQueueEndInfo.offset,
    hs.confirmed.2.1, hs.read.2.1] at h
  rcases h with h | h
  · exact h hle
  · omega

/-- `UpdateQueueEnd` without a reload, told the end of the log with `more` appended, over a disk
that only grew: the session carries over to the longer log on the same boundaries. Where confirmed
is pulled back to the read position, both are on one boundary. -/
theorem updateQueueEnd_session {i j : Nat} {d : DiskQueueReader}
    (hs : SessionAt maxBytesPerFile ds disk i j d) (more : List (List UInt8))
    (hgrow : ∀ f, disk.contents f <+: disk'.contents f) :
    ∃ d' changed,
      updateQueueEnd d (empty.appendAll maxBytesPerFile (ds ++ more)).last false = (d', .ok changed) ∧
      SessionAt maxBytesPerFile (ds ++ more) disk' i j d' := by
  have hrun : d.exitFlag ≠ true := by rw [hs.running]; exact Bool.false_ne_true
  by_cases hmore : more = []
  · -- nothing appended: the end is the one the reader has
    subst hmore
    rw [List.append_nil]
    refine ⟨d, false, ?_, hs.grow hgrow⟩
    rw [updateQueueEnd, if_neg hrun, internalUpdateEnd, if_pos ⟨by rw [hs.queueEnd], by rw [hs.queueEnd]⟩]
  have hlen : ds.length < (ds ++ more).length := by
    rw [List.length_append]
    have := List.length_pos_iff.mpr hmore
    omega
  have hlast : AtBoundary maxBytesPerFile ds ds.length (empty.appendAll maxBytesPerFile ds).last :=
    atBoundary_last
  have hlast' : AtBoundary maxBytesPerFile (ds ++ more) (ds ++ more).length
      (empty.appendAll maxBytesPerFile (ds ++ more)).last := atBoundary_last
  have hread := AtBoundary.append hs.read more
  -- the new end lies past the old end and past the read position
  have hend : frameOffset ds ds.length < frameOffset (ds ++ more) (ds ++ more).length := by
    rw [← frameOffset_append more (le_refl _)]
    exact frameOffset_lt _ hlen (le_refl _)
  have hri : frameOffset (ds ++ more) i < frameOffset (ds ++ more) (ds ++ more).length :=
    frameOffset_lt _ (lt_of_le_of_lt hs.read.1 hlen) (le_refl _)
  have hle := Located.le_of_lt hread.2.2.2.1 hlast'.2.2.2.1 hri
  have hsame : ¬ ((empty.appendAll maxBytesPerFile (ds ++ more)).last.offset = d.queueEndInfo.offset ∧
      (empty.appendAll maxBytesPerFile (ds ++ more)).last.totalMsgCnt = d.queueEndInfo.totalMsgCnt) := by
    rintro ⟨h, -⟩
    rw [hs.queueEnd, DiskQueueEndInfo.offset, DiskQueueEndInfo.offset, hlast.2.1, hlast'.2.1] at h
    omega
  have hbehind : ¬ (d.readQueueInfo.endOffset.greatThan
      (empty.appendAll maxBytesPerFile (ds ++ more)).last.endOffset = true ∨
      d.readQueueInfo.offset > (empty.appendAll maxBytesPerFile (ds ++ more)).last.offset) := by
    rw [DiskQueueOffset.greatThan_eq_true_iff, DiskQueueEndInfo.offset, DiskQueueEndInfo.offset,
      hread.2.1, hlast'.2.1]
    rintro (h | h)
    · exact h hle
    · omega
  rw [updateQueueEnd, if_neg hrun, internalUpdateEnd, if_neg hsame]
  simp only [hbehind, if_false, false_or, Bool.not_false, and_true, Bool.false_eq_true]
  refine ⟨_, true, rfl, ?_⟩
  apply SessionAt.updateDepth
  -- confirmed is pulled back to the read position, or kept
  split_ifs with hpull hwait
  · obtain rfl := hs.eq_of_confirmed_ahead hpull
    exact ⟨rfl, hread, hread.onBoundary, le_refl _, hs.buffer.grow hgrow, hs.running⟩
  · obtain rfl := hs.eq_of_confirmed_ahead hpull
    exact ⟨rfl, hread, hread.onBoundary, le_refl _, hs.buffer.grow hgrow, hs.running⟩
  · exact ⟨rfl, hread, hs.confirmed.append more, hs.confirmed_le, hs.buffer.grow hgrow, hs.running⟩
  · exact ⟨rfl, hread, hs.confirmed.append more, hs.confirmed_le, hs.buffer.grow hgrow, hs.running⟩

end Grow

end DiskQueueReader

end Nsq
