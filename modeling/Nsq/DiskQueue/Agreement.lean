import Nsq.DiskQueue.ReaderSpec
import Nsq.DiskQueue.WriterSpec

/-!
# The writer and the reader agree

A producer opens a disk queue writer on an empty directory, `PutV2`s its payloads and flushes; a
consumer opens a reader on the same directory, is told the writer's end through `UpdateQueueEnd`,
and calls `TryReadOne` until it reports no data. `writeThenRead` is that run.

`writeThenRead_frames`: when every payload passes both the writer's size checks and the
reader's (`0 < len ≤ MAX_POSSIBLE_MSG_SIZE`), the reader answers exactly the payloads, the
i-th at the sum of the frame sizes before it, with its own frame size and count `i`, and then no
data; for every `maxBytesPerFile`, so for every placement of file boundaries. It is the writer's
refinement (`putV2All_flush`: the disk holds the frame log) composed with the reader's run over
that log (`tryReadOneN_spells`).

The two checks differ: the writer admits an empty payload when `minMsgSize` is `0`, and writes
its frame, a zero length; the reader rejects a frame length that is not positive as corrupt.
`writeThenRead_empty_payload` is that run.
-/

namespace Nsq

namespace DiskQueueReader

/-- `updateDepth` only moves the depths, the waiting flag and the confirmed position. -/
theorem updateDepth_keeps (d : DiskQueueReader) :
    (updateDepth d).readQueueInfo = d.readQueueInfo ∧
      (updateDepth d).queueEndInfo = d.queueEndInfo ∧ (updateDepth d).readFile = d.readFile ∧
      (updateDepth d).readBuffer = d.readBuffer ∧
      (updateDepth d).autoSkipError = d.autoSkipError := by
  unfold updateDepth
  dsimp only
  split_ifs <;> simp

/-- `internalUpdateEnd` without a reload, to a new end at or ahead of the read position: the end
is taken, and the read position, the open file and the buffer are kept. -/
theorem internalUpdateEnd_ahead (d : DiskQueueReader) (e : DiskQueueEndInfo)
    (hle : d.readQueueInfo.endOffset.Le e.endOffset) (hoff : d.readQueueInfo.offset ≤ e.offset)
    (hnew : ¬ (e.offset = d.queueEndInfo.offset ∧ e.totalMsgCnt = d.queueEndInfo.totalMsgCnt)) :
    ∃ d', internalUpdateEnd d e false = (d', true) ∧ d'.readQueueInfo = d.readQueueInfo ∧
      d'.queueEndInfo = e ∧ d'.readFile = d.readFile ∧ d'.readBuffer = d.readBuffer ∧
      d'.autoSkipError = d.autoSkipError := by
  have hbehind : ¬ (d.readQueueInfo.endOffset.greatThan e.endOffset = true ∨
      d.readQueueInfo.offset > e.offset) := by
    rw [DiskQueueOffset.greatThan_eq_true_iff]
    rintro (h | h)
    · exact h hle
    · omega
  unfold internalUpdateEnd
  simp only [hnew, hbehind, if_false, false_or, Bool.not_false, and_true, Bool.false_eq_true]
  -- the confirmed pull-back and the waiting flag touch none of the fields the reader reads
  split_ifs <;>
    exact ⟨_, rfl, (updateDepth_keeps _).1, (updateDepth_keeps _).2.1, (updateDepth_keeps _).2.2.1,
      (updateDepth_keeps _).2.2.2.1, (updateDepth_keeps _).2.2.2.2⟩

/-- A reader opened on a directory without reader metadata and told an end at or after the start
(`0` only when nothing was written) reads from the start, up to that end, with nothing open. -/
theorem updateQueueEnd_fresh (autoSkip : Bool) {e : DiskQueueEndInfo}
    (hle : DiskQueueEndInfo.zero.endOffset.Le e.endOffset) (hv : 0 ≤ e.virtualEnd)
    (hzero : e.virtualEnd = 0 → e.totalMsgCnt = 0 → e = .zero) :
    ∃ r changed, updateQueueEnd (newDiskQueueReader none autoSkip) e false = (r, .ok changed) ∧
      r.readQueueInfo = .zero ∧ r.queueEndInfo = e ∧ r.readFile = none ∧ r.readBuffer = [] ∧
      r.autoSkipError = autoSkip := by
  have hex : (newDiskQueueReader none autoSkip).exitFlag = false := rfl
  by_cases hsame : e.offset = 0 ∧ e.totalMsgCnt = 0
  · -- nothing was written: the reader already has that end
    obtain rfl := hzero hsame.1 hsame.2
    exact ⟨newDiskQueueReader none autoSkip, false,
      by simp [updateQueueEnd, newDiskQueueReader, internalUpdateEnd], rfl, rfl, rfl, rfl, rfl⟩
  · obtain ⟨d', hupd, hread, hend, hfile, hbuf, hskip⟩ :=
      internalUpdateEnd_ahead (newDiskQueueReader none autoSkip) e hle hv hsame
    refine ⟨d', true, ?_, hread, hend, hfile, hbuf, hskip⟩
    simp only [updateQueueEnd, hex, hupd, Bool.false_eq_true, if_false]

end DiskQueueReader

open DiskQueueWriter DiskQueueReader

/-- The run: write `ds` from an empty directory and flush; then open a reader, tell it the
writer's end, and call `TryReadOne` `ds.length + 1` times. -/
def writeThenRead (maxBytesPerFile minMsgSize maxMsgSize : Int) (autoSkip : Bool) (fuel : Nat)
    (ds : List (List UInt8)) : Option (List (ReadResult × Bool)) :=
  let (disk₁, w₁) :=
    putV2All Disk.empty (newDiskQueueWriter maxBytesPerFile minMsgSize maxMsgSize) ds
  let (disk₂, w₂, _) := flush disk₁ w₁
  let (r, _) := updateQueueEnd (newDiskQueueReader none autoSkip) (getQueueReadEnd w₂) false
  tryReadOneN fuel disk₂ (ds.length + 1) r

/-- An empty payload passes the writer's checks with `minMsgSize = 0`, and the reader then
reports its frame as corrupt instead of returning it. -/
theorem writeThenRead_empty_payload :
    (0 : Int) ≤ ([] : List UInt8).length ∧ (([] : List UInt8).length : Int) ≤ 1024 ∧
      writeThenRead 1024 0 1024 false 1 [[]] ≠ some (frameReads 0 0 [[]]) :=
  ⟨by decide, by decide, by decide +kernel⟩

/-- Writer–reader agreement: payloads that both sides' size checks admit are read back exactly,
with offsets, frame sizes and counts as written, and then no data, whatever `maxBytesPerFile` and
however the reader's buffer splits the files. -/
theorem writeThenRead_frames (maxBytesPerFile minMsgSize maxMsgSize : Int) (autoSkip : Bool)
    (fuel : Nat) (ds : List (List UInt8))
    (hsizes : ∀ d ∈ ds, minMsgSize ≤ d.length ∧ d.length ≤ maxMsgSize ∧ 0 < d.length ∧
      (d.length : Int) ≤ maxPossibleMsgSize) :
    writeThenRead maxBytesPerFile minMsgSize maxMsgSize autoSkip (fuel + 1) ds =
      some (frameReads 0 0 ds) := by
  -- the writer side: the disk holds the frame log of `ds`, and its end is published
  obtain ⟨disk, w, hflush, hcont, hpres, hre⟩ :=
    putV2All_flush maxBytesPerFile minMsgSize maxMsgSize ds fun d hd => by
      obtain ⟨h₁, h₂, -, h₄⟩ := hsizes d hd
      simp only [maxPossibleMsgSize] at h₄
      exact ⟨h₁, h₂, by omega⟩
  obtain ⟨hwf, hspells⟩ := FrameLog.empty_appendAll_spells maxBytesPerFile ds
  -- the reader side: told the log's end, it starts at zero with nothing open
  have hle := FrameLog.spells_le maxBytesPerFile hspells
  have hv := FrameLog.le_spells_virtualEnd maxBytesPerFile hspells
  have hzero : (FrameLog.empty.appendAll maxBytesPerFile ds).last.virtualEnd = 0 →
      (FrameLog.empty.appendAll maxBytesPerFile ds).last.totalMsgCnt = 0 →
      (FrameLog.empty.appendAll maxBytesPerFile ds).last = .zero := by
    intro hv₀ _
    have hnil : ds = [] := List.eq_nil_of_length_eq_zero (by
      simp only [DiskQueueEndInfo.zero] at hv
      omega)
    subst hnil
    rfl
  obtain ⟨r, changed, hupd, hread, hend, hfile, hbuf, -⟩ :=
    updateQueueEnd_fresh autoSkip hle (by simp only [DiskQueueEndInfo.zero] at hv; omega) hzero
  have hr : ReaderAt disk (FrameLog.empty.appendAll maxBytesPerFile ds) r :=
    ⟨hend, hread ▸ bufferAt_closed hfile hbuf, by simp [hread, DiskQueueEndInfo.zero],
      fun _ => by simp [hread, DiskQueueEndInfo.zero, DiskQueueEndInfo.offset]⟩
  have hrun := tryReadOneN_spells hcont hpres hwf fuel ds hr (hread ▸ hspells)
    fun d hd => ⟨(hsizes d hd).2.2.1, (hsizes d hd).2.2.2⟩
  simp only [writeThenRead, hflush]
  rw [hre, hupd]
  rw [hread] at hrun
  exact hrun

/-- Two payloads in files of 8 bytes: the second frame fills the first file, and both are read
back before the end. -/
theorem writeThenRead_frames_rolled :
    (∀ d ∈ [[1, 2], [3]], (1 : Int) ≤ (d : List UInt8).length ∧ (d.length : Int) ≤ 16 ∧
      0 < d.length ∧ (d.length : Int) ≤ maxPossibleMsgSize) ∧
    writeThenRead 8 1 16 false 1 [[1, 2], [3]] = some (frameReads 0 0 [[1, 2], [3]]) :=
  ⟨by decide, writeThenRead_frames 8 1 16 false 0 [[1, 2], [3]] (by decide)⟩

end Nsq
