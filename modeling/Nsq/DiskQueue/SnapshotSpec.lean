import Nsq.DiskQueue.Snapshot
import Nsq.DiskQueue.ReaderSpec
import Nsq.DiskQueue.ResetWrite

/-!
# What a snapshot reads at its end

A snapshot is made to read a queue up to an end `E` fixed when it is made: the committed end
when the writer has flushed more than was committed. `ReadOne` stops there only if its read
position equals `E` as a whole, and no call sets the read position's message count: a snapshot
of a queue that starts at zero reads from a position with count `0`, while `E` counts the
messages before it. So a read position at `E`'s file, byte position and virtual offset is not
`E`, and `ReadOne` reads on: in `E`'s file its reads are bounded by the file's size only, so it
answers the frame the writer flushed after `E`. `ReadRaw` in `E`'s file reads on the same way.

`snapshot_reads_past_end` is that run: from an empty directory the writer puts `ds` and then
`d`, and flushes; the topic has committed `ds` only. The snapshot of the topic ends at the
committed end; after `SeekTo` to it, `ReadOne` answers `d`, a record that starts at the end,
instead of `io.EOF`, and `ReadRaw` answers the bytes of `d`'s frame instead of an error.
-/

namespace Nsq

namespace DiskQueueSnapshot

open DiskQueueWriter DiskQueueReader FrameLog

variable {disk : Disk} {s : DiskQueueSnapshot}

/-- A snapshot of a backend that starts at zero, when the committed end is behind the backend's
read end: it reads from zero to the committed end, with nothing open. -/
theorem getDiskQueueSnapshot_of_behind (w : DiskQueueWriter) (c : DiskQueueEndInfo)
    (hst : w.diskQueueStart = .zero) (hbehind : c.offset < w.getQueueReadEnd.offset)
    (hle : DiskQueueEndInfo.zero.endOffset.Le c.endOffset) :
    getDiskQueueSnapshot w (some c) = ⟨.zero, .zero, c, false, none⟩ := by
  have hng : DiskQueueEndInfo.zero.endOffset.greatThan c.endOffset = false :=
    DiskQueueOffset.greatThan_eq_false_iff.mpr hle
  have hzero : DiskQueueEndInfo.zero.endOffset.greatThan DiskQueueEndInfo.zero.endOffset = false :=
    by decide
  simp only [getDiskQueueSnapshot, gt_iff_lt, hbehind, if_true, newDiskQueueSnapshot,
    updateQueueEnd, hng, setQueueStart, getQueueReadStart, hst, hzero, Bool.false_eq_true, if_false]

/-- `seekTo` the end's virtual offset puts the read position at the end's file, byte position and
virtual offset, and keeps its count. -/
theorem seekTo_endPos (b : Bool) :
    seekTo disk s s.endPos.virtualEnd b =
      ({ s with readFile := none,
                readPos := { s.readPos with endOffset := s.endPos.endOffset,
                                            virtualEnd := s.endPos.virtualEnd } }, none) := by
  simp [seekTo]

/-- Opening with nothing open: the data file of the read position, at the read position. -/
theorem openReadFile_closed (hclosed : s.readFile = none)
    (hpos : 0 ≤ s.readPos.endOffset.pos) (hex : disk.dataFile s.readPos.endOffset.fileNum ≠ none) :
    openReadFile disk s = some ⟨s.readPos.endOffset.fileNum, s.readPos.endOffset.pos.toNat⟩ := by
  obtain ⟨x, hx⟩ := Option.ne_none_iff_exists'.mp hex
  have hseek : (if s.readPos.endOffset.pos > 0 then s.readPos.endOffset.pos.toNat else 0) =
      s.readPos.endOffset.pos.toNat := by
    split_ifs <;> omega
  simp only [openReadFile, hclosed, hx, Option.map_some, hseek]

/-- `ReadOne` in the end's file, with nothing open, from a read position that is not the end: it
answers the frame that lies at the read position, wherever the end's position is. -/
theorem readOne_frame_of_ne {d : List UInt8} (hne : s.readPos ≠ s.endPos)
    (hclosed : s.readFile = none)
    (hfile : s.readPos.endOffset.fileNum = s.endPos.endOffset.fileNum)
    (hpos : 0 ≤ s.readPos.endOffset.pos) (hex : disk.dataFile s.readPos.endOffset.fileNum ≠ none)
    (hframe : frame d <+:
      (disk.contents s.readPos.endOffset.fileNum).drop s.readPos.endOffset.pos.toNat)
    (hsize : 0 < d.length) (hmax : (d.length : Int) ≤ maxPossibleMsgSize) :
    (readOne disk s).2 = ⟨s.readPos.offset, 4 + d.length, 0, d, none⟩ := by
  have hopen := openReadFile_closed hclosed hpos hex
  -- `CheckFileOpen` opens the file and moves nowhere: the end's file is never walked off
  have hcheck : checkFileOpen disk s =
      ({ s with readFile := some ⟨s.readPos.endOffset.fileNum, s.readPos.endOffset.pos.toNat⟩ },
        .ok ⟨s.readPos.endOffset.fileNum, s.readPos.endOffset.pos.toNat⟩) := by
    rw [checkFileOpen, hopen]
    dsimp only
    rw [if_neg (by rw [hfile]; omega)]
  -- the length is the frame's header, and the payload follows it
  obtain ⟨hhead, hdata⟩ := frame_prefix_split hframe
  set avail := (disk.contents s.readPos.endOffset.fileNum).drop s.readPos.endOffset.pos.toNat
    with havail
  have hlen : d.length + 4 ≤ avail.length := by
    have := hframe.length_le
    rwa [length_frame] at this
  have htake : avail.take 4 = BigEndian.encodeInt 4 d.length := by
    simpa using take_eq_of_prefix hhead (List.prefix_refl avail) (by simp; omega)
  have hmsg : BigEndian.decodeInt 4 (avail.take 4) = d.length := by
    rw [htake]
    apply BigEndian.decodeInt_encodeInt <;> simp only [maxPossibleMsgSize] at hmax <;> omega
  have hpay : (avail.drop 4).take d.length = d :=
    take_eq_of_prefix hdata (List.prefix_refl _) (by simp; omega)
  have hrd : ¬ avail.length < 4 := by omega
  have hsz : ¬ ((d.length : Int) ≤ 0 ∨ (d.length : Int) > maxPossibleMsgSize) := by omega
  have hbody : ¬ ((avail.drop 4).length : Int) < d.length := by simp; omega
  simp only [readOne, if_neg hne, hcheck, readFrame]
  rw [← havail]
  simp only [hmsg, hrd, hsz, hbody, if_false, Int.toNat_natCast, hpay]

/-- `ReadRaw(n)` in the end's file, with nothing open, from a read position at which the file
holds at least `n` more bytes: it answers them and no error, wherever the end's position is. -/
theorem readRaw_in_last {bs : List UInt8} {n : Nat} (hclosed : s.readFile = none)
    (hfile : s.readPos.endOffset.fileNum = s.endPos.endOffset.fileNum)
    (hpos : 0 ≤ s.readPos.endOffset.pos) (hex : disk.dataFile s.readPos.endOffset.fileNum ≠ none)
    (hbytes : bs <+:
      (disk.contents s.readPos.endOffset.fileNum).drop s.readPos.endOffset.pos.toNat)
    (hn : 0 < n) (hle : n ≤ bs.length) :
    ∃ s', readRaw 2 disk s n = some (s', bs.take n, none) := by
  have hopen := openReadFile_closed hclosed hpos hex
  have hlen : bs.length ≤ ((disk.contents s.readPos.endOffset.fileNum).drop
      s.readPos.endOffset.pos.toNat).length := hbytes.length_le
  rw [List.length_drop] at hlen
  -- the end's file is never walked off, and it holds the `n` bytes: one turn reads them all
  have hnext : ¬ (s.readPos.endOffset.fileNum < s.endPos.endOffset.fileNum ∧
      s.readPos.endOffset.pos ≥ ((disk.contents s.readPos.endOffset.fileNum).length : Int)) := by
    rw [hfile]
    omega
  have hleft : ¬ (s.readPos.endOffset.fileNum = s.endPos.endOffset.fileNum ∧
      ((disk.contents s.readPos.endOffset.fileNum).length : Int) - s.readPos.endOffset.pos = 0) := by
    omega
  have hcur : min ((n : Int) - 0)
      (((disk.contents s.readPos.endOffset.fileNum).length : Int) - s.readPos.endOffset.pos) = n := by
    omega
  have hshort : ¬ ((disk.contents s.readPos.endOffset.fileNum).drop
      s.readPos.endOffset.pos.toNat).length < n := by
    rw [List.length_drop]
    omega
  have htake : ((disk.contents s.readPos.endOffset.fileNum).drop
      s.readPos.endOffset.pos.toNat).take n = bs.take n := by
    obtain ⟨t, ht⟩ := hbytes
    rw [← ht, List.take_append_of_le_length hle]
  have hdone : ¬ (bs.take n).length < n := by
    rw [List.length_take]
    omega
  simp only [readRaw, show ¬ ((n : Int) < 0) by omega, if_false, Int.toNat_natCast, readRawLoop,
    List.length_nil, hn, if_true, hopen, hnext, hleft, Nat.cast_zero, hcur, hshort, htake,
    List.nil_append, hdone]
  exact ⟨_, rfl⟩

/-- A snapshot of a topic that has flushed the message `d` after the committed messages `ds`
reads on past its end. Its end is the committed end; `SeekTo` to that end succeeds; `ReadOne`
then answers `d`, a record starting at the end, in place of `io.EOF`; and `ReadRaw(n)` answers
the first `n` bytes of `d`'s frame, bytes at and past the end, with no error. For every
`maxBytesPerFile` and every nonempty `ds` of payloads the size checks admit. -/
theorem snapshot_reads_past_end (maxBytesPerFile minMsgSize maxMsgSize : Int)
    (ds : List (List UInt8)) (d : List UInt8) (hds : ds ≠ [])
    (hsizes : ∀ x ∈ ds ++ [d], minMsgSize ≤ x.length ∧ x.length ≤ maxMsgSize ∧ 0 < x.length ∧
      (x.length : Int) ≤ maxPossibleMsgSize) :
    let run := putV2All Disk.empty (newDiskQueueWriter maxBytesPerFile minMsgSize maxMsgSize)
      (ds ++ [d])
    let committed := (empty.appendAll maxBytesPerFile ds).last
    ∃ disk w, flush run.1 run.2 = (disk, w, .ok ()) ∧
      (getDiskQueueSnapshot w (some committed)).endPos = committed ∧
      ∃ s', seekTo disk (getDiskQueueSnapshot w (some committed)) committed.offset false =
          (s', none) ∧
        (readOne disk s').2 = ⟨committed.offset, 4 + d.length, 0, d, none⟩ ∧
        ∀ n : Nat, 0 < n → n ≤ d.length + 4 →
          ∃ s'', readRaw 2 disk s' n = some (s'', (frame d).take n, none) := by
  intro run committed
  -- the writer: `ds ++ [d]` written from an empty directory and flushed
  obtain ⟨hw₁, hk₁⟩ := putV2All_wrote (ds ++ [d])
    (wrote_newDiskQueueWriter maxBytesPerFile minMsgSize maxMsgSize) fun x hx => by
      obtain ⟨h₁, h₂, -, h₄⟩ := hsizes x hx
      simp only [maxPossibleMsgSize] at h₄
      exact ⟨h₁, h₂, by omega⟩
  rw [List.nil_append] at hw₁
  obtain ⟨disk, w, hflush, hw, hk, -, hns⟩ := flush_wrote hw₁
  refine ⟨disk, w, hflush, ?_⟩
  have hm : w.maxBytesPerFile = maxBytesPerFile := hk.2.1.trans hk₁.2.1
  have hon := hw.onDisk hns
  rw [hm, appendAll_concat] at hon
  have hre : w.getQueueReadEnd = (empty.appendAll maxBytesPerFile (ds ++ [d])).last := by
    rw [← hm]
    exact ((hw.clean hns).1).trans hw.writeEnd
  rw [appendAll_concat, append_last] at hre
  -- the committed log: `d`'s frame is what its end's file holds past the end
  obtain ⟨hwf, hspells⟩ := empty_appendAll_spells maxBytesPerFile ds
  have hpos : 0 ≤ committed.endOffset.pos := hwf.1
  have hlen : (((empty.appendAll maxBytesPerFile ds).files committed.endOffset.fileNum).length : Int) =
      committed.endOffset.pos := hwf.2.1
  have hfile : disk.contents committed.endOffset.fileNum =
      (empty.appendAll maxBytesPerFile ds).files committed.endOffset.fileNum ++ frame d := by
    rw [hon.contents, append_files_self]
  have hdrop : (disk.contents committed.endOffset.fileNum).drop committed.endOffset.pos.toNat =
      frame d := by
    rw [hfile, List.drop_left' (by omega)]
  have hex : disk.dataFile committed.endOffset.fileNum ≠ none := by
    refine hon.present _ fun h => ?_
    have := congrArg List.length h
    rw [append_files_self, List.length_append, length_frame, List.length_nil] at this
    omega
  -- the snapshot: from zero, count `0`, to the committed end, which counts `ds`
  have hbehind : committed.offset < w.getQueueReadEnd.offset := by
    rw [hre]
    show committed.virtualEnd < (committed.afterFrame maxBytesPerFile d).virtualEnd
    rw [afterFrame_virtualEnd]
    omega
  have hsnap := getDiskQueueSnapshot_of_behind w committed hw.start hbehind
    (spells_le maxBytesPerFile hspells)
  have hcnt : committed.totalMsgCnt ≠ 0 := by
    rw [spells_totalMsgCnt maxBytesPerFile hspells]
    simp only [DiskQueueEndInfo.zero, zero_add, ne_eq, Nat.cast_eq_zero, List.length_eq_zero_iff]
    exact hds
  rw [hsnap]
  refine ⟨rfl, _, seekTo_endPos false, ?_, fun n hn hle => ?_⟩
  · -- the read position is at the end's place, with count `0`: not the end
    refine readOne_frame_of_ne (fun h => hcnt ?_) rfl rfl hpos hex (by rw [hdrop]) ?_ ?_
    · exact (congrArg DiskQueueEndInfo.totalMsgCnt h).symm
    · exact (hsizes d (by simp)).2.2.1
    · exact (hsizes d (by simp)).2.2.2
  · exact readRaw_in_last rfl rfl hpos hex (by rw [hdrop]) hn (by rw [length_frame]; omega)

/-- One committed message `[1]` and one flushed past it, `[2]`, in files of 1024 bytes: the
snapshot to the end after `[1]` reads `[2]`. -/
theorem snapshot_reads_past_end_one :
    ([[1]] : List (List UInt8)) ≠ [] ∧
    (∀ x ∈ ([[1]] : List (List UInt8)) ++ [[2]], (1 : Int) ≤ x.length ∧ x.length ≤ (1024 : Int) ∧
      0 < x.length ∧ (x.length : Int) ≤ maxPossibleMsgSize) ∧
    let run := putV2All Disk.empty (newDiskQueueWriter 1024 1 1024) ([[1]] ++ [[2]])
    let committed := (empty.appendAll 1024 [[1]]).last
    ∃ disk w, flush run.1 run.2 = (disk, w, .ok ()) ∧
      (getDiskQueueSnapshot w (some committed)).endPos = committed ∧
      ∃ s', seekTo disk (getDiskQueueSnapshot w (some committed)) committed.offset false =
          (s', none) ∧
        (readOne disk s').2 = ⟨committed.offset, 4 + [2].length, 0, [2], none⟩ ∧
        ∀ n : Nat, 0 < n → n ≤ [2].length + 4 →
          ∃ s'', readRaw 2 disk s' n = some (s'', (frame [2]).take n, none) :=
  ⟨by decide, by decide,
    snapshot_reads_past_end 1024 1 1024 [[1]] [2] (by decide) (by decide)⟩

end DiskQueueSnapshot

end Nsq
