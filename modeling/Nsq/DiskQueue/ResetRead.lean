import Nsq.DiskQueue.Agreement
import Nsq.DiskQueue.Positions

/-!
# Repositioning the reader

`ResetReadToOffset` and `SkipReadToOffset` move the reader to a virtual offset. Away from its read,
confirmed and end positions, `internalSkipTo` finds the file position by `stepOffset`, which walks
from the read position over the files by their sizes: back while the distance is more than the
position (`stepBack`), forward while it is more than what is left of the file (`stepForward`).
Over a disk that holds the frame log of the written messages, each walk lands on a position
located at the target (`stepBack_located`, `stepForward_located`).

The forward walk stops as soon as the distance is covered, so at a file boundary it lands at the
end of the earlier file, where the sequential reader stands at the start of the next. Both read
alike: `CheckFileOpen` walks off the end of a file before the queue end's before it reads
(`readOne_nextFile`). The target at the queue end itself is taken from the end, not walked to, so
the reader never stands at an end of file it could not leave.

`ReaderInv` is the reader over the log: read and confirmed on message boundaries, confirmed not
after read. From it the reads that follow give the messages after the read position
(`tryReadOneN_atBoundary`), and repositioning to a boundary keeps it (`internalSkipTo_boundary`).
-/

namespace Nsq

namespace DiskQueueReader

open FrameLog

section Walks

variable {disk : Disk} {q : FrameLog}
  (hcont : ∀ f, disk.contents f = q.files f)
  (hpres : ∀ f, q.files f ≠ [] → disk.dataFile f ≠ none)

include hcont hpres in
/-- A file that holds something is on disk with the log's bytes. -/
theorem dataFile_of_ne_nil {f : Int} (hne : q.files f ≠ []) : disk.dataFile f = some (q.files f) := by
  obtain ⟨x, hx⟩ := Option.ne_none_iff_exists'.mp (hpres f hne)
  have := hcont f
  rw [Disk.contents, hx, Option.getD_some] at this
  rw [hx, this]

include hcont hpres in
/-- The backward walk from a located position, by at most its offset, lands on the position
located that many bytes before. Each turn moves to the end of the previous file, which holds
something and is on disk; the recursion is on the file number. -/
theorem stepBack_located (hf : q.Flat) {p : DiskQueueOffset} {v s : Int} (hp : q.Located p v)
    (hs : 0 ≤ s) (hsv : s ≤ v) : ∃ p', stepBack disk s p = .ok p' ∧ q.Located p' (v - s) := by
  obtain ⟨h₀, hF, hpos, hsz, hv⟩ := hp
  by_cases hstep : s > p.pos
  · -- the distance reaches into the previous file: there is one, since the offset is positive
    have hF₀ : ¬ p.fileNum - 1 < 0 := by
      intro hneg
      have : p.fileNum = 0 := by omega
      rw [this] at hv
      simp only [Int.toNat_zero, startOf, Segments.start_zero, Nat.cast_zero, zero_add] at hv
      omega
    have hne : q.files (p.fileNum - 1) ≠ [] := hf.files_ne_nil (by omega) (by omega)
    have hstart := startOf_succ q (f := p.fileNum - 1) (by omega)
    rw [Int.sub_add_cancel] at hstart
    have hprev : q.Located ⟨p.fileNum - 1, (q.files (p.fileNum - 1)).length⟩ (v - p.pos) :=
      ⟨by dsimp only; omega, by dsimp only; omega, by simp, le_refl _, by dsimp only; omega⟩
    obtain ⟨p', hwalk, hp'⟩ := stepBack_located hf hprev (s := s - p.pos) (by omega) (by omega)
    refine ⟨p', ?_, by rwa [show v - p.pos - (s - p.pos) = v - s by ring] at hp'⟩
    rw [stepBack, if_pos hstep, if_neg hF₀, dataFile_of_ne_nil hcont hpres hne]
    exact hwalk
  · refine ⟨⟨p.fileNum, p.pos - s⟩, ?_, h₀, hF, by dsimp only; omega, by dsimp only; omega,
      by dsimp only; omega⟩
    rw [stepBack, if_neg hstep]
termination_by p.fileNum.toNat
decreasing_by omega

include hcont hpres in
/-- Where the forward walk takes a file to end: at its size. The walk asks the disk while it
started in a file before the end's, and takes the end's position otherwise, which is the end
file's size in a well-formed log. -/
theorem segmentEnd_eq (hq : q.WF) (hf : q.Flat) {cur o : DiskQueueOffset}
    (hcur : cur.fileNum ≤ o.fileNum) (h₀ : 0 ≤ o.fileNum) (hF : o.fileNum ≤ q.last.endOffset.fileNum)
    (hin : o.fileNum < q.last.endOffset.fileNum ∨ q.files o.fileNum ≠ []) :
    (if cur.fileNum < q.last.endOffset.fileNum then getQueueSegmentEnd disk o.fileNum
      else .ok q.last.endOffset.pos) = .ok ((q.files o.fileNum).length : Int) := by
  split_ifs with hlt
  · have hne : q.files o.fileNum ≠ [] := by
      rcases hin with hin | hin
      · exact hf.files_ne_nil h₀ hin
      · exact hin
    simp only [getQueueSegmentEnd, dataFile_of_ne_nil hcont hpres hne]
  · have : o.fileNum = q.last.endOffset.fileNum := by omega
    rw [this, hq.2.1]

include hcont hpres in
/-- The forward walk from a located position `o`, by a positive distance that stays within the
end, lands on the position located at the target. Each turn moves to the start of the next file,
so the landing is the end of a file when the target is a file boundary; the recursion is on the
files left before the end's. -/
theorem stepForward_located (hq : q.WF) (hf : q.Flat) (cur : DiskQueueOffset) {o : DiskQueueOffset}
    {v s : Int}
    (hcur : cur.fileNum ≤ o.fileNum) (ho : q.Located o v) (hs : 0 < s)
    (hend : v + s ≤ q.last.virtualEnd) :
    ∃ p', stepForward disk cur q.last.endOffset s o = .ok p' ∧ q.Located p' (v + s) := by
  obtain ⟨h₀, hF, hpos, hsz, hv⟩ := ho
  have hlast := hf.virtualEnd_eq
  have hlen := hq.2.1
  -- in the end's file the target lies within the file, so the file holds something
  have hin : o.fileNum < q.last.endOffset.fileNum ∨ q.files o.fileNum ≠ [] := by
    rcases Int.lt_or_eq_of_le hF with hlt | heq
    · exact Or.inl hlt
    · right
      intro hnil
      rw [heq] at hv hnil
      rw [hnil] at hlen
      simp only [List.length_nil, Nat.cast_zero] at hlen
      omega
  rw [stepForward, segmentEnd_eq hcont hpres hq hf hcur h₀ hF hin]
  dsimp only
  by_cases hgo : s > (q.files o.fileNum).length - o.pos
  · -- the target lies past this file, so this is not the end's file
    have hlt : o.fileNum < q.last.endOffset.fileNum := by
      rcases Int.lt_or_eq_of_le hF with hlt | heq
      · exact hlt
      · rw [heq] at hv hgo
        omega
    have hnext : (⟨o.fileNum + 1, 0⟩ : DiskQueueOffset).greatThan q.last.endOffset = false := by
      rw [DiskQueueOffset.greatThan_eq_false_iff]
      unfold DiskQueueOffset.Le
      dsimp only
      omega
    have hstart := startOf_succ q h₀
    have hloc : q.Located ⟨o.fileNum + 1, 0⟩ (v + ((q.files o.fileNum).length - o.pos)) :=
      ⟨by dsimp only; omega, by dsimp only; omega, le_refl _, by simp, by dsimp only; omega⟩
    obtain ⟨p', hwalk, hp'⟩ := stepForward_located hq hf cur (by dsimp only; omega) hloc
      (s := s - ((q.files o.fileNum).length - o.pos)) (by omega) (by omega)
    refine ⟨p', ?_, by rwa [show v + ((q.files o.fileNum).length - o.pos) +
      (s - ((q.files o.fileNum).length - o.pos)) = v + s by ring] at hp'⟩
    rw [if_pos hgo, dif_neg (Bool.eq_false_iff.mp hnext), if_neg (by omega)]
    exact hwalk
  · have hstop : (⟨o.fileNum, o.pos + s⟩ : DiskQueueOffset).greatThan q.last.endOffset = false := by
      rw [DiskQueueOffset.greatThan_eq_false_iff]
      unfold DiskQueueOffset.Le
      dsimp only
      rcases Int.lt_or_eq_of_le hF with hlt | heq
      · exact Or.inl hlt
      · rw [heq] at hv hgo
        omega
    refine ⟨⟨o.fileNum, o.pos + s⟩, ?_, h₀, hF, by dsimp only; omega, by dsimp only; omega,
      by dsimp only; omega⟩
    rw [if_neg hgo, if_neg (Bool.eq_false_iff.mp hstop)]
termination_by (q.last.endOffset.fileNum - o.fileNum).toNat
decreasing_by omega

include hcont hpres in
/-- `stepOffset` from a located reader position to another offset within the log lands on the
position located there, walking back or forward. -/
theorem stepOffset_located (hq : q.WF) (hf : q.Flat) {r : DiskQueueEndInfo} {t : Int}
    (hr : q.Located r.endOffset r.virtualEnd) (ht : 0 ≤ t) (hte : t ≤ q.last.virtualEnd)
    (hne : t ≠ r.virtualEnd) :
    ∃ p', stepOffset disk r (t - r.offset) q.last = .ok p' ∧ q.Located p' t := by
  have hF := hr.2.1
  unfold stepOffset DiskQueueEndInfo.offset
  rw [if_neg (by omega), if_neg (by omega), if_neg (by omega), if_neg (by omega)]
  by_cases hback : t - r.virtualEnd < 0
  · obtain ⟨p', hwalk, hp'⟩ := stepBack_located hcont hpres hf hr (s := -(t - r.virtualEnd))
      (by omega) (by omega)
    rw [if_pos hback]
    exact ⟨p', hwalk, by rwa [show r.virtualEnd - -(t - r.virtualEnd) = t by ring] at hp'⟩
  · obtain ⟨p', hwalk, hp'⟩ := stepForward_located hcont hpres hq hf r.endOffset
      (le_refl _) hr (s := t - r.virtualEnd) (by omega) (by omega)
    rw [if_neg hback]
    exact ⟨p', hwalk, by rwa [show r.virtualEnd + (t - r.virtualEnd) = t by ring] at hp'⟩

end Walks

section Alias

variable {disk : Disk} {d : DiskQueueReader}

/-- The buffer agrees by the open file and the buffer alone. -/
theorem BufferAt.congr {p : DiskQueueOffset} {d' : DiskQueueReader} (h : BufferAt disk p d)
    (hf : d'.readFile = d.readFile) (hb : d'.readBuffer = d.readBuffer) : BufferAt disk p d' := by
  unfold BufferAt at h ⊢
  rw [hf, hb]
  exact h

/-- At the end of a file, an agreeing buffer holds nothing. -/
theorem BufferAt.buffer_eq_nil {p : DiskQueueOffset} (h : BufferAt disk p d)
    (hend : ((disk.contents p.fileNum).length : Int) ≤ p.pos) : d.readBuffer = [] := by
  rcases h with ⟨-, hb⟩ | ⟨_, -, -, -, hpre⟩
  · exact hb
  · rw [List.drop_eq_nil_of_le (by omega)] at hpre
    exact List.prefix_nil.mp hpre

/-- `CheckFileOpen` at the end of a file before the queue end's walks on to the start of the next
file, as it would from there with nothing open. -/
theorem checkFileOpen_nextFile (hbuf : BufferAt disk d.readQueueInfo.endOffset d)
    (hlt : d.readQueueInfo.endOffset.fileNum < d.queueEndInfo.endOffset.fileNum)
    (hend : ((disk.contents d.readQueueInfo.endOffset.fileNum).length : Int) ≤
      d.readQueueInfo.endOffset.pos)
    (hex : disk.dataFile d.readQueueInfo.endOffset.fileNum ≠ none) :
    checkFileOpen disk d =
      checkFileOpen disk { d with readQueueInfo := d.readQueueInfo.nextFile, readFile := none } := by
  -- whatever is open, or opened, is the read position's file
  obtain ⟨h, hopen, hfile⟩ : ∃ h, openReadFile disk d = some h ∧
      h.fileNum = d.readQueueInfo.endOffset.fileNum := by
    rcases hbuf with ⟨hf, -⟩ | ⟨h, hf, hfile, -⟩
    · obtain ⟨x, hx⟩ := Option.ne_none_iff_exists'.mp hex
      exact ⟨_, by simp only [openReadFile, hf, hx, Option.map_some]; rfl, rfl⟩
    · exact ⟨h, by simp only [openReadFile, hf], hfile⟩
  conv_lhs => rw [checkFileOpen]
  simp only [hopen]
  rw [if_pos ⟨hlt, by rw [hfile]; exact hend⟩]

/-- `readOne` at the end of a file before the queue end's reads what it reads from the start of
the next file with nothing open. -/
theorem readOne_nextFile (hcnt : ¬ (d.readQueueInfo.totalMsgCnt ≤ 0 ∧ d.readQueueInfo.offset > 0))
    (hbuf : BufferAt disk d.readQueueInfo.endOffset d)
    (hlt : d.readQueueInfo.endOffset.fileNum < d.queueEndInfo.endOffset.fileNum)
    (hend : ((disk.contents d.readQueueInfo.endOffset.fileNum).length : Int) ≤
      d.readQueueInfo.endOffset.pos)
    (hex : disk.dataFile d.readQueueInfo.endOffset.fileNum ≠ none) :
    readOne disk d =
      readOne disk { d with readQueueInfo := d.readQueueInfo.nextFile, readFile := none } := by
  have hcnt' : ¬ ({ d with readQueueInfo := d.readQueueInfo.nextFile, readFile := none }.readQueueInfo.totalMsgCnt ≤ 0 ∧
      { d with readQueueInfo := d.readQueueInfo.nextFile, readFile := none }.readQueueInfo.offset > 0) := hcnt
  unfold readOne
  rw [if_neg hcnt, if_neg hcnt', checkFileOpen_nextFile hbuf hlt hend hex]

/-- Two readers whose queue ends lie ahead and whose `readOne` agree answer `TryReadOne` alike. -/
theorem tryReadOne_congr {d' : DiskQueueReader}
    (hg : d.queueEndInfo.endOffset.greatThan d.readQueueInfo.endOffset = true)
    (hg' : d'.queueEndInfo.endOffset.greatThan d'.readQueueInfo.endOffset = true)
    (h : readOne disk d = readOne disk d') (fuel : Nat) :
    tryReadOne fuel disk d = tryReadOne fuel disk d' := by
  cases fuel with
  | zero => rfl
  | succ fuel => simp only [tryReadOne, hg, hg', if_true, h]

/-- A run starting with one agreeing `TryReadOne` goes on alike. -/
theorem tryReadOneN_congr {d' : DiskQueueReader} {fuel : Nat}
    (h : tryReadOne fuel disk d = tryReadOne fuel disk d') (n : Nat) :
    tryReadOneN fuel disk (n + 1) d = tryReadOneN fuel disk (n + 1) d' := by
  simp only [tryReadOneN, h]

/-- An end in a later file, or further in the same one, lies ahead. -/
theorem greatThan_of_lt {e p : DiskQueueOffset}
    (h : p.fileNum < e.fileNum ∨ (p.fileNum = e.fileNum ∧ p.pos < e.pos)) : e.greatThan p = true := by
  rw [DiskQueueOffset.greatThan_eq_true_iff]
  unfold DiskQueueOffset.Le
  omega

end Alias

section Reset

variable (maxBytesPerFile : Int) (ds : List (List UInt8))

/-- `e` is the reader's view of the `i`-th message boundary of `ds`: the virtual offset of the
frames before it, the count `i`, a position located there, and at the last boundary the queue
end's own position. -/
def AtBoundary (i : Nat) (e : DiskQueueEndInfo) : Prop :=
  i ≤ ds.length ∧ e.virtualEnd = frameOffset ds i ∧ e.totalMsgCnt = i ∧
    (empty.appendAll maxBytesPerFile ds).Located e.endOffset (frameOffset ds i) ∧
    (i = ds.length → e.endOffset = (empty.appendAll maxBytesPerFile ds).last.endOffset)

instance (i : Nat) (e : DiskQueueEndInfo) : Decidable (AtBoundary maxBytesPerFile ds i e) := by
  unfold AtBoundary
  infer_instance

/-- The reader over the log of `ds` on `disk`: its queue end is the log's, read and confirmed lie
on message boundaries with confirmed not after read, the buffer agrees with the file at the read
position, and the reader is not exiting. -/
structure ReaderInv (disk : Disk) (d : DiskQueueReader) : Prop where
  queueEnd : d.queueEndInfo = (empty.appendAll maxBytesPerFile ds).last
  read : ∃ i, AtBoundary maxBytesPerFile ds i d.readQueueInfo
  confirmed : ∃ j, AtBoundary maxBytesPerFile ds j d.confirmedQueueInfo
  confirmed_le : d.confirmedQueueInfo.offset ≤ d.readQueueInfo.offset
  buffer : BufferAt disk d.readQueueInfo.endOffset d
  running : d.exitFlag = false

variable {maxBytesPerFile ds}

/-- One offset names one boundary: frame offsets increase strictly. -/
theorem AtBoundary.index_eq {i j : Nat} {e : DiskQueueEndInfo}
    (he : AtBoundary maxBytesPerFile ds j e) (hi : i ≤ ds.length)
    (hv : e.virtualEnd = frameOffset ds i) : j = i := by
  obtain ⟨hj, hvj, -⟩ := he
  rcases Nat.lt_trichotomy i j with h | h | h
  · have := frameOffset_lt ds h hj
    omega
  · exact h.symm
  · have := frameOffset_lt ds h hi
    omega

/-- The writer's end after the first `i` messages is on the `i`-th boundary. -/
theorem atBoundary_boundary {i : Nat} (hi : i ≤ ds.length) :
    AtBoundary maxBytesPerFile ds i (boundary maxBytesPerFile ds i) :=
  ⟨hi, boundary_virtualEnd maxBytesPerFile ds i, boundary_totalMsgCnt maxBytesPerFile ds hi,
    located_boundary maxBytesPerFile ds i, fun h => by rw [h, boundary_length]⟩

/-- The queue end is the last boundary. -/
theorem atBoundary_last :
    AtBoundary maxBytesPerFile ds ds.length (empty.appendAll maxBytesPerFile ds).last := by
  rw [← boundary_length]
  exact atBoundary_boundary (le_refl _)

/-- A reader position on the `i`-th boundary is the writer's end there, or the end of the file
just before it, before the last boundary. -/
theorem AtBoundary.eq_or_alias {i : Nat} {e : DiskQueueEndInfo}
    (he : AtBoundary maxBytesPerFile ds i e) :
    e = boundary maxBytesPerFile ds i ∨
      (i < ds.length ∧
        (((empty.appendAll maxBytesPerFile ds).files e.endOffset.fileNum).length : Int) =
          e.endOffset.pos ∧
        boundary maxBytesPerFile ds i = e.nextFile) := by
  obtain ⟨hi, hv, hc, hloc, hlast⟩ := he
  have hb : AtBoundary maxBytesPerFile ds i (boundary maxBytesPerFile ds i) := atBoundary_boundary hi
  have hsame : ∀ p, p = (boundary maxBytesPerFile ds i).endOffset →
      (⟨p, e.virtualEnd, e.totalMsgCnt⟩ : DiskQueueEndInfo) = boundary maxBytesPerFile ds i :=
    fun p hp => DiskQueueEndInfo.ext hp (hv.trans hb.2.1.symm) (hc.trans hb.2.2.1.symm)
  rcases Nat.lt_or_ge i ds.length with hlt | hge
  · rcases FrameLog.eq_or_alias (log_spec maxBytesPerFile ds).2 hloc hb.2.2.2.1
      (boundary_pos_lt maxBytesPerFile ds hlt) with heq | ⟨hpos, heq⟩
    · exact Or.inl (hsame _ heq)
    · exact Or.inr ⟨hlt, hpos.symm, (hsame _ heq.symm).symm⟩
  · have hn : i = ds.length := by omega
    left
    apply hsame
    rw [hlast hn, hn, boundary_length]

/-- `updateDepth` leaves the confirmed position alone when there is no conflict to settle. -/
theorem updateDepth_confirmed (d : DiskQueueReader)
    (hconf : d.queueEndInfo.offset = d.confirmedQueueInfo.offset →
      d.queueEndInfo.totalMsgCnt = d.confirmedQueueInfo.totalMsgCnt) :
    (updateDepth d).confirmedQueueInfo = d.confirmedQueueInfo := by
  unfold updateDepth
  dsimp only
  split_ifs with h₁ h₂ h₃ <;> first | rfl | omega

theorem updateDepth_exitFlag (d : DiskQueueReader) : (updateDepth d).exitFlag = d.exitFlag := by
  unfold updateDepth
  dsimp only
  split_ifs <;> rfl

variable {disk : Disk}

/-- Read and confirmed set to one position on the `i`-th boundary, over a buffer that agrees with
it: after `updateDepth` both are still there, since at the queue end's offset the counts agree,
and the reader invariant holds. -/
theorem settle_inv {d : DiskQueueReader} {r : DiskQueueEndInfo} {i : Nat}
    (hend : d.queueEndInfo = (empty.appendAll maxBytesPerFile ds).last)
    (hr : AtBoundary maxBytesPerFile ds i r) (hbuf : BufferAt disk r.endOffset d)
    (hrun : d.exitFlag = false) :
    ReaderInv maxBytesPerFile ds disk (updateDepth { d with readQueueInfo := r, confirmedQueueInfo := r }) ∧
      (updateDepth { d with readQueueInfo := r, confirmedQueueInfo := r }).readQueueInfo = r ∧
      (updateDepth { d with readQueueInfo := r, confirmedQueueInfo := r }).confirmedQueueInfo = r := by
  obtain ⟨hread, hqe, hfile, hbuffer, -⟩ :=
    updateDepth_keeps { d with readQueueInfo := r, confirmedQueueInfo := r }
  have hconf : (updateDepth { d with readQueueInfo := r, confirmedQueueInfo := r }).confirmedQueueInfo = r := by
    apply updateDepth_confirmed
    intro hoff
    -- at the queue end's offset the boundary is the last one, whose count is the end's
    dsimp only at hoff ⊢
    rw [hend] at hoff ⊢
    have hn := atBoundary_last.index_eq hr.1 (hoff.trans hr.2.1)
    rw [atBoundary_last.2.2.1, hr.2.2.1, hn]
  refine ⟨⟨by rw [hqe]; exact hend, ⟨i, by rw [hread]; exact hr⟩, ⟨i, by rw [hconf]; exact hr⟩,
    by rw [hread, hconf], ?_, by rw [updateDepth_exitFlag]; exact hrun⟩, hread, hconf⟩
  rw [hread]
  exact hbuf.congr hfile hbuffer

/-- Closing the file and dropping the buffer keeps the invariant. -/
theorem ReaderInv.close {d : DiskQueueReader} (hd : ReaderInv maxBytesPerFile ds disk d) :
    ReaderInv maxBytesPerFile ds disk { d with readFile := none, readBuffer := [] } :=
  ⟨hd.queueEnd, hd.read, hd.confirmed, hd.confirmed_le, bufferAt_closed rfl rfl, hd.running⟩

section Run

variable (hcont : ∀ f, disk.contents f = (empty.appendAll maxBytesPerFile ds).files f)
  (hpres : ∀ f, (empty.appendAll maxBytesPerFile ds).files f ≠ [] → disk.dataFile f ≠ none)
  (hsizes : ∀ data ∈ ds, 0 < data.length ∧ (data.length : Int) ≤ maxPossibleMsgSize)

include hcont hpres hsizes in
/-- From the writer's end after the first `i` messages, the reads give the messages after them
with their offsets and counts, and then no data. -/
theorem tryReadOneN_boundary {d : DiskQueueReader} {i : Nat} (hi : i ≤ ds.length)
    (hend : d.queueEndInfo = (empty.appendAll maxBytesPerFile ds).last)
    (hread : d.readQueueInfo = boundary maxBytesPerFile ds i)
    (hbuf : BufferAt disk d.readQueueInfo.endOffset d) (fuel : Nat) :
    tryReadOneN (fuel + 1) disk (ds.length - i + 1) d =
      some (frameReads (frameOffset ds i) i (ds.drop i)) := by
  have hb : AtBoundary maxBytesPerFile ds i (boundary maxBytesPerFile ds i) := atBoundary_boundary hi
  have hr : ReaderAt disk (empty.appendAll maxBytesPerFile ds) d := by
    refine ⟨hend, hbuf, by rw [hread, hb.2.2.1]; omega, fun h => ?_⟩
    -- a zero count is the first boundary, at offset zero
    rw [hread, hb.2.2.1] at h
    rw [DiskQueueEndInfo.offset, hread, hb.2.1, show i = 0 by omega]
    simp [frameOffset]
  have hs := spells_boundary maxBytesPerFile ds i
  rw [← hread] at hs
  have := tryReadOneN_spells hcont hpres (log_spec maxBytesPerFile ds).1 fuel (ds.drop i) hr hs
    (fun x hx => hsizes x (List.mem_of_mem_drop hx))
  rwa [List.length_drop, hread, hb.2.1, hb.2.2.1] at this

include hcont hpres hsizes in
/-- From a reader position on the `i`-th boundary, the reads give the messages after the first
`i`: from the writer's end there directly, and from the end of the file before it through
`CheckFileOpen`, which moves on to the writer's end before reading. -/
theorem tryReadOneN_atBoundary {d : DiskQueueReader} {i : Nat}
    (hend : d.queueEndInfo = (empty.appendAll maxBytesPerFile ds).last)
    (hread : AtBoundary maxBytesPerFile ds i d.readQueueInfo)
    (hbuf : BufferAt disk d.readQueueInfo.endOffset d) (fuel : Nat) :
    tryReadOneN (fuel + 1) disk (ds.length - i + 1) d =
      some (frameReads (frameOffset ds i) i (ds.drop i)) := by
  rcases hread.eq_or_alias with heq | ⟨hlt, hpos, hnext⟩
  · exact tryReadOneN_boundary hcont hpres hsizes hread.1 hend heq hbuf fuel
  · -- at the end of the file before the boundary, which holds something and is on disk
    have hb : AtBoundary maxBytesPerFile ds i (boundary maxBytesPerFile ds i) :=
      atBoundary_boundary hread.1
    obtain ⟨h₀, -, -, -, -⟩ := hread.2.2.2.1
    have hF : d.readQueueInfo.endOffset.fileNum + 1 ≤
        (empty.appendAll maxBytesPerFile ds).last.endOffset.fileNum := by
      have := hb.2.2.2.1.2.1
      rw [hnext] at this
      exact this
    have hne := (log_spec maxBytesPerFile ds).2.files_ne_nil h₀ (by omega)
    have hfull : ((disk.contents d.readQueueInfo.endOffset.fileNum).length : Int) ≤
        d.readQueueInfo.endOffset.pos := by rw [hcont]; omega
    have hcnt : ¬ (d.readQueueInfo.totalMsgCnt ≤ 0 ∧ d.readQueueInfo.offset > 0) := by
      rw [DiskQueueEndInfo.offset, hread.2.1, hread.2.2.1]
      rintro ⟨hc, hv⟩
      rw [show i = 0 by omega] at hv
      simp [frameOffset] at hv
    have hone := readOne_nextFile hcnt hbuf (by rw [hend]; omega) hfull
      (dataFile_of_ne_nil hcont hpres hne ▸ Option.some_ne_none _)
    -- the boundary is strictly inside its file, so the end lies ahead of both positions
    have hg : d.queueEndInfo.endOffset.greatThan d.readQueueInfo.endOffset = true :=
      greatThan_of_lt (Or.inl (by rw [hend]; omega))
    have hg' : (empty.appendAll maxBytesPerFile ds).last.endOffset.greatThan
        (boundary maxBytesPerFile ds i).endOffset = true := by
      have hin := boundary_pos_lt maxBytesPerFile ds hlt
      have hloc := hb.2.2.2.1
      obtain ⟨hwf, -⟩ := log_spec maxBytesPerFile ds
      apply greatThan_of_lt
      rcases Int.lt_or_eq_of_le hloc.2.1 with h | h
      · exact Or.inl h
      · rw [h, hwf.2.1] at hin
        exact Or.inr ⟨h, hin⟩
    have hrest := tryReadOneN_boundary hcont hpres hsizes hread.1
      (d := { d with readQueueInfo := d.readQueueInfo.nextFile, readFile := none }) hend hnext.symm
      (bufferAt_closed rfl (hbuf.buffer_eq_nil hfull)) fuel
    rw [tryReadOneN_congr (tryReadOne_congr hg (by rw [hend]; dsimp only; rw [← hnext]; exact hg')
      hone (fuel + 1))]
    exact hrest

include hcont hpres in
/-- `internalSkipTo` to the `i`-th boundary, allowed below confirmed wherever the target lies
there: it succeeds, with read and confirmed on that boundary and the invariant kept. The target
is the read position, the confirmed one, the queue end, or found by `stepOffset`, by the branches
of the code in turn. -/
theorem internalSkipTo_boundary {d : DiskQueueReader} (hd : ReaderInv maxBytesPerFile ds disk d)
    {i : Nat} (hi : i ≤ ds.length) (back : Bool)
    (hback : frameOffset ds i < d.confirmedQueueInfo.offset → back = true) :
    ∃ d', internalSkipTo disk d (frameOffset ds i) i back = (d', none) ∧
      ReaderInv maxBytesPerFile ds disk d' ∧ d'.readQueueInfo = d'.confirmedQueueInfo ∧
      AtBoundary maxBytesPerFile ds i d'.readQueueInfo := by
  obtain ⟨hend, ⟨j, hj⟩, ⟨k, hk⟩, hle, hbuf, hrun⟩ := hd
  have hlast : AtBoundary maxBytesPerFile ds ds.length (empty.appendAll maxBytesPerFile ds).last :=
    atBoundary_last
  by_cases hA : frameOffset ds i = d.readQueueInfo.offset
  · -- the read position itself, whose count is already `i`
    obtain rfl := hj.index_eq hi hA.symm
    obtain ⟨hinv, hr, hc⟩ := settle_inv hend hj hbuf hrun
    refine ⟨_, ?_, hinv, hr.trans hc.symm, by rw [hr]; exact hj⟩
    rw [internalSkipTo, if_pos hA]
    dsimp only
    rw [if_neg (fun h => h.2 hj.2.2.1)]
  rw [internalSkipTo, if_neg hA]
  dsimp only
  by_cases hB : frameOffset ds i = d.confirmedQueueInfo.offset
  · -- the confirmed position, whose count is already `i`
    obtain rfl := hk.index_eq hi hB.symm
    obtain ⟨hinv, hr, hc⟩ := settle_inv (d := { d with readFile := none, readBuffer := [] }) hend hk
      (bufferAt_closed rfl rfl) hrun
    refine ⟨_, ?_, hinv, hr.trans hc.symm, by rw [hr]; exact hk⟩
    rw [if_pos hB, if_neg (fun h => h.2 hk.2.2.1)]
  have hoff : frameOffset ds i ≤ (empty.appendAll maxBytesPerFile ds).last.virtualEnd := by
    rw [hlast.2.1]
    exact frameOffset_le ds hi (le_refl _)
  rw [if_neg hB, if_neg (by cases back <;> simp_all), if_neg (by
    rw [hend, DiskQueueEndInfo.offset, hlast.2.2.1]
    omega)]
  by_cases hE : frameOffset ds i = d.queueEndInfo.offset
  · -- the queue end, taken with its own position and count
    have hn := hlast.index_eq hi (by rw [hE, hend, DiskQueueEndInfo.offset])
    have hr : AtBoundary maxBytesPerFile ds i
        ⟨d.queueEndInfo.endOffset, frameOffset ds i, i⟩ := by
      rw [hend, ← hn]
      exact ⟨le_refl _, rfl, rfl, hlast.2.2.2.1, fun _ => rfl⟩
    have hgt : d.queueEndInfo.endOffset.greatThan d.queueEndInfo.endOffset = false :=
      DiskQueueOffset.greatThan_eq_false_iff.mpr (DiskQueueOffset.le_refl _)
    have hcnt : d.queueEndInfo.totalMsgCnt = i := by rw [hend, hlast.2.2.1, hn]
    obtain ⟨hinv, hr', hc⟩ := settle_inv (d := { d with readFile := none, readBuffer := [] }) hend hr
      (bufferAt_closed rfl rfl) hrun
    refine ⟨_, ?_, hinv, hr'.trans hc.symm, by rw [hr']; exact hr⟩
    rw [if_pos hE]
    simp only [hcnt, ne_eq, not_true_eq_false, if_false, ite_self, hgt, Bool.false_eq_true]
  · -- elsewhere: the walk from the read position lands on a position located at the target
    obtain ⟨hwf, hflat⟩ := log_spec maxBytesPerFile ds
    have hzero : ¬ ((i : Int) = 0 ∧ frameOffset ds i ≠ 0) := by
      rintro ⟨h0, hne⟩
      rw [show i = 0 by omega] at hne
      simp [frameOffset] at hne
    have hread : (empty.appendAll maxBytesPerFile ds).Located d.readQueueInfo.endOffset
        d.readQueueInfo.virtualEnd := by
      rw [hj.2.1]
      exact hj.2.2.2.1
    obtain ⟨p', hstep, hp'⟩ := stepOffset_located hcont hpres hwf hflat hread
      (frameOffset_nonneg ds hi) hoff hA
    rw [← hend] at hstep
    have hgt : p'.greatThan d.queueEndInfo.endOffset = false := by
      rw [DiskQueueOffset.greatThan_eq_false_iff, hend]
      unfold DiskQueueOffset.Le
      rcases Int.lt_or_eq_of_le hp'.2.1 with h | h
      · exact Or.inl h
      · have := hp'.2.2.2.1
        rw [h, hwf.2.1] at this
        exact Or.inr ⟨h, this⟩
    have hr : AtBoundary maxBytesPerFile ds i ⟨p', frameOffset ds i, i⟩ :=
      ⟨hi, rfl, rfl, hp', fun hn => absurd (by rw [hend, DiskQueueEndInfo.offset, hlast.2.1, hn]) hE⟩
    obtain ⟨hinv, hr', hc⟩ := settle_inv (d := { d with readFile := none, readBuffer := [] }) hend hr
      (bufferAt_closed rfl rfl) hrun
    refine ⟨_, ?_, hinv, hr'.trans hc.symm, by rw [hr']; exact hr⟩
    rw [if_neg hE, if_neg hzero, hstep]
    simp only [hgt, Bool.false_eq_true, if_false]

include hcont hpres in
/-- `ResetReadToOffset` to the `i`-th boundary succeeds, forward or back: it closes the file first
and lets `internalSkipTo` go below confirmed exactly when the target lies there. -/
theorem resetReadToOffset_boundary {d : DiskQueueReader} (hd : ReaderInv maxBytesPerFile ds disk d)
    {i : Nat} (hi : i ≤ ds.length) :
    ∃ d', resetReadToOffset disk d (frameOffset ds i) i = (d', some d'.confirmedQueueInfo, none) ∧
      ReaderInv maxBytesPerFile ds disk d' ∧ d'.readQueueInfo = d'.confirmedQueueInfo ∧
      AtBoundary maxBytesPerFile ds i d'.readQueueInfo := by
  obtain ⟨d', hskip, hrest⟩ := internalSkipTo_boundary hcont hpres hd.close hi
    (decide (frameOffset ds i < d.confirmedQueueInfo.offset)) decide_eq_true
  refine ⟨d', ?_, hrest⟩
  rw [resetReadToOffset, if_neg (by rw [hd.running]; exact Bool.false_ne_true)]
  dsimp only
  rw [hskip]

include hcont hpres in
/-- `SkipReadToOffset` to a boundary at or after confirmed succeeds as the reset does. -/
theorem skipReadToOffset_boundary {d : DiskQueueReader} (hd : ReaderInv maxBytesPerFile ds disk d)
    {i : Nat} (hi : i ≤ ds.length) (hc : d.confirmedQueueInfo.offset ≤ frameOffset ds i) :
    ∃ d', skipReadToOffset disk d (frameOffset ds i) i = (d', some d'.confirmedQueueInfo, none) ∧
      ReaderInv maxBytesPerFile ds disk d' ∧ d'.readQueueInfo = d'.confirmedQueueInfo ∧
      AtBoundary maxBytesPerFile ds i d'.readQueueInfo := by
  obtain ⟨d', hskip, hrest⟩ := internalSkipTo_boundary hcont hpres hd hi false
    (fun h => absurd h (by omega))
  refine ⟨d', ?_, hrest⟩
  rw [skipReadToOffset, if_neg (by rw [hd.running]; exact Bool.false_ne_true)]
  dsimp only
  rw [hskip]

end Run

/-- `SkipReadToOffset` below confirmed fails with `ErrMoveOffsetInvalid`. Read, confirmed and the
end stay; only the open file and the buffer are dropped, as `internalSkipTo` does before it
compares with confirmed. -/
theorem skipReadToOffset_below {d : DiskQueueReader} (hd : ReaderInv maxBytesPerFile ds disk d)
    {v cnt : Int} (hv : v < d.confirmedQueueInfo.offset) :
    skipReadToOffset disk d v cnt =
      ({ d with readFile := none, readBuffer := [] }, some d.confirmedQueueInfo,
        some .moveOffsetInvalid) := by
  have hle := hd.confirmed_le
  rw [skipReadToOffset, if_neg (by rw [hd.running]; exact Bool.false_ne_true)]
  dsimp only
  rw [internalSkipTo, if_neg (by omega)]
  dsimp only
  rw [if_neg (by omega), if_pos ⟨hv, rfl⟩]

end Reset

section Sequential

variable {maxBytesPerFile : Int} {ds : List (List UInt8)} {disk : Disk}

/-- Repositioning agrees with sequential reading. Over a disk that holds the frame log of `ds`, as
`putV2All_flush` leaves it, and a reader whose positions keep `ReaderInv`, for every boundary `i`
at offset `o_i`: `ResetReadToOffset(o_i, i)` succeeds with read and confirmed on the `i`-th
boundary, and the `TryReadOne` calls after it answer the messages after the first `i` with their
offsets and counts, then no data; `SkipReadToOffset(o_i, i)` does the same when `o_i` is at or
after confirmed; below confirmed it fails with `ErrMoveOffsetInvalid`, keeping the invariant and
the positions, and the reads after it are those before it. -/
theorem resetReadToOffset_sequential
    (hcont : ∀ f, disk.contents f = (empty.appendAll maxBytesPerFile ds).files f)
    (hpres : ∀ f, (empty.appendAll maxBytesPerFile ds).files f ≠ [] → disk.dataFile f ≠ none)
    (hsizes : ∀ data ∈ ds, 0 < data.length ∧ (data.length : Int) ≤ maxPossibleMsgSize)
    {d : DiskQueueReader} (hd : ReaderInv maxBytesPerFile ds disk d) {i : Nat}
    (hi : i ≤ ds.length) (fuel : Nat) :
    (∃ d', resetReadToOffset disk d (frameOffset ds i) i = (d', some d'.confirmedQueueInfo, none) ∧
      d'.readQueueInfo = d'.confirmedQueueInfo ∧ AtBoundary maxBytesPerFile ds i d'.readQueueInfo ∧
      ReaderInv maxBytesPerFile ds disk d' ∧
      tryReadOneN (fuel + 1) disk (ds.length - i + 1) d' =
        some (frameReads (frameOffset ds i) i (ds.drop i))) ∧
    (d.confirmedQueueInfo.offset ≤ frameOffset ds i →
      ∃ d', skipReadToOffset disk d (frameOffset ds i) i = (d', some d'.confirmedQueueInfo, none) ∧
        d'.readQueueInfo = d'.confirmedQueueInfo ∧ AtBoundary maxBytesPerFile ds i d'.readQueueInfo ∧
        ReaderInv maxBytesPerFile ds disk d' ∧
        tryReadOneN (fuel + 1) disk (ds.length - i + 1) d' =
          some (frameReads (frameOffset ds i) i (ds.drop i))) ∧
    (frameOffset ds i < d.confirmedQueueInfo.offset →
      skipReadToOffset disk d (frameOffset ds i) i =
          ({ d with readFile := none, readBuffer := [] }, some d.confirmedQueueInfo,
            some .moveOffsetInvalid) ∧
        ReaderInv maxBytesPerFile ds disk { d with readFile := none, readBuffer := [] } ∧
        ∀ j, AtBoundary maxBytesPerFile ds j d.readQueueInfo →
          tryReadOneN (fuel + 1) disk (ds.length - j + 1)
              { d with readFile := none, readBuffer := [] } =
            tryReadOneN (fuel + 1) disk (ds.length - j + 1) d) := by
  -- a reader left on a boundary reads the messages after it
  have reads : ∀ {d' : DiskQueueReader} {j : Nat}, ReaderInv maxBytesPerFile ds disk d' →
      AtBoundary maxBytesPerFile ds j d'.readQueueInfo →
      tryReadOneN (fuel + 1) disk (ds.length - j + 1) d' =
        some (frameReads (frameOffset ds j) j (ds.drop j)) :=
    fun hd' hat => tryReadOneN_atBoundary hcont hpres hsizes hd'.queueEnd hat hd'.buffer fuel
  refine ⟨?_, fun hc => ?_, fun hc => ⟨skipReadToOffset_below hd hc, hd.close, fun j hj => ?_⟩⟩
  · obtain ⟨d', hreset, hinv, hrc, hat⟩ := resetReadToOffset_boundary hcont hpres hd hi
    exact ⟨d', hreset, hrc, hat, hinv, reads hinv hat⟩
  · obtain ⟨d', hskip, hinv, hrc, hat⟩ := skipReadToOffset_boundary hcont hpres hd hi hc
    exact ⟨d', hskip, hrc, hat, hinv, reads hinv hat⟩
  · rw [reads hd.close hj, reads hd hj]

/-- Two messages in files of 8 bytes, the second closing file 0. A reader at the end resets to the
first boundary, walking back over the file boundary into file 0, and reads the second message
again, then no data. -/
theorem resetReadToOffset_sequential_rolled :
    ReaderInv 8 [[1, 2], [3]]
        ⟨fun f => some ((FrameLog.empty.appendAll 8 [[1, 2], [3]]).files f), fun _ => none⟩
        ⟨⟨⟨1, 0⟩, 11, 2⟩, ⟨⟨1, 0⟩, 11, 2⟩, ⟨⟨1, 0⟩, 11, 2⟩, 0, 0, false, none, [], false, false⟩ ∧
      ∃ d', resetReadToOffset
          ⟨fun f => some ((FrameLog.empty.appendAll 8 [[1, 2], [3]]).files f), fun _ => none⟩
          ⟨⟨⟨1, 0⟩, 11, 2⟩, ⟨⟨1, 0⟩, 11, 2⟩, ⟨⟨1, 0⟩, 11, 2⟩, 0, 0, false, none, [], false, false⟩
          (frameOffset [[1, 2], [3]] 1) 1 = (d', some d'.confirmedQueueInfo, none) ∧
        tryReadOneN 1
          ⟨fun f => some ((FrameLog.empty.appendAll 8 [[1, 2], [3]]).files f), fun _ => none⟩ 2 d' =
          some (frameReads (frameOffset [[1, 2], [3]] 1) 1 [[3]]) := by
  have hinv : ReaderInv 8 [[1, 2], [3]]
      ⟨fun f => some ((FrameLog.empty.appendAll 8 [[1, 2], [3]]).files f), fun _ => none⟩
      ⟨⟨⟨1, 0⟩, 11, 2⟩, ⟨⟨1, 0⟩, 11, 2⟩, ⟨⟨1, 0⟩, 11, 2⟩, 0, 0, false, none, [], false, false⟩ :=
    ⟨by decide, ⟨2, by decide⟩, ⟨2, by decide⟩, le_refl _, bufferAt_closed rfl rfl, rfl⟩
  obtain ⟨d', hreset, -, -, -, hreads⟩ := (resetReadToOffset_sequential (fun _ => rfl)
    (fun _ _ => Option.some_ne_none _) (by decide) hinv (i := 1) (by decide) 0).1
  exact ⟨hinv, d', hreset, hreads⟩

end Sequential

end DiskQueueReader

end Nsq
