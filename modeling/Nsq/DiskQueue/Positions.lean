import Nsq.DiskQueue.Frames
import Nsq.Lib.Segments

/-!
# Virtual offsets and file positions

A disk queue addresses its bytes twice: by virtual offset, the bytes written before, and by data
file and position in it. For a queue written from the empty directory the two agree file by file:
a file starts at the sizes of the files before it (`startOf`), and every file before the end's
holds at least one frame (`Flat`). `Located q p v` says that position `p` lies in the log at
virtual offset `v`.

Where a reader or the writer repositions by virtual offset, it walks the files by their sizes and
lands on a located position. That position is the one the writer's own end passed through at that
offset (`boundary`), or, where the offset is a file boundary, the end of the file before it
(`eq_or_alias`): a walk that stops as soon as the distance is covered does not roll over into the
next file.
-/

namespace Nsq

namespace FrameLog

/-- The size of data file `g`. -/
def size (q : FrameLog) (g : Nat) : Nat := (q.files g).length

/-- The virtual offset where data file `f` starts: the sizes of the files before it. -/
def startOf (q : FrameLog) (f : Nat) : Nat := Segments.start q.size f

/-- A log whose virtual offsets count its files' bytes from file `0`: the end's virtual offset is
where its file starts plus its position, and every file before the end's holds something. -/
structure Flat (q : FrameLog) : Prop where
  fileNum_nonneg : 0 ≤ q.last.endOffset.fileNum
  virtualEnd_eq : q.last.virtualEnd = q.startOf q.last.endOffset.fileNum.toNat + q.last.endOffset.pos
  full : ∀ g : Nat, (g : Int) < q.last.endOffset.fileNum → q.files g ≠ []

/-- Position `p` lies in the log, within a file up to the end's, at virtual offset `v`. -/
def Located (q : FrameLog) (p : DiskQueueOffset) (v : Int) : Prop :=
  0 ≤ p.fileNum ∧ p.fileNum ≤ q.last.endOffset.fileNum ∧ 0 ≤ p.pos ∧
    p.pos ≤ (q.files p.fileNum).length ∧ v = q.startOf p.fileNum.toNat + p.pos

instance (q : FrameLog) (p : DiskQueueOffset) (v : Int) : Decidable (q.Located p v) := by
  unfold Located
  infer_instance

variable (maxBytesPerFile : Int)

/-- Files below the end's are the same after an append. -/
theorem append_files_of_lt (q : FrameLog) (data : List UInt8) {g : Int}
    (hg : g < q.last.endOffset.fileNum) : (q.append maxBytesPerFile data).files g = q.files g :=
  append_files_of_ne maxBytesPerFile q data (by omega)

/-- Where files start is decided by the files before, so an append moves no start up to the end's
file. -/
theorem startOf_append (q : FrameLog) (data : List UInt8) {n : Nat}
    (hn : (n : Int) ≤ q.last.endOffset.fileNum) :
    (q.append maxBytesPerFile data).startOf n = q.startOf n :=
  Segments.start_congr fun g hg => by
    unfold size
    rw [append_files_of_lt maxBytesPerFile q data (by omega)]

theorem flat_empty : (empty).Flat :=
  ⟨le_refl 0, rfl, fun g hg => absurd hg (by simp [empty, DiskQueueEndInfo.zero])⟩

/-- The step: an append to a well-formed flat log keeps it flat. When the end rolls, the file it
leaves holds the frame, and the next file starts where the frame ends. -/
theorem flat_append {q : FrameLog} (hq : q.WF) (hf : q.Flat) (data : List UInt8) :
    (q.append maxBytesPerFile data).Flat := by
  obtain ⟨hpos, hlen, -⟩ := hq
  obtain ⟨hF, hv, hfull⟩ := hf
  have hstart := startOf_append maxBytesPerFile q data (n := q.last.endOffset.fileNum.toNat)
    (by omega)
  by_cases hroll : q.last.endOffset.pos + (data.length + 4) ≥ maxBytesPerFile
  · have he := afterFrame_of_roll maxBytesPerFile hroll
    refine ⟨by simp [he]; omega, ?_, fun g hg => ?_⟩
    · -- the next file starts after the end's file, which now ends with the frame
      have hsucc : (q.last.endOffset.fileNum + 1).toNat = q.last.endOffset.fileNum.toNat + 1 := by
        omega
      have hsize : (q.append maxBytesPerFile data).size q.last.endOffset.fileNum.toNat =
          q.last.endOffset.pos + (data.length + 4) := by
        unfold size
        rw [Int.toNat_of_nonneg hF, append_files_self, List.length_append, length_frame]
        push_cast
        omega
      simp only [append_last, he, afterFrame_virtualEnd, hsucc]
      rw [startOf, Segments.start_succ, ← startOf, hstart]
      push_cast
      rw [hsize, hv]
      ring
    · simp only [append_last, he] at hg
      by_cases hgF : (g : Int) = q.last.endOffset.fileNum
      · rw [hgF, append_files_self]
        exact List.ne_nil_of_length_pos (by rw [List.length_append, length_frame]; omega)
      · rw [append_files_of_lt maxBytesPerFile q data (by omega)]
        exact hfull g (by omega)
  · have he := afterFrame_of_not_roll maxBytesPerFile hroll
    refine ⟨by simp [he]; omega, ?_, fun g hg => ?_⟩
    · simp only [append_last, he, afterFrame_virtualEnd]
      rw [hstart, hv]
      ring
    · simp only [append_last, he] at hg
      rw [append_files_of_lt maxBytesPerFile q data hg]
      exact hfull g hg

/-- An append never moves the end back to an earlier file. -/
theorem fileNum_le_append (q : FrameLog) (data : List UInt8) :
    q.last.endOffset.fileNum ≤ (q.append maxBytesPerFile data).last.endOffset.fileNum := by
  rcases le_afterFrame maxBytesPerFile q.last data with h | ⟨h, _⟩ <;> simp only [append_last] <;>
    omega

/-- An append moves the end at most one file on. -/
theorem fileNum_append_le (q : FrameLog) (data : List UInt8) :
    (q.append maxBytesPerFile data).last.endOffset.fileNum ≤ q.last.endOffset.fileNum + 1 := by
  by_cases hroll : q.last.endOffset.pos + (data.length + 4) ≥ maxBytesPerFile
  · simp [afterFrame_of_roll maxBytesPerFile hroll]
  · simp [afterFrame_of_not_roll maxBytesPerFile hroll]

/-- Appending messages moves the end at most one file on per message. -/
theorem fileNum_appendAll_le :
    ∀ (q : FrameLog) (ds : List (List UInt8)),
      (q.appendAll maxBytesPerFile ds).last.endOffset.fileNum ≤ q.last.endOffset.fileNum + ds.length
  | q, [] => by simp [appendAll]
  | q, data :: ds => by
    have hrest := fileNum_appendAll_le (q.append maxBytesPerFile data) ds
    have hone := fileNum_append_le maxBytesPerFile q data
    rw [appendAll, List.foldl_cons, ← appendAll, List.length_cons]
    omega

/-- Appending keeps a log well formed and flat, leaves the files below the end's alone, only
extends the end's file, and never moves the end back. The induction is on the messages. -/
theorem appendAll_spec {q : FrameLog} (hq : q.WF) (hf : q.Flat) :
    ∀ ds, (q.appendAll maxBytesPerFile ds).WF ∧ (q.appendAll maxBytesPerFile ds).Flat ∧
      (∀ g, g < q.last.endOffset.fileNum → (q.appendAll maxBytesPerFile ds).files g = q.files g) ∧
      q.files q.last.endOffset.fileNum <+: (q.appendAll maxBytesPerFile ds).files q.last.endOffset.fileNum ∧
      q.last.endOffset.fileNum ≤ (q.appendAll maxBytesPerFile ds).last.endOffset.fileNum
  | [] => ⟨hq, hf, fun _ _ => rfl, List.prefix_refl _, le_refl _⟩
  | data :: ds => by
    obtain ⟨hwf, hfl, hbelow, hpre, hle⟩ :=
      appendAll_spec (wf_append maxBytesPerFile hq data) (flat_append maxBytesPerFile hq hf data) ds
    have hmono := fileNum_le_append maxBytesPerFile q data
    refine ⟨hwf, hfl, fun g hg => ?_, ?_, le_trans hmono hle⟩
    · rw [appendAll, List.foldl_cons, ← appendAll, hbelow g (by omega)]
      exact append_files_of_lt maxBytesPerFile q data hg
    · rw [appendAll, List.foldl_cons, ← appendAll]
      rcases Int.lt_or_eq_of_le hmono with hlt | heq
      · rw [hbelow _ hlt, append_files_self]
        exact List.prefix_append _ _
      · rw [← heq, append_files_self] at hpre
        exact (List.prefix_append _ _).trans hpre

/-- A located position stays located, at the same offset, after appends. -/
theorem Located.appendAll {q : FrameLog} (hq : q.WF) (hf : q.Flat) {p : DiskQueueOffset} {v : Int}
    (hp : q.Located p v) (ds : List (List UInt8)) : (q.appendAll maxBytesPerFile ds).Located p v := by
  obtain ⟨-, -, hbelow, hpre, hle⟩ := appendAll_spec maxBytesPerFile hq hf ds
  obtain ⟨h₀, hF, hpos, hsz, hv⟩ := hp
  have hstart : (q.appendAll maxBytesPerFile ds).startOf p.fileNum.toNat = q.startOf p.fileNum.toNat :=
    Segments.start_congr fun g hg => by
      unfold size
      rw [hbelow _ (by omega)]
  refine ⟨h₀, le_trans hF hle, hpos, ?_, by rw [hstart, hv]⟩
  rcases Int.lt_or_eq_of_le hF with hlt | heq
  · rwa [hbelow _ hlt]
  · have := hpre.length_le
    rw [heq] at hsz ⊢
    omega

/-- The end of a well-formed flat log is located at its virtual offset. -/
theorem located_last {q : FrameLog} (hq : q.WF) (hf : q.Flat) :
    q.Located q.last.endOffset q.last.virtualEnd :=
  ⟨hf.fileNum_nonneg, le_refl _, hq.1, by rw [hq.2.1], hf.virtualEnd_eq⟩

/-- Every file before the end's holds something. -/
theorem Flat.files_ne_nil {q : FrameLog} (hf : q.Flat) {f : Int} (h₀ : 0 ≤ f)
    (hlt : f < q.last.endOffset.fileNum) : q.files f ≠ [] := by
  have := hf.full f.toNat (by omega)
  rwa [Int.toNat_of_nonneg h₀] at this

/-- A file starts where the one before it ends. -/
theorem startOf_succ (q : FrameLog) {f : Int} (h₀ : 0 ≤ f) :
    (q.startOf (f + 1).toNat : Int) = q.startOf f.toNat + (q.files f).length := by
  rw [show (f + 1).toNat = f.toNat + 1 by omega, startOf, Segments.start_succ, ← startOf, size,
    Int.toNat_of_nonneg h₀]
  push_cast
  rfl

/-- One virtual offset, two located positions, the second strictly inside its file: they are one
position, or the first is the end of the file just before the second's start. -/
theorem eq_or_alias {q : FrameLog} (hf : q.Flat) {p p' : DiskQueueOffset} {v : Int}
    (hp : q.Located p v) (hp' : q.Located p' v) (hin : p'.pos < (q.files p'.fileNum).length) :
    p = p' ∨ (p.pos = (q.files p.fileNum).length ∧ p' = ⟨p.fileNum + 1, 0⟩) := by
  obtain ⟨h₀, -, hpos, hsz, hv⟩ := hp
  obtain ⟨h₀', hF', hpos', -, hv'⟩ := hp'
  have hsize : ∀ f : Int, 0 ≤ f → q.size f.toNat = (q.files f).length := fun f hf₀ => by
    unfold size
    rw [Int.toNat_of_nonneg hf₀]
  have hx : p.pos.toNat ≤ q.size p.fileNum.toNat := by rw [hsize _ h₀]; omega
  have hy : p'.pos.toNat < q.size p'.fileNum.toNat := by rw [hsize _ h₀']; omega
  have hne : ∀ g, p.fileNum.toNat < g → g < p'.fileNum.toNat → 0 < q.size g := fun g _ hg => by
    have := hf.full g (by omega)
    unfold size
    exact List.length_pos_iff.mpr this
  have heq : q.startOf p.fileNum.toNat + p.pos.toNat = q.startOf p'.fileNum.toNat + p'.pos.toNat := by
    omega
  rcases Segments.eq_of_start_add_eq hx hy hne heq with ⟨hF, hP⟩ | ⟨hF, hP, h0⟩
  · left
    cases p
    cases p'
    simp only [DiskQueueOffset.mk.injEq] at *
    omega
  · right
    rw [hsize _ h₀] at hP
    refine ⟨by omega, ?_⟩
    cases p'
    simp only [DiskQueueOffset.mk.injEq] at *
    omega

/-! ## Boundaries

The writer's end after the first `i` messages of `ds`: where the `i`-th message's frame ends and the
next one's starts. -/

/-- The virtual offset of the end after the first `i` messages: their frame sizes. -/
def frameOffset (ds : List (List UInt8)) (i : Nat) : Int :=
  ((ds.take i).map fun d => (d.length : Int) + 4).sum

/-- The writer's end after the first `i` messages of `ds`. -/
def boundary (ds : List (List UInt8)) (i : Nat) : DiskQueueEndInfo :=
  (empty.appendAll maxBytesPerFile (ds.take i)).last

theorem appendAll_take_drop (ds : List (List UInt8)) (i : Nat) :
    (empty.appendAll maxBytesPerFile (ds.take i)).appendAll maxBytesPerFile (ds.drop i) =
      empty.appendAll maxBytesPerFile ds := by
  rw [appendAll, appendAll, appendAll, ← List.foldl_append, List.take_append_drop]

/-- The log of `ds` is well formed and flat. -/
theorem log_spec (ds : List (List UInt8)) :
    (empty.appendAll maxBytesPerFile ds).WF ∧ (empty.appendAll maxBytesPerFile ds).Flat :=
  ⟨(appendAll_spec maxBytesPerFile wf_empty flat_empty ds).1,
    (appendAll_spec maxBytesPerFile wf_empty flat_empty ds).2.1⟩

/-- From the `i`-th boundary the log spells the messages after the first `i`. -/
theorem spells_boundary (ds : List (List UInt8)) (i : Nat) :
    (empty.appendAll maxBytesPerFile ds).Spells maxBytesPerFile (boundary maxBytesPerFile ds i)
      (ds.drop i) := by
  have hq := (log_spec maxBytesPerFile (ds.take i)).1
  have := (spells_appendAll maxBytesPerFile hq
    (show (empty.appendAll maxBytesPerFile (ds.take i)).Spells maxBytesPerFile
      (boundary maxBytesPerFile ds i) [] from rfl) (ds.drop i)).2
  rwa [appendAll_take_drop, List.nil_append] at this

theorem boundary_virtualEnd (ds : List (List UInt8)) (i : Nat) :
    (boundary maxBytesPerFile ds i).virtualEnd = frameOffset ds i := by
  have := spells_virtualEnd maxBytesPerFile (empty_appendAll_spells maxBytesPerFile (ds.take i)).2
  rw [boundary, this, frameOffset]
  simp [DiskQueueEndInfo.zero]

theorem boundary_totalMsgCnt (ds : List (List UInt8)) {i : Nat} (hi : i ≤ ds.length) :
    (boundary maxBytesPerFile ds i).totalMsgCnt = i := by
  have := spells_totalMsgCnt maxBytesPerFile (empty_appendAll_spells maxBytesPerFile (ds.take i)).2
  rw [boundary, this, List.length_take]
  simp [DiskQueueEndInfo.zero, Nat.min_eq_left hi]

/-- The boundary after all messages is the log's end. -/
theorem boundary_length (ds : List (List UInt8)) :
    boundary maxBytesPerFile ds ds.length = (empty.appendAll maxBytesPerFile ds).last := by
  rw [boundary, List.take_length]

/-- Every boundary is located in the log, at its frame offset. -/
theorem located_boundary (ds : List (List UInt8)) (i : Nat) :
    (empty.appendAll maxBytesPerFile ds).Located (boundary maxBytesPerFile ds i).endOffset
      (frameOffset ds i) := by
  obtain ⟨hwf, hfl⟩ := log_spec maxBytesPerFile (ds.take i)
  have := (located_last hwf hfl).appendAll maxBytesPerFile hwf hfl (ds.drop i)
  rwa [appendAll_take_drop, ← boundary, boundary_virtualEnd] at this

/-- The files of the first `i` messages' log: the whole log's before the `i`-th boundary's file,
that file cut at the boundary, and nothing after it. -/
theorem boundary_files (ds : List (List UInt8)) (i : Nat) (g : Int) :
    (empty.appendAll maxBytesPerFile (ds.take i)).files g =
      if g < (boundary maxBytesPerFile ds i).endOffset.fileNum then
        (empty.appendAll maxBytesPerFile ds).files g
      else if g = (boundary maxBytesPerFile ds i).endOffset.fileNum then
        ((empty.appendAll maxBytesPerFile ds).files g).take
          (boundary maxBytesPerFile ds i).endOffset.pos.toNat
      else [] := by
  obtain ⟨hwf, hfl⟩ := log_spec maxBytesPerFile (ds.take i)
  obtain ⟨-, -, hbelow, hpre, -⟩ := appendAll_spec maxBytesPerFile hwf hfl (ds.drop i)
  rw [appendAll_take_drop] at hbelow hpre
  obtain ⟨hpos, hlen, hafter⟩ := hwf
  rw [← boundary] at hbelow hpre hpos hlen hafter
  by_cases hlt : g < (boundary maxBytesPerFile ds i).endOffset.fileNum
  · rw [if_pos hlt]
    exact (hbelow g hlt).symm
  rw [if_neg hlt]
  by_cases heq : g = (boundary maxBytesPerFile ds i).endOffset.fileNum
  · -- the cut file is the prefix of the whole log's file that the boundary's position measures
    subst heq
    have hl : ((empty.appendAll maxBytesPerFile (ds.take i)).files
        (boundary maxBytesPerFile ds i).endOffset.fileNum).length =
        (boundary maxBytesPerFile ds i).endOffset.pos.toNat := by omega
    rw [if_pos rfl, ← hl]
    exact List.prefix_iff_eq_take.mp hpre
  · rw [if_neg heq]
    exact hafter g (by omega)

/-- A boundary before the end lies strictly inside its file: the next frame starts there. -/
theorem boundary_pos_lt (ds : List (List UInt8)) {i : Nat} (hi : i < ds.length) :
    (boundary maxBytesPerFile ds i).endOffset.pos <
      ((empty.appendAll maxBytesPerFile ds).files (boundary maxBytesPerFile ds i).endOffset.fileNum).length := by
  have hs := spells_boundary maxBytesPerFile ds i
  rw [List.drop_eq_getElem_cons hi] at hs
  obtain ⟨hpos, hpre, -⟩ := hs
  have := hpre.length_le
  rw [List.length_drop, length_frame] at this
  omega

theorem frameOffset_succ (ds : List (List UInt8)) {i : Nat} (hi : i < ds.length) :
    frameOffset ds (i + 1) = frameOffset ds i + ((ds[i]).length + 4) := by
  rw [frameOffset, frameOffset, List.take_succ_eq_append_getElem hi, List.map_append,
    List.sum_append]
  simp

/-- Frame offsets strictly increase with the number of messages. The induction is on `j`. -/
theorem frameOffset_lt (ds : List (List UInt8)) {i j : Nat} (hij : i < j) (hj : j ≤ ds.length) :
    frameOffset ds i < frameOffset ds j := by
  induction j with
  | zero => omega
  | succ j ih =>
    rw [frameOffset_succ ds (by omega)]
    rcases Nat.lt_or_ge i j with h | h
    · have := ih h (by omega)
      omega
    · rw [Nat.le_antisymm (Nat.lt_succ_iff.mp hij) h]
      omega

theorem frameOffset_le (ds : List (List UInt8)) {i j : Nat} (hij : i ≤ j) (hj : j ≤ ds.length) :
    frameOffset ds i ≤ frameOffset ds j := by
  rcases Nat.lt_or_eq_of_le hij with h | rfl
  · exact le_of_lt (frameOffset_lt ds h hj)
  · exact le_refl _

theorem frameOffset_nonneg (ds : List (List UInt8)) {i : Nat} (hi : i ≤ ds.length) :
    0 ≤ frameOffset ds i := by
  have := frameOffset_le ds (Nat.zero_le i) hi
  simpa [frameOffset] using this

end FrameLog

end Nsq
