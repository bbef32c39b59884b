import Nsq.DiskQueue.Basic

/-!
# The frame log: what a flushed queue holds

Once everything written is flushed, a disk queue is a table of data files and an end. This
module states what that table holds, in its own terms: `FrameLog.append` is one message written
at the end, a frame (the `int32` length, big-endian, then the bytes) appended to the end's file,
with the end rolling to the next file once it reaches `maxBytesPerFile`.

`FrameLog.Spells q e ds` says that reading the log from `e` yields exactly the messages `ds`
and then its end. It is stated the way a reader meets the data: the next frame lies at the read
position; a frame that fills its file (the writer rolled after it) is the last bytes of that file
and lies before the end's file; a frame that does not fill its file is followed in that file by
more bytes, unless that file is the end's. The reader never learns `maxBytesPerFile` — it sees file
sizes — and these three clauses are what turn one view into the other.

The law is `spells_appendAll`: the log built from the empty queue by appending `ds` spells `ds`
from the start. Its induction step (`spells_append`) walks the already-spelled messages and
moves each clause across the append, which only ever extends the end's file.
-/

namespace Nsq

/-- The frame `writeOne` writes for a message: the `int32` length, big-endian, then the bytes. -/
def frame (data : List UInt8) : List UInt8 := BigEndian.encodeInt 4 data.length ++ data

@[simp] theorem length_frame (data : List UInt8) : (frame data).length = data.length + 4 := by
  simp [frame, Nat.add_comm]

/-- Where the writer's end moves when a frame for `data` is written at `e`: past the frame, or to
the start of the next file once the position reaches `maxBytesPerFile`. -/
def DiskQueueEndInfo.afterFrame (maxBytesPerFile : Int) (e : DiskQueueEndInfo)
    (data : List UInt8) : DiskQueueEndInfo :=
  let pos := e.endOffset.pos + (data.length + 4)
  ⟨if pos ≥ maxBytesPerFile then ⟨e.endOffset.fileNum + 1, 0⟩ else ⟨e.endOffset.fileNum, pos⟩,
    e.virtualEnd + (data.length + 4), e.totalMsgCnt + 1⟩

/-- The table of files with `bytes` appended to file `n`. -/
def appendFile (files : Int → List UInt8) (n : Int) (bytes : List UInt8) : Int → List UInt8 :=
  fun f => if f = n then files f ++ bytes else files f

@[simp] theorem appendFile_self (files : Int → List UInt8) (n : Int) (bytes : List UInt8) :
    appendFile files n bytes n = files n ++ bytes := by simp [appendFile]

theorem appendFile_of_ne (files : Int → List UInt8) {n f : Int} (bytes : List UInt8)
    (h : f ≠ n) : appendFile files n bytes f = files f := by simp [appendFile, h]

theorem appendFile_appendFile (files : Int → List UInt8) (n : Int) (b₁ b₂ : List UInt8) :
    appendFile (appendFile files n b₁) n b₂ = appendFile files n (b₁ ++ b₂) := by
  funext f
  by_cases h : f = n <;> simp [appendFile, h]

/-- A flushed queue: the bytes of every data file, and the end. -/
structure FrameLog where
  files : Int → List UInt8
  last : DiskQueueEndInfo

namespace FrameLog

variable (maxBytesPerFile : Int)

/-- The empty queue: no bytes anywhere, the end at zero. -/
def empty : FrameLog := ⟨fun _ => [], .zero⟩

/-- One message written and flushed: its frame appended to the end's file, the end moved past
it. -/
def append (q : FrameLog) (data : List UInt8) : FrameLog :=
  ⟨appendFile q.files q.last.endOffset.fileNum (frame data), q.last.afterFrame maxBytesPerFile data⟩

/-- Messages written in order. -/
def appendAll (q : FrameLog) (ds : List (List UInt8)) : FrameLog :=
  ds.foldl (append maxBytesPerFile) q

/-- The end's file is exactly as long as the end's position says, and no file after it holds
anything. -/
def WF (q : FrameLog) : Prop :=
  0 ≤ q.last.endOffset.pos ∧
    ((q.files q.last.endOffset.fileNum).length : Int) = q.last.endOffset.pos ∧
    ∀ f, q.last.endOffset.fileNum < f → q.files f = []

/-- Reading from `e` yields the messages `ds`, then the end. -/
def Spells (q : FrameLog) : DiskQueueEndInfo → List (List UInt8) → Prop
  | e, [] => e = q.last
  | e, d :: ds =>
    0 ≤ e.endOffset.pos ∧
    frame d <+: (q.files e.endOffset.fileNum).drop e.endOffset.pos.toNat ∧
    (e.endOffset.pos + (d.length + 4) ≥ maxBytesPerFile →
      e.endOffset.fileNum < q.last.endOffset.fileNum ∧
      ((q.files e.endOffset.fileNum).length : Int) = e.endOffset.pos + (d.length + 4)) ∧
    (e.endOffset.pos + (d.length + 4) < maxBytesPerFile →
      e.endOffset.fileNum < q.last.endOffset.fileNum →
      e.endOffset.pos + (d.length + 4) < (q.files e.endOffset.fileNum).length) ∧
    Spells q (e.afterFrame maxBytesPerFile d) ds

@[simp] theorem spells_nil (q : FrameLog) (e : DiskQueueEndInfo) :
    q.Spells maxBytesPerFile e [] ↔ e = q.last := Iff.rfl

theorem wf_empty : (empty).WF := by simp [WF, empty, DiskQueueEndInfo.zero]

@[simp] theorem append_last (q : FrameLog) (data : List UInt8) :
    (q.append maxBytesPerFile data).last = q.last.afterFrame maxBytesPerFile data := rfl

theorem append_files_self (q : FrameLog) (data : List UInt8) :
    (q.append maxBytesPerFile data).files q.last.endOffset.fileNum =
      q.files q.last.endOffset.fileNum ++ frame data := appendFile_self _ _ _

theorem append_files_of_ne (q : FrameLog) (data : List UInt8) {f : Int}
    (h : f ≠ q.last.endOffset.fileNum) : (q.append maxBytesPerFile data).files f = q.files f :=
  appendFile_of_ne _ _ h

theorem afterFrame_of_roll {e : DiskQueueEndInfo} {d : List UInt8}
    (h : e.endOffset.pos + (d.length + 4) ≥ maxBytesPerFile) :
    (e.afterFrame maxBytesPerFile d).endOffset = ⟨e.endOffset.fileNum + 1, 0⟩ := by
  simp [DiskQueueEndInfo.afterFrame, h]

theorem afterFrame_of_not_roll {e : DiskQueueEndInfo} {d : List UInt8}
    (h : ¬ e.endOffset.pos + (d.length + 4) ≥ maxBytesPerFile) :
    (e.afterFrame maxBytesPerFile d).endOffset =
      ⟨e.endOffset.fileNum, e.endOffset.pos + (d.length + 4)⟩ := by
  simp [DiskQueueEndInfo.afterFrame, h]

@[simp] theorem afterFrame_virtualEnd (e : DiskQueueEndInfo) (d : List UInt8) :
    (e.afterFrame maxBytesPerFile d).virtualEnd = e.virtualEnd + (d.length + 4) := rfl

@[simp] theorem afterFrame_totalMsgCnt (e : DiskQueueEndInfo) (d : List UInt8) :
    (e.afterFrame maxBytesPerFile d).totalMsgCnt = e.totalMsgCnt + 1 := rfl

theorem wf_append {q : FrameLog} (hq : q.WF) (data : List UInt8) :
    (q.append maxBytesPerFile data).WF := by
  obtain ⟨hpos, hlen, hafter⟩ := hq
  by_cases hroll : q.last.endOffset.pos + (data.length + 4) ≥ maxBytesPerFile
  · -- the end rolled into the next file, which the append did not touch
    have hF := afterFrame_of_roll maxBytesPerFile hroll
    refine ⟨by simp [hF], ?_, fun f hf => ?_⟩
    · simp only [append_last, hF]
      rw [append_files_of_ne _ _ _ (by omega), hafter _ (by omega)]
      rfl
    · simp only [append_last, hF] at hf
      rw [append_files_of_ne _ _ _ (by omega), hafter _ (by omega)]
  · have hF := afterFrame_of_not_roll maxBytesPerFile hroll
    refine ⟨by simp only [append_last, hF]; omega, ?_, fun f hf => ?_⟩
    · simp only [append_last, hF]
      rw [append_files_self, List.length_append, length_frame]
      push_cast
      omega
    · simp only [append_last, hF] at hf
      rw [append_files_of_ne _ _ _ (by omega), hafter _ hf]

/-! ## Spelling is monotone -/

/-- A frame's end lies after its start. -/
theorem le_afterFrame (e : DiskQueueEndInfo) (d : List UInt8) :
    e.endOffset.Le (e.afterFrame maxBytesPerFile d).endOffset := by
  by_cases hroll : e.endOffset.pos + (d.length + 4) ≥ maxBytesPerFile
  · rw [afterFrame_of_roll maxBytesPerFile hroll]
    exact Or.inl (by simp)
  · rw [afterFrame_of_not_roll maxBytesPerFile hroll]
    exact Or.inr ⟨rfl, by simp; omega⟩

/-- Every position a log spells from lies at or before its end. -/
theorem spells_le {q : FrameLog} :
    ∀ {e : DiskQueueEndInfo} {ds : List (List UInt8)}, q.Spells maxBytesPerFile e ds →
      e.endOffset.Le q.last.endOffset
  | _, [], h => by rw [h]; exact DiskQueueOffset.le_refl _
  | e, d :: _, ⟨_, _, _, _, htail⟩ =>
    DiskQueueOffset.le_trans (le_afterFrame maxBytesPerFile e d) (spells_le htail)

/-- The end's virtual offset is the start's plus the frames spelled in between. -/
theorem spells_virtualEnd {q : FrameLog} :
    ∀ {e : DiskQueueEndInfo} {ds : List (List UInt8)}, q.Spells maxBytesPerFile e ds →
      q.last.virtualEnd = e.virtualEnd + (ds.map fun d => (d.length : Int) + 4).sum
  | _, [], h => by rw [h]; simp
  | e, d :: _, ⟨_, _, _, _, htail⟩ => by
    rw [spells_virtualEnd htail, afterFrame_virtualEnd, List.map_cons, List.sum_cons]
    ring

/-- Every frame spelled takes at least its four header bytes of virtual offset. -/
theorem le_spells_virtualEnd {q : FrameLog} :
    ∀ {e : DiskQueueEndInfo} {ds : List (List UInt8)}, q.Spells maxBytesPerFile e ds →
      e.virtualEnd + 4 * ds.length ≤ q.last.virtualEnd
  | _, [], h => by rw [h]; simp
  | e, d :: _, ⟨_, _, _, _, htail⟩ => by
    have := le_spells_virtualEnd htail
    simp only [afterFrame_virtualEnd, List.length_cons] at this ⊢
    omega

/-- The end's message count is the start's plus the messages spelled in between. -/
theorem spells_totalMsgCnt {q : FrameLog} :
    ∀ {e : DiskQueueEndInfo} {ds : List (List UInt8)}, q.Spells maxBytesPerFile e ds →
      q.last.totalMsgCnt = e.totalMsgCnt + ds.length
  | _, [], h => by rw [h]; simp
  | e, d :: _, ⟨_, _, _, _, htail⟩ => by
    rw [spells_totalMsgCnt htail, afterFrame_totalMsgCnt, List.length_cons]
    push_cast
    ring

/-! ## Appending keeps what was spelled -/

/-- A prefix of the bytes from a position inside a file survives anything appended to it. -/
theorem prefix_drop_append {p l : List UInt8} {n : Nat} (hp : p <+: l.drop n) (hn : n ≤ l.length)
    (x : List UInt8) : p <+: (l ++ x).drop n := by
  rw [List.drop_append_of_le_length hn]
  exact hp.trans (List.prefix_append _ _)

/-- The induction step: appending one message to a well-formed log that spells `ds` from `e`
spells `ds` and then that message. -/
theorem spells_append {q : FrameLog} (hq : q.WF) (d' : List UInt8) :
    ∀ {e : DiskQueueEndInfo} {ds : List (List UInt8)}, q.Spells maxBytesPerFile e ds →
      (q.append maxBytesPerFile d').Spells maxBytesPerFile e (ds ++ [d'])
  | e, [], h => by
    obtain ⟨hpos, hlen, _⟩ := hq
    subst h
    refine ⟨hpos, ?_, fun hroll => ?_, fun hroll hlt => ?_, rfl⟩
    · -- the new frame starts exactly where the end's file stopped
      rw [append_files_self, List.drop_append_of_le_length (by omega)]
      have : (q.files q.last.endOffset.fileNum).drop q.last.endOffset.pos.toNat = [] :=
        List.drop_eq_nil_of_le (by omega)
      rw [this]
      exact List.prefix_refl _
    · refine ⟨by simp [afterFrame_of_roll maxBytesPerFile hroll], ?_⟩
      rw [append_files_self, List.length_append, length_frame]
      push_cast
      omega
    · simp [afterFrame_of_not_roll maxBytesPerFile (not_le.mpr hroll)] at hlt
  | e, d :: ds, ⟨hpos, hpre, hroll, hstay, htail⟩ => by
    have hle := spells_le maxBytesPerFile htail
    have hlen := hq.2.1
    -- the first frame lies at or before the end, inside the bytes already written
    have hin : e.endOffset.fileNum = q.last.endOffset.fileNum →
        e.endOffset.pos + (d.length + 4) ≤ q.last.endOffset.pos := by
      intro hF
      by_cases hr : e.endOffset.pos + (d.length + 4) ≥ maxBytesPerFile
      · have := (hroll hr).1; omega
      · rw [afterFrame_of_not_roll maxBytesPerFile hr] at hle
        rcases hle with hlt | ⟨_, hp⟩
        · simp at hlt; omega
        · exact hp
    have hlast := le_afterFrame maxBytesPerFile q.last d'
    refine ⟨hpos, ?_, fun hr => ?_, fun hr hlt => ?_, spells_append hq d' htail⟩
    · by_cases hF : e.endOffset.fileNum = q.last.endOffset.fileNum
      · rw [hF, append_files_self]
        rw [hF] at hpre
        exact prefix_drop_append hpre (by have := hin hF; omega) _
      · rwa [append_files_of_ne _ _ _ hF]
    · obtain ⟨hlt, hl⟩ := hroll hr
      refine ⟨?_, by rwa [append_files_of_ne _ _ _ (by omega)]⟩
      rcases hlast with h | ⟨h, _⟩
      · simp only [append_last]; omega
      · simp only [append_last]; omega
    · have hle' := DiskQueueOffset.le_trans (le_afterFrame maxBytesPerFile e d) hle
      by_cases hF : e.endOffset.fileNum = q.last.endOffset.fileNum
      · -- the end's file grows by the new frame, past the first frame's end
        rw [hF, append_files_self, List.length_append, length_frame]
        have := hin hF
        push_cast
        omega
      · have hlt' : e.endOffset.fileNum < q.last.endOffset.fileNum := by
          rcases le_afterFrame maxBytesPerFile e d with h | ⟨h, _⟩ <;>
          rcases hle with h' | ⟨h', _⟩ <;> omega
        rw [append_files_of_ne _ _ _ hF]
        exact hstay hr hlt'

/-- Appending messages one by one keeps the log well formed and spelling everything written. -/
theorem spells_appendAll {q : FrameLog} (hq : q.WF) {e : DiskQueueEndInfo}
    {ds₀ : List (List UInt8)} (h : q.Spells maxBytesPerFile e ds₀) :
    ∀ ds, (q.appendAll maxBytesPerFile ds).WF ∧
      (q.appendAll maxBytesPerFile ds).Spells maxBytesPerFile e (ds₀ ++ ds)
  | [] => by simpa [appendAll] using ⟨hq, h⟩
  | d :: ds => by
    have step := spells_appendAll (wf_append maxBytesPerFile hq d)
      (spells_append maxBytesPerFile hq d h) ds
    simpa [appendAll] using step

/-- From the empty queue, the log of `ds` spells `ds` from the start. -/
theorem empty_appendAll_spells (ds : List (List UInt8)) :
    (empty.appendAll maxBytesPerFile ds).WF ∧
      (empty.appendAll maxBytesPerFile ds).Spells maxBytesPerFile .zero ds := by
  simpa using spells_appendAll maxBytesPerFile wf_empty
    (show empty.Spells maxBytesPerFile .zero [] from rfl) ds

end FrameLog

end Nsq
