import Nsq.Lib.AckLog
import Nsq.DiskQueue.Session

/-!
# Delivery: the disk queue is an acknowledged log

A topic's disk queue and one channel's reader, over one directory. The producer's side is the
topic's put and flush: `PutV2` of each message of a batch, `Flush`, and `UpdateQueueEnd` of the
reader with the writer's read end, without a reload, as `Topic.flush` does through
`updateChannelsEnd`. The consumer's side is the reader's calls: `TryReadOne`, `ConfirmRead`,
`ResetReadToConfirmed`, `ResetReadToOffset`, `SkipReadToOffset` and `SkipReadToEnd`. `queueRun`
runs any interleaving of the two.

`queueRun_refines`: the queue refines the acknowledged log of `AckLog`. For every sequence of
abstract calls whose targets are boundaries of the log at the time, made on the queue with the
offsets and counts of those boundaries, and whose payloads both the writer's and the reader's
size checks admit, the queue answers what the abstract log answers (a read the message at the
read index, with its offset, frame size and count), and stays in step with it (`QueueAt`): the
disk holds the frame log of the messages put, the writer backs it, and the reader is in a session
on the abstract read and acknowledged indices.

What holds of every acknowledged log then holds of the queue:
* `queueRun_delivers_confirmed`: without skips, every message confirmed during a run was answered
  by a `TryReadOne` during it;
* `queueRun_confirmed_mono`: without `ResetReadToOffset`, the confirmed count and offset never
  move back;
* `queueRun_reads_in_order`: without skips and resets, the reads answer the messages from the read
  position on, in order, each once;
* `queueRun_rewind_redelivers`: after `ResetReadToConfirmed`, the reads answer again the messages
  from the confirmed one on.

One call has no abstract counterpart: `ResetLastReadOne`, with which the channel gives back a read.
`tryReadOne_resetLastReadOne`: the next read answers the message again, unless its frame filled
its file, when the give-back does nothing and the next read answers the message after it.
-/

namespace Nsq

namespace Delivery

open FrameLog DiskQueueWriter DiskQueueReader

/-- A topic's disk queue with one channel's reader: the directory, the writer and the reader. -/
structure Queue where
  disk : Disk
  writer : DiskQueueWriter
  reader : DiskQueueReader

/-- What the topic and the channel call. -/
inductive QueueCall where
  /-- `PutV2` of each message, `Flush`, then `UpdateQueueEnd(GetQueueReadEnd(), false)`. -/
  | put (batch : List (List UInt8))
  | tryReadOne
  | confirmRead (offset cnt : Int)
  | resetReadToConfirmed
  | resetReadToOffset (offset cnt : Int)
  | skipReadToOffset (offset cnt : Int)
  | skipReadToEnd

/-- What the calls answer. -/
inductive QueueAnswer where
  /-- The flush's result and the end update's. -/
  | put (flushed : Except WriteError Unit) (updated : Except ReaderError Bool)
  | read (r : ReadResult) (hasData : Bool)
  /-- `TryReadOne` ran out of turns of its retry loop. -/
  | outOfFuel
  | confirm (err : Option ReaderError)
  /-- A repositioning's confirmed position and error. -/
  | moved (confirmed : Option DiskQueueEndInfo) (err : Option ReaderError)

/-- A queue opened on an empty directory: `NewDiskQueueWriter`, and a reader without metadata. -/
def Queue.new (maxBytesPerFile minMsgSize maxMsgSize : Int) (autoSkip : Bool) : Queue :=
  ⟨Disk.empty, newDiskQueueWriter maxBytesPerFile minMsgSize maxMsgSize, newDiskQueueReader none autoSkip⟩

/-- One call, with `fuel` turns for `TryReadOne`'s retry loop. -/
def queueStep (fuel : Nat) (q : Queue) : QueueCall → Queue × QueueAnswer
  | .put batch =>
    let w := putV2All q.disk q.writer batch
    let f := flush w.1 w.2
    let u := updateQueueEnd q.reader (getQueueReadEnd f.2.1) false
    (⟨f.1, f.2.1, u.1⟩, .put f.2.2 u.2)
  | .tryReadOne =>
    match tryReadOne fuel q.disk q.reader with
    | some (d, r, b) => ({ q with reader := d }, .read r b)
    | none => (q, .outOfFuel)
  | .confirmRead offset cnt =>
    let c := confirmRead q.disk q.reader offset cnt
    ({ q with reader := c.1 }, .confirm c.2)
  | .resetReadToConfirmed =>
    let c := resetReadToConfirmed q.disk q.reader
    ({ q with reader := c.1 }, .moved c.2.1 c.2.2)
  | .resetReadToOffset offset cnt =>
    let c := resetReadToOffset q.disk q.reader offset cnt
    ({ q with reader := c.1 }, .moved c.2.1 c.2.2)
  | .skipReadToOffset offset cnt =>
    let c := skipReadToOffset q.disk q.reader offset cnt
    ({ q with reader := c.1 }, .moved c.2.1 c.2.2)
  | .skipReadToEnd =>
    let c := skipReadToEnd q.disk q.reader
    ({ q with reader := c.1 }, .moved c.2.1 c.2.2)

/-- Calls in turn, with their answers. -/
def queueRun (fuel : Nat) (q : Queue) : List QueueCall → Queue × List QueueAnswer
  | [] => (q, [])
  | c :: cs =>
    ((queueRun fuel (queueStep fuel q c).1 cs).1,
      (queueStep fuel q c).2 :: (queueRun fuel (queueStep fuel q c).1 cs).2)

/-- The message a read answers: as `TryReadOne` reports it, if it has data. -/
def QueueAnswer.delivered : QueueAnswer → Option ReadResult
  | .read r true => some r
  | _ => none

/-! ## The two levels -/

/-- The queue call for an abstract call on the log `ds`: a target is named by its boundary's
offset and count, as the reads before it answered them; all is confirmed with offset `-1`. -/
def QueueCall.ofCall (ds : List (List UInt8)) : AckLog.Call (List UInt8) → QueueCall
  | .append batch => .put batch
  | .read => .tryReadOne
  | .confirm k => .confirmRead (frameOffset ds k) k
  | .confirmAll => .confirmRead (-1) 0
  | .rewind => .resetReadToConfirmed
  | .seek k => .resetReadToOffset (frameOffset ds k) k
  | .seekForward k => .skipReadToOffset (frameOffset ds k) k
  | .seekEnd => .skipReadToEnd

/-- The queue calls for abstract calls from `s`, each on the log of its moment. -/
def callsOf : AckLog.State (List UInt8) → List (AckLog.Call (List UInt8)) → List QueueCall
  | _, [] => []
  | s, c :: cs => QueueCall.ofCall s.log c :: callsOf (AckLog.step s c).1 cs

/-- The queue's answer is the abstract one over the log `ds`: a delivered entry is the message
read there, a move ends confirmed on the boundary moved to, and a refusal is the error the code
gives. -/
def Answers (maxBytesPerFile : Int) (ds : List (List UInt8)) :
    AckLog.Answer (List UInt8) → QueueAnswer → Prop
  | .entry i a, .read r hasData => ds[i]? = some a ∧ hasData = true ∧ r = messageAt ds i
  | .noData, .read r hasData => r = .empty ∧ hasData = false
  | .ok, .put flushed updated => flushed = .ok () ∧ ∃ changed, updated = .ok changed
  | .ok, .confirm err => err = none
  | .refused, .confirm err => err = some .confirmSizeInvalid
  | .moved k, .moved c err => err = none ∧ ∃ e, c = some e ∧ OnBoundary maxBytesPerFile ds k e
  | .refused, .moved _ err => err = some .moveOffsetInvalid
  | _, _ => False

/-- The queue in step with an abstract state: the disk holds the frame log of its messages,
flushed; the writer backs it, with its settings; and the reader is in a session on its read and
acknowledged indices. -/
structure QueueAt (maxBytesPerFile minMsgSize maxMsgSize : Int) (s : AckLog.State (List UInt8))
    (q : Queue) : Prop where
  backs : q.writer.Backs q.disk (empty.appendAll maxBytesPerFile s.log).files
  writeEnd : q.writer.diskWriteEnd = (empty.appendAll maxBytesPerFile s.log).last
  synced : q.writer.needSync = false
  clean : q.writer.Clean
  maxBytes : q.writer.maxBytesPerFile = maxBytesPerFile
  minSize : q.writer.minMsgSize = minMsgSize
  maxSize : q.writer.maxMsgSize = maxMsgSize
  running : q.writer.exitFlag = false
  sizes : ∀ data ∈ s.log, 0 < data.length ∧ (data.length : Int) ≤ maxPossibleMsgSize
  reader : SessionAt maxBytesPerFile s.log q.disk s.read s.confirmed q.reader

/-- What a call needs: a target on a boundary of the log, and payloads that the writer's size
checks and the reader's both admit. -/
def Admits (minMsgSize maxMsgSize : Int) (s : AckLog.State (List UInt8)) :
    AckLog.Call (List UInt8) → Prop
  | .append batch => ∀ data ∈ batch, minMsgSize ≤ data.length ∧ data.length ≤ maxMsgSize ∧
      0 < data.length ∧ (data.length : Int) ≤ maxPossibleMsgSize
  | .confirm k | .seek k | .seekForward k => k ≤ s.log.length
  | _ => True

instance (minMsgSize maxMsgSize : Int) (s : AckLog.State (List UInt8)) (c : AckLog.Call (List UInt8)) :
    Decidable (Admits minMsgSize maxMsgSize s c) := by
  cases c <;> unfold Admits <;> infer_instance

/-- Every call of a run admitted, each in the abstract state it is made in. -/
def RunAdmits (minMsgSize maxMsgSize : Int) :
    AckLog.State (List UInt8) → List (AckLog.Call (List UInt8)) → Prop
  | _, [] => True
  | s, c :: cs => Admits minMsgSize maxMsgSize s c ∧ RunAdmits minMsgSize maxMsgSize (AckLog.step s c).1 cs

instance decRunAdmits (minMsgSize maxMsgSize : Int) :
    ∀ s cs, Decidable (RunAdmits minMsgSize maxMsgSize s cs)
  | _, [] => isTrue trivial
  | s, c :: cs =>
    haveI := decRunAdmits minMsgSize maxMsgSize (AckLog.step s c).1 cs
    inferInstanceAs (Decidable (Admits minMsgSize maxMsgSize s c ∧
      RunAdmits minMsgSize maxMsgSize (AckLog.step s c).1 cs))

/-- One step of each level, in step: the answers agree over the log after it, and the queue is
in step with the abstract state after it. -/
def StepsWith (maxBytesPerFile minMsgSize maxMsgSize : Int)
    (p : AckLog.State (List UInt8) × AckLog.Answer (List UInt8)) (r : Queue × QueueAnswer) : Prop :=
  Answers maxBytesPerFile p.1.log p.2 r.2 ∧ QueueAt maxBytesPerFile minMsgSize maxMsgSize p.1 r.1

/-! ## The invariant -/

section Invariant

variable {maxBytesPerFile minMsgSize maxMsgSize : Int} {s : AckLog.State (List UInt8)} {q : Queue}

theorem messageAt_append (more : List (List UInt8)) {ds : List (List UInt8)} {i : Nat}
    (hi : i < ds.length) : messageAt (ds ++ more) i = messageAt ds i := by
  rw [messageAt, messageAt, frameOffset_append more hi.le, List.getD_append _ _ _ _ hi]

/-- An answer over a log is the same answer over the log with more appended. -/
theorem Answers.append {ds : List (List UInt8)} {a : AckLog.Answer (List UInt8)} {x : QueueAnswer}
    (h : Answers maxBytesPerFile ds a x) (more : List (List UInt8)) :
    Answers maxBytesPerFile (ds ++ more) a x := by
  cases a <;> cases x <;> simp only [Answers] at h ⊢
  case entry.read i a r b =>
    obtain ⟨hget, hb, hr⟩ := h
    have hi := (List.getElem?_eq_some_iff.mp hget).1
    exact ⟨by rw [List.getElem?_append_left hi]; exact hget, hb, by rw [hr, messageAt_append more hi]⟩
  case moved.moved k c err =>
    obtain ⟨herr, e, hc, he⟩ := h
    exact ⟨herr, e, hc, he.append more⟩
  all_goals exact h

/-- The disk holds the log: the writer has flushed it all. -/
theorem QueueAt.contents (hq : QueueAt maxBytesPerFile minMsgSize maxMsgSize s q) (f : Int) :
    q.disk.contents f = (empty.appendAll maxBytesPerFile s.log).files f :=
  hq.backs.contents_eq (hq.clean hq.synced).2 f

theorem QueueAt.present (hq : QueueAt maxBytesPerFile minMsgSize maxMsgSize s q) (f : Int)
    (hf : (empty.appendAll maxBytesPerFile s.log).files f ≠ []) : q.disk.dataFile f ≠ none :=
  hq.backs.present f hf

/-- A reader call: the writer and the disk stay, the reader moves within its session. -/
theorem QueueAt.withReader (hq : QueueAt maxBytesPerFile minMsgSize maxMsgSize s q)
    {s' : AckLog.State (List UInt8)} (hlog : s'.log = s.log) {d : DiskQueueReader}
    (hd : SessionAt maxBytesPerFile s.log q.disk s'.read s'.confirmed d) :
    QueueAt maxBytesPerFile minMsgSize maxMsgSize s' { q with reader := d } := by
  obtain ⟨log, read, confirmed, h₁, h₂⟩ := s'
  subst hlog
  exact ⟨hq.backs, hq.writeEnd, hq.synced, hq.clean, hq.maxBytes, hq.minSize, hq.maxSize,
    hq.running, hq.sizes, hd⟩

/-- The reader's counts are the abstract indices. -/
theorem QueueAt.read_cnt (hq : QueueAt maxBytesPerFile minMsgSize maxMsgSize s q) :
    q.reader.readQueueInfo.totalMsgCnt = s.read :=
  hq.reader.read.2.2.1

theorem QueueAt.confirmed_cnt (hq : QueueAt maxBytesPerFile minMsgSize maxMsgSize s q) :
    q.reader.confirmedQueueInfo.totalMsgCnt = s.confirmed :=
  hq.reader.confirmed.2.2.1

theorem QueueAt.confirmed_offset (hq : QueueAt maxBytesPerFile minMsgSize maxMsgSize s q) :
    q.reader.confirmedQueueInfo.virtualEnd = frameOffset s.log s.confirmed :=
  hq.reader.confirmed.2.1

end Invariant

/-! ## The writer's flush -/

/-- The buffer's flush, whether a file is open or not: the table stays backed, the buffer is
empty, and the write end and the settings stay. -/
theorem bufferWriterFlush_spec {disk : Disk} {w : DiskQueueWriter} {files : Int → List UInt8}
    (hb : w.Backs disk files) :
    (bufferWriterFlush disk w).2.Backs (bufferWriterFlush disk w).1 files ∧
      (bufferWriterFlush disk w).2.bufferWriter = [] ∧
      (bufferWriterFlush disk w).2.diskWriteEnd = w.diskWriteEnd ∧
      KeepsSettings w (bufferWriterFlush disk w).2 := by
  cases hw : w.writeFile with
  | none =>
    -- no file open, so nothing buffered
    have hbf : bufferWriterFlush disk w = (disk, w) := by simp [bufferWriterFlush, hw]
    rw [hbf]
    exact ⟨hb, hb.closed hw, rfl, .refl w⟩
  | some h =>
    have hb' := bufferWriterFlush_backs hb hw
    rw [bufferWriterFlush_of_open hw] at hb' ⊢
    exact ⟨hb', rfl, rfl, ⟨rfl, rfl, rfl, rfl, rfl⟩⟩

/-- `Flush` of a writer that backs a table, owes nothing it has not buffered and runs: it
succeeds, leaves everything on disk with no sync owed, and keeps the write end and the settings,
publishing the write end as the read end. -/
theorem flush_synced {disk : Disk} {w : DiskQueueWriter} {files : Int → List UInt8}
    (hb : w.Backs disk files) (hex : w.exitFlag = false) (hc : w.Clean) :
    (flush disk w).2.2 = .ok () ∧ (flush disk w).2.1.Backs (flush disk w).1 files ∧
      (flush disk w).2.1.needSync = false ∧ (flush disk w).2.1.Clean ∧
      (flush disk w).2.1.diskWriteEnd = w.diskWriteEnd ∧ KeepsSettings w (flush disk w).2.1 ∧
      (flush disk w).2.1.diskReadEnd = w.diskWriteEnd := by
  cases hns : w.needSync
  · -- nothing owed: the flush is a no-op
    have hf : flush disk w = (disk, w, .ok ()) := by simp [flush, hex, hns]
    rw [hf]
    exact ⟨rfl, hb, hns, hc, rfl, .refl w, (hc hns).1⟩
  · -- `sync`: the buffer's flush, then the write end published
    have hf : flush disk w = ((sync disk w).1, (sync disk w).2, .ok ()) := by simp [flush, hex, hns]
    obtain ⟨hb', hbuf, hend, hk⟩ := bufferWriterFlush_spec hb
    rw [hf]
    exact ⟨rfl, ⟨hb'.other, hb'.current, hb'.opened, hb'.closed, hb'.present⟩, rfl,
      fun _ => ⟨rfl, hbuf⟩, hend, hk, hend⟩

/-! ## One step -/

section Step

variable {maxBytesPerFile minMsgSize maxMsgSize : Int} {s : AckLog.State (List UInt8)} {q : Queue}

/-- A put: the writer appends the batch's frames and flushes, and the reader, told the new end,
keeps its session over the longer log. -/
theorem queueStep_append (fuel : Nat) (hq : QueueAt maxBytesPerFile minMsgSize maxMsgSize s q)
    {batch : List (List UInt8)} (hc : Admits minMsgSize maxMsgSize s (.append batch)) :
    StepsWith maxBytesPerFile minMsgSize maxMsgSize (AckLog.step s (.append batch))
      (queueStep fuel q (QueueCall.ofCall s.log (.append batch))) := by
  have hsizes : ∀ data ∈ batch, q.writer.minMsgSize ≤ data.length ∧
      data.length ≤ q.writer.maxMsgSize ∧ data.length < 2 ^ 31 - 4 := fun data hd => by
    obtain ⟨h₁, h₂, -, h₄⟩ := hc data hd
    simp only [maxPossibleMsgSize] at h₄
    exact ⟨hq.minSize ▸ h₁, hq.maxSize ▸ h₂, by omega⟩
  -- the writer: the batch's frames appended, then flushed
  obtain ⟨hb₁, hend₁, hc₁, hk₁⟩ := putV2All_backs maxBytesPerFile batch hq.backs hq.writeEnd
    (log_spec maxBytesPerFile s.log).1 hq.running hq.maxBytes (fun _ => (hq.clean hq.synced)) hsizes
  rw [← log_append] at hb₁ hend₁
  obtain ⟨hok, hb₂, hns₂, hc₂, hend₂, hk₂, hre₂⟩ := flush_synced hb₁ (hk₁.2.2.2.2.trans hq.running) hc₁
  have hcont₂ := hb₂.contents_eq (hc₂ hns₂).2
  -- the reader: told the writer's read end, the end of the longer log
  have hre : getQueueReadEnd (flush (putV2All q.disk q.writer batch).1
      (putV2All q.disk q.writer batch).2).2.1 =
      (empty.appendAll maxBytesPerFile (s.log ++ batch)).last := hre₂.trans hend₁
  have hgrow : ∀ f, q.disk.contents f <+:
      (flush (putV2All q.disk q.writer batch).1 (putV2All q.disk q.writer batch).2).1.contents f :=
    fun f => by
      rw [hq.contents f, hcont₂ f]
      exact files_prefix_append s.log batch f
  obtain ⟨d', changed, hupd, hs'⟩ := updateQueueEnd_session hq.reader batch hgrow
  simp only [AckLog.step, QueueCall.ofCall, queueStep, hre, hupd, hok]
  refine ⟨⟨rfl, changed, rfl⟩, hb₂, hend₂.trans hend₁, hns₂, hc₂, ?_, ?_, ?_, ?_, ?_, hs'⟩
  · exact hk₂.2.1.trans (hk₁.2.1.trans hq.maxBytes)
  · exact hk₂.2.2.1.trans (hk₁.2.2.1.trans hq.minSize)
  · exact hk₂.2.2.2.1.trans (hk₁.2.2.2.1.trans hq.maxSize)
  · exact hk₂.2.2.2.2.trans (hk₁.2.2.2.2.trans hq.running)
  · intro data hd
    rcases List.mem_append.mp hd with hd | hd
    · exact hq.sizes data hd
    · exact ⟨(hc data hd).2.2.1, (hc data hd).2.2.2⟩

/-- A read: the message at the read index, or no data at the end. -/
theorem queueStep_read (fuel : Nat) (hq : QueueAt maxBytesPerFile minMsgSize maxMsgSize s q) :
    StepsWith maxBytesPerFile minMsgSize maxMsgSize (AckLog.step s .read)
      (queueStep (fuel + 1) q (QueueCall.ofCall s.log .read)) := by
  simp only [AckLog.step, QueueCall.ofCall, queueStep]
  split_ifs with h
  · obtain ⟨d', hread, hs'⟩ := tryReadOne_session hq.contents hq.present hq.sizes hq.reader h fuel
    simp only [hread]
    exact ⟨⟨List.getElem?_eq_getElem h, rfl, rfl⟩, hq.withReader (by rfl) hs'⟩
  · have hi : s.read = s.log.length := le_antisymm s.read_le (not_lt.mp h)
    have hs := hq.reader
    rw [hi] at hs
    simp only [tryReadOne_session_end hs fuel]
    exact ⟨⟨rfl, rfl⟩, hq⟩

/-- A confirm to a boundary: nothing to do at or below confirmed, confirmed moved up to the read
position, refused past it. -/
theorem queueStep_confirm (fuel : Nat) (hq : QueueAt maxBytesPerFile minMsgSize maxMsgSize s q)
    {k : Nat} (hc : Admits minMsgSize maxMsgSize s (.confirm k)) :
    StepsWith maxBytesPerFile minMsgSize maxMsgSize (AckLog.step s (.confirm k))
      (queueStep (fuel + 1) q (QueueCall.ofCall s.log (.confirm k))) := by
  have hs := hq.reader
  simp only [AckLog.step, QueueCall.ofCall, queueStep, confirmRead, hs.running, Bool.false_eq_true,
    if_false]
  split_ifs with hkj hki
  · rw [internalConfirm_le hs hkj]
    exact ⟨rfl, hq⟩
  · obtain ⟨d', hconf, hs', -⟩ := internalConfirm_session hq.contents hq.present hs (by omega) hki
    rw [hconf]
    exact ⟨rfl, hq.withReader (by rfl) hs'⟩
  · rw [internalConfirm_past hs hc (by omega)]
    exact ⟨rfl, hq⟩

/-- `ConfirmRead(-1)`: everything read is confirmed. -/
theorem queueStep_confirmAll (fuel : Nat) (hq : QueueAt maxBytesPerFile minMsgSize maxMsgSize s q) :
    StepsWith maxBytesPerFile minMsgSize maxMsgSize (AckLog.step s .confirmAll)
      (queueStep (fuel + 1) q (QueueCall.ofCall s.log .confirmAll)) := by
  obtain ⟨d', hconf, hs', -⟩ := internalConfirm_all hq.reader 0
  simp only [AckLog.step, QueueCall.ofCall, queueStep, confirmRead, hq.reader.running,
    Bool.false_eq_true, if_false, hconf]
  exact ⟨rfl, hq.withReader (by rfl) hs'⟩

/-- `ResetReadToConfirmed`: the read position goes back to confirmed. -/
theorem queueStep_rewind (fuel : Nat) (hq : QueueAt maxBytesPerFile minMsgSize maxMsgSize s q) :
    StepsWith maxBytesPerFile minMsgSize maxMsgSize (AckLog.step s .rewind)
      (queueStep (fuel + 1) q (QueueCall.ofCall s.log .rewind)) := by
  obtain ⟨d', hr, hs'⟩ := resetReadToConfirmed_session hq.contents hq.present hq.reader
  simp only [AckLog.step, QueueCall.ofCall, queueStep, hr]
  exact ⟨⟨rfl, _, rfl, hs'.confirmed⟩, hq.withReader (by rfl) hs'⟩

/-- `ResetReadToOffset` to a boundary: both positions there, back or forward. -/
theorem queueStep_seek (fuel : Nat) (hq : QueueAt maxBytesPerFile minMsgSize maxMsgSize s q)
    {k : Nat} (hc : Admits minMsgSize maxMsgSize s (.seek k)) :
    StepsWith maxBytesPerFile minMsgSize maxMsgSize (AckLog.step s (.seek k))
      (queueStep (fuel + 1) q (QueueCall.ofCall s.log (.seek k))) := by
  obtain ⟨d', hr, hs'⟩ := resetReadToOffset_session hq.contents hq.present hq.reader hc
  simp only [AckLog.step, QueueCall.ofCall, queueStep, dif_pos (show k ≤ s.log.length from hc), hr]
  exact ⟨⟨rfl, _, rfl, hs'.confirmed⟩, hq.withReader (by rfl) hs'⟩

/-- `SkipReadToOffset` to a boundary: refused below confirmed, closing only the file; both
positions there otherwise. -/
theorem queueStep_seekForward (fuel : Nat) (hq : QueueAt maxBytesPerFile minMsgSize maxMsgSize s q)
    {k : Nat} (hc : Admits minMsgSize maxMsgSize s (.seekForward k)) :
    StepsWith maxBytesPerFile minMsgSize maxMsgSize (AckLog.step s (.seekForward k))
      (queueStep (fuel + 1) q (QueueCall.ofCall s.log (.seekForward k))) := by
  simp only [AckLog.step, QueueCall.ofCall, queueStep]
  by_cases hkj : k < s.confirmed
  · rw [if_pos hkj, skipReadToOffset_session_below hq.reader hkj]
    exact ⟨rfl, hq.withReader (by rfl) hq.reader.close⟩
  · obtain ⟨d', hr, hs'⟩ := skipReadToOffset_session hq.contents hq.present hq.reader hc
      (not_lt.mp hkj)
    rw [if_neg hkj, dif_pos (show k ≤ s.log.length from hc), hr]
    exact ⟨⟨rfl, _, rfl, hs'.confirmed⟩, hq.withReader (by rfl) hs'⟩

/-- `SkipReadToEnd`: both positions at the end. -/
theorem queueStep_seekEnd (fuel : Nat) (hq : QueueAt maxBytesPerFile minMsgSize maxMsgSize s q) :
    StepsWith maxBytesPerFile minMsgSize maxMsgSize (AckLog.step s .seekEnd)
      (queueStep (fuel + 1) q (QueueCall.ofCall s.log .seekEnd)) := by
  obtain ⟨d', hr, hs', -⟩ := skipReadToEnd_session hq.contents hq.present hq.reader
  simp only [AckLog.step, QueueCall.ofCall, queueStep, hr]
  exact ⟨⟨rfl, _, rfl, hs'.confirmed⟩, hq.withReader (by rfl) hs'⟩

/-- The step lemma: every admitted call, on either side, keeps the two levels in step. -/
theorem queueStep_refines (fuel : Nat) (hq : QueueAt maxBytesPerFile minMsgSize maxMsgSize s q)
    {c : AckLog.Call (List UInt8)} (hc : Admits minMsgSize maxMsgSize s c) :
    StepsWith maxBytesPerFile minMsgSize maxMsgSize (AckLog.step s c)
      (queueStep (fuel + 1) q (QueueCall.ofCall s.log c)) := by
  cases c with
  | append batch => exact queueStep_append (fuel + 1) hq hc
  | read => exact queueStep_read fuel hq
  | confirm k => exact queueStep_confirm fuel hq hc
  | confirmAll => exact queueStep_confirmAll fuel hq
  | rewind => exact queueStep_rewind fuel hq
  | seek k => exact queueStep_seek fuel hq hc
  | seekForward k => exact queueStep_seekForward fuel hq hc
  | seekEnd => exact queueStep_seekEnd fuel hq

end Step

/-! ## Runs -/

section Run

variable {maxBytesPerFile minMsgSize maxMsgSize : Int}

/-- The run lemma: from a queue in step with `s`, the run of the queue calls for admitted calls
`cs` answers as the abstract run does and ends in step with it. The induction is on the calls,
each step `queueStep_refines`; an answer over the log of its moment is one over the final log. -/
theorem queueRun_inStep (fuel : Nat) :
    ∀ {s : AckLog.State (List UInt8)} {q : Queue} {cs : List (AckLog.Call (List UInt8))},
      QueueAt maxBytesPerFile minMsgSize maxMsgSize s q → RunAdmits minMsgSize maxMsgSize s cs →
      List.Forall₂ (Answers maxBytesPerFile (AckLog.run s cs).1.log) (AckLog.run s cs).2
          (queueRun (fuel + 1) q (callsOf s cs)).2 ∧
        QueueAt maxBytesPerFile minMsgSize maxMsgSize (AckLog.run s cs).1
          (queueRun (fuel + 1) q (callsOf s cs)).1
  | _, _, [], hq, _ => ⟨.nil, hq⟩
  | s, q, c :: cs, hq, hcs => by
    obtain ⟨ha, hq'⟩ := queueStep_refines fuel hq hcs.1
    obtain ⟨hrest, hq''⟩ := queueRun_inStep fuel hq' hcs.2
    have ha' : Answers maxBytesPerFile (AckLog.run (AckLog.step s c).1 cs).1.log (AckLog.step s c).2
        (queueStep (fuel + 1) q (QueueCall.ofCall s.log c)).2 := by
      rw [AckLog.run_log]
      exact ha.append _
    exact ⟨.cons ha' hrest, hq''⟩

/-- A writer opened on an empty directory and a reader opened without metadata are in step with
the empty log. -/
theorem queueAt_new (maxBytesPerFile minMsgSize maxMsgSize : Int) (autoSkip : Bool) :
    QueueAt maxBytesPerFile minMsgSize maxMsgSize .empty
      (Queue.new maxBytesPerFile minMsgSize maxMsgSize autoSkip) := by
  have hat : AtBoundary maxBytesPerFile [] 0 DiskQueueEndInfo.zero :=
    ⟨le_refl _, rfl, rfl, ⟨le_refl _, le_refl _, le_refl _, by simp [empty, DiskQueueEndInfo.zero],
      by simp [startOf, frameOffset, DiskQueueEndInfo.zero]⟩, fun _ => rfl⟩
  exact ⟨Backs.of_contents (fun _ => rfl) (fun _ h => absurd rfl h) rfl rfl, rfl, rfl,
    fun _ => ⟨rfl, rfl⟩, rfl, rfl, rfl, rfl, by simp [AckLog.State.empty],
    ⟨rfl, hat, hat.onBoundary, le_refl _, bufferAt_closed rfl rfl, rfl⟩⟩

/-- What a queue answer delivers is what the abstract answer does, read from the log. -/
theorem Answers.delivered {ds : List (List UInt8)} {a : AckLog.Answer (List UInt8)}
    {x : QueueAnswer} (h : Answers maxBytesPerFile ds a x) :
    x.delivered = a.delivered.map (messageAt ds) := by
  cases a <;> cases x <;> simp only [Answers] at h
  case entry.read i a r b =>
    obtain ⟨-, rfl, rfl⟩ := h
    rfl
  case noData.read r b =>
    obtain ⟨rfl, rfl⟩ := h
    rfl
  all_goals rfl

/-- Only a read with data delivers. -/
theorem QueueAnswer.eq_read_of_delivered {x : QueueAnswer} {r : ReadResult}
    (h : x.delivered = some r) : x = .read r true := by
  cases x with
  | read r' b =>
    cases b with
    | false => simp [QueueAnswer.delivered] at h
    | true =>
      simp only [QueueAnswer.delivered, Option.some.injEq] at h
      rw [h]
  | put _ _ | outOfFuel | confirm _ | moved _ _ => simp [QueueAnswer.delivered] at h

theorem Answers.filterMap_delivered {ds : List (List UInt8)} :
    ∀ {as : List (AckLog.Answer (List UInt8))} {xs : List QueueAnswer},
      List.Forall₂ (Answers maxBytesPerFile ds) as xs →
      xs.filterMap QueueAnswer.delivered = (as.filterMap AckLog.Answer.delivered).map (messageAt ds)
  | [], [], .nil => rfl
  | a :: _, x :: _, .cons h hrest => by
    rw [List.filterMap_cons, List.filterMap_cons, h.delivered, Answers.filterMap_delivered hrest]
    cases a.delivered <;> rfl

end Run

/-! ## The queue is an acknowledged log -/

section Guarantees

variable {maxBytesPerFile minMsgSize maxMsgSize : Int}

/-- The refinement, from a newly opened queue: every run of admitted calls, the topic's puts
interleaved with the reader's calls, answers as the acknowledged log does (a read the message at
the read index with its offset, frame size and count, a refusal the error the code gives), and
ends with the queue in step with the log. -/
theorem queueRun_refines (maxBytesPerFile minMsgSize maxMsgSize : Int) (autoSkip : Bool) (fuel : Nat)
    (cs : List (AckLog.Call (List UInt8))) (hcs : RunAdmits minMsgSize maxMsgSize .empty cs) :
    List.Forall₂ (Answers maxBytesPerFile (AckLog.run .empty cs).1.log) (AckLog.run .empty cs).2
        (queueRun (fuel + 1) (Queue.new maxBytesPerFile minMsgSize maxMsgSize autoSkip)
          (callsOf .empty cs)).2 ∧
      QueueAt maxBytesPerFile minMsgSize maxMsgSize (AckLog.run .empty cs).1
        (queueRun (fuel + 1) (Queue.new maxBytesPerFile minMsgSize maxMsgSize autoSkip)
          (callsOf .empty cs)).1 :=
  queueRun_inStep fuel (queueAt_new maxBytesPerFile minMsgSize maxMsgSize autoSkip) hcs

/-- Files of 8 bytes: two messages put, the second closing file 0, both read, the first confirmed,
the read position reset to confirmed and the second read again, a third put and read, and all
confirmed. -/
theorem queueRun_refines_rolled :
    RunAdmits 1 1024 .empty [.append [[1], [2, 3]], .read, .read, .confirm 1, .rewind, .read,
      .append [[4]], .read, .read, .confirmAll] ∧
    List.Forall₂ (Answers 8 (AckLog.run .empty [.append [[1], [2, 3]], .read, .read, .confirm 1,
        .rewind, .read, .append [[4]], .read, .read, .confirmAll]).1.log)
        (AckLog.run .empty [.append [[1], [2, 3]], .read, .read, .confirm 1, .rewind, .read,
          .append [[4]], .read, .read, .confirmAll]).2
        (queueRun 1 (Queue.new 8 1 1024 false) (callsOf .empty [.append [[1], [2, 3]], .read, .read,
          .confirm 1, .rewind, .read, .append [[4]], .read, .read, .confirmAll])).2 ∧
      QueueAt 8 1 1024 (AckLog.run .empty [.append [[1], [2, 3]], .read, .read, .confirm 1, .rewind,
          .read, .append [[4]], .read, .read, .confirmAll]).1
        (queueRun 1 (Queue.new 8 1 1024 false) (callsOf .empty [.append [[1], [2, 3]], .read, .read,
          .confirm 1, .rewind, .read, .append [[4]], .read, .read, .confirmAll])).1 :=
  ⟨by decide, queueRun_refines 8 1 1024 false 0 _ (by decide)⟩

/-- At least once: without skips, a message confirmed during a run, at or past the reader's count
when the run began, was answered by a `TryReadOne` during the run, with its offset, frame size
and count. -/
theorem queueRun_delivers_confirmed (fuel : Nat) {s : AckLog.State (List UInt8)} {q : Queue}
    {cs : List (AckLog.Call (List UInt8))} (hq : QueueAt maxBytesPerFile minMsgSize maxMsgSize s q)
    (hcs : RunAdmits minMsgSize maxMsgSize s cs) (hskip : ∀ c ∈ cs, c.seeks = false) {k : Nat}
    (hk : q.reader.readQueueInfo.totalMsgCnt ≤ k)
    (hkc : (k : Int) < (queueRun (fuel + 1) q (callsOf s cs)).1.reader.confirmedQueueInfo.totalMsgCnt) :
    QueueAnswer.read (messageAt (s.log ++ (cs.map AckLog.Call.appended).flatten) k) true ∈
      (queueRun (fuel + 1) q (callsOf s cs)).2 := by
  obtain ⟨hans, hq'⟩ := queueRun_inStep fuel hq hcs
  rw [hq.read_cnt, Nat.cast_le] at hk
  rw [hq'.confirmed_cnt, Nat.cast_lt] at hkc
  obtain ⟨a, ha⟩ := AckLog.run_delivered_of_confirmed hskip hk hkc
  -- the abstract delivery of `k` is a queue answer delivering its message, and only a read does
  have hmem : messageAt (AckLog.run s cs).1.log k ∈
      (queueRun (fuel + 1) q (callsOf s cs)).2.filterMap QueueAnswer.delivered := by
    rw [Answers.filterMap_delivered hans]
    exact List.mem_map_of_mem (List.mem_filterMap.mpr ⟨_, ha, rfl⟩)
  obtain ⟨x, hx, hdel⟩ := List.mem_filterMap.mp hmem
  rw [← AckLog.run_log, ← QueueAnswer.eq_read_of_delivered hdel]
  exact hx

/-- Two messages in files of 8 bytes, both read and confirmed: the second was answered by a read. -/
theorem queueRun_delivers_confirmed_rolled :
    RunAdmits 1 1024 .empty [.append [[1], [2, 3]], .read, .read, .confirm 2] ∧
    (∀ c ∈ ([.append [[1], [2, 3]], .read, .read, .confirm 2] : List (AckLog.Call (List UInt8))),
      c.seeks = false) ∧
    (Queue.new 8 1 1024 false).reader.readQueueInfo.totalMsgCnt ≤ ((1 : Nat) : Int) ∧
    ((1 : Nat) : Int) < (queueRun 1 (Queue.new 8 1 1024 false)
      (callsOf .empty [.append [[1], [2, 3]], .read, .read, .confirm 2])).1.reader.confirmedQueueInfo.totalMsgCnt ∧
    QueueAnswer.read (messageAt (AckLog.State.empty.log ++
        (([.append [[1], [2, 3]], .read, .read, .confirm 2] : List (AckLog.Call (List UInt8))).map
          AckLog.Call.appended).flatten) 1) true ∈
      (queueRun 1 (Queue.new 8 1 1024 false)
        (callsOf .empty [.append [[1], [2, 3]], .read, .read, .confirm 2])).2 := by
  have hadm : RunAdmits 1 1024 .empty [.append [[1], [2, 3]], .read, .read, .confirm 2] := by decide
  have hskip : ∀ c ∈ ([.append [[1], [2, 3]], .read, .read, .confirm 2] :
      List (AckLog.Call (List UInt8))), c.seeks = false := by decide
  have hk : (Queue.new 8 1 1024 false).reader.readQueueInfo.totalMsgCnt ≤ ((1 : Nat) : Int) := by
    decide
  have hkc : ((1 : Nat) : Int) < (queueRun 1 (Queue.new 8 1 1024 false)
      (callsOf .empty [.append [[1], [2, 3]], .read, .read, .confirm 2])).1.reader.confirmedQueueInfo.totalMsgCnt :=
    lt_of_lt_of_eq (by decide) (queueRun_inStep 0 (queueAt_new 8 1 1024 false) hadm).2.confirmed_cnt.symm
  exact ⟨hadm, hskip, hk, hkc, queueRun_delivers_confirmed 0 (queueAt_new 8 1 1024 false) hadm hskip hk hkc⟩

/-- Without `ResetReadToOffset`, the confirmed count and offset never move back. -/
theorem queueRun_confirmed_mono (fuel : Nat) {s : AckLog.State (List UInt8)} {q : Queue}
    {cs : List (AckLog.Call (List UInt8))} (hq : QueueAt maxBytesPerFile minMsgSize maxMsgSize s q)
    (hcs : RunAdmits minMsgSize maxMsgSize s cs) (hback : ∀ c ∈ cs, c.seeksBack = false) :
    q.reader.confirmedQueueInfo.totalMsgCnt ≤
        (queueRun (fuel + 1) q (callsOf s cs)).1.reader.confirmedQueueInfo.totalMsgCnt ∧
      q.reader.confirmedQueueInfo.virtualEnd ≤
        (queueRun (fuel + 1) q (callsOf s cs)).1.reader.confirmedQueueInfo.virtualEnd := by
  obtain ⟨-, hq'⟩ := queueRun_inStep fuel hq hcs
  have hmono := AckLog.run_confirmed_mono (s := s) hback
  -- the final confirmed index lies in the final log, which extends the first
  have hj := Nat.le_trans (AckLog.run s cs).1.confirmed_le (AckLog.run s cs).1.read_le
  rw [AckLog.run_log] at hj
  rw [hq.confirmed_cnt, hq'.confirmed_cnt, hq.confirmed_offset, hq'.confirmed_offset, AckLog.run_log,
    ← frameOffset_append (cs.map AckLog.Call.appended).flatten (Nat.le_trans s.confirmed_le s.read_le)]
  exact ⟨Nat.cast_le.mpr hmono, frameOffset_le _ hmono hj⟩

/-- A confirm, a reset to confirmed, a skip forward and a confirm of all. -/
theorem queueRun_confirmed_mono_skip :
    RunAdmits 1 1024 .empty [.append [[1], [2, 3]], .read, .confirm 1, .rewind, .seekForward 2,
      .confirmAll] ∧
    (∀ c ∈ ([.append [[1], [2, 3]], .read, .confirm 1, .rewind, .seekForward 2, .confirmAll] :
      List (AckLog.Call (List UInt8))), c.seeksBack = false) ∧
    (Queue.new 8 1 1024 false).reader.confirmedQueueInfo.totalMsgCnt ≤
        (queueRun 1 (Queue.new 8 1 1024 false) (callsOf .empty [.append [[1], [2, 3]], .read,
          .confirm 1, .rewind, .seekForward 2, .confirmAll])).1.reader.confirmedQueueInfo.totalMsgCnt ∧
      (Queue.new 8 1 1024 false).reader.confirmedQueueInfo.virtualEnd ≤
        (queueRun 1 (Queue.new 8 1 1024 false) (callsOf .empty [.append [[1], [2, 3]], .read,
          .confirm 1, .rewind, .seekForward 2, .confirmAll])).1.reader.confirmedQueueInfo.virtualEnd :=
  ⟨by decide, by decide, queueRun_confirmed_mono 0 (queueAt_new 8 1 1024 false) (by decide) (by decide)⟩

/-- In order, each once: without skips and resets, the reads of a run answer the messages from
the reader's count on, one after the other, and the count ends past the last. -/
theorem queueRun_reads_in_order (fuel : Nat) {s : AckLog.State (List UInt8)} {q : Queue}
    {cs : List (AckLog.Call (List UInt8))} (hq : QueueAt maxBytesPerFile minMsgSize maxMsgSize s q)
    (hcs : RunAdmits minMsgSize maxMsgSize s cs) (hmoves : ∀ c ∈ cs, c.moves = false) :
    ∃ n, (queueRun (fuel + 1) q (callsOf s cs)).2.filterMap QueueAnswer.delivered =
        (List.range' s.read n).map (messageAt (s.log ++ (cs.map AckLog.Call.appended).flatten)) ∧
      (queueRun (fuel + 1) q (callsOf s cs)).1.reader.readQueueInfo.totalMsgCnt =
        q.reader.readQueueInfo.totalMsgCnt + n := by
  obtain ⟨hans, hq'⟩ := queueRun_inStep fuel hq hcs
  obtain ⟨n, hn, hr⟩ := AckLog.run_delivered_range' s hmoves
  refine ⟨n, ?_, ?_⟩
  · rw [Answers.filterMap_delivered hans, hn, AckLog.run_log]
  · rw [hq'.read_cnt, hq.read_cnt, hr, Nat.cast_add]

/-- Reads, a confirm, and a put between reads. -/
theorem queueRun_reads_in_order_interleaved :
    RunAdmits 1 1024 .empty [.append [[1], [2, 3]], .read, .confirm 1, .read, .append [[4]], .read,
      .read] ∧
    (∀ c ∈ ([.append [[1], [2, 3]], .read, .confirm 1, .read, .append [[4]], .read, .read] :
      List (AckLog.Call (List UInt8))), c.moves = false) ∧
    ∃ n, (queueRun 1 (Queue.new 8 1 1024 false) (callsOf .empty [.append [[1], [2, 3]], .read,
        .confirm 1, .read, .append [[4]], .read, .read])).2.filterMap QueueAnswer.delivered =
        (List.range' (AckLog.State.empty : AckLog.State (List UInt8)).read n).map (messageAt (AckLog.State.empty.log ++
          (([.append [[1], [2, 3]], .read, .confirm 1, .read, .append [[4]], .read, .read] :
            List (AckLog.Call (List UInt8))).map AckLog.Call.appended).flatten)) ∧
      (queueRun 1 (Queue.new 8 1 1024 false) (callsOf .empty [.append [[1], [2, 3]], .read,
        .confirm 1, .read, .append [[4]], .read, .read])).1.reader.readQueueInfo.totalMsgCnt =
        (Queue.new 8 1 1024 false).reader.readQueueInfo.totalMsgCnt + n :=
  ⟨by decide, by decide, queueRun_reads_in_order 0 (queueAt_new 8 1 1024 false) (by decide) (by decide)⟩

/-- Redelivery: after `ResetReadToConfirmed`, the reads of a run without skips and further resets
answer the messages from the confirmed count on, one after the other: what was read and not
confirmed is read again. -/
theorem queueRun_rewind_redelivers (fuel : Nat) {s : AckLog.State (List UInt8)} {q : Queue}
    {cs : List (AckLog.Call (List UInt8))} (hq : QueueAt maxBytesPerFile minMsgSize maxMsgSize s q)
    (hcs : RunAdmits minMsgSize maxMsgSize s (.rewind :: cs)) (hmoves : ∀ c ∈ cs, c.moves = false) :
    ∃ n, (queueRun (fuel + 1) q (callsOf s (.rewind :: cs))).2.filterMap QueueAnswer.delivered =
      (List.range' s.confirmed n).map (messageAt (s.log ++ (cs.map AckLog.Call.appended).flatten)) := by
  obtain ⟨hans, -⟩ := queueRun_inStep fuel hq hcs
  obtain ⟨n, hn, -⟩ := AckLog.run_delivered_range' (AckLog.step s .rewind).1 hmoves
  -- the reset itself delivers nothing; the calls after it deliver from confirmed on
  have hd : (AckLog.run s (.rewind :: cs)).2.filterMap AckLog.Answer.delivered =
      (AckLog.run (AckLog.step s .rewind).1 cs).2.filterMap AckLog.Answer.delivered := by
    rw [AckLog.run_cons, List.filterMap_cons]
    rfl
  refine ⟨n, ?_⟩
  rw [Answers.filterMap_delivered hans, hd, hn, AckLog.run_log]
  simp only [List.map_cons, List.flatten_cons, AckLog.Call.appended, List.nil_append]
  rfl

/-- Two messages read and the first confirmed; after the reset to confirmed, the second is read
again. -/
theorem queueRun_rewind_redelivers_second :
    QueueAt 8 1 1024 (AckLog.run .empty [.append [[1], [2, 3]], .read, .read, .confirm 1]).1
        (queueRun 1 (Queue.new 8 1 1024 false)
          (callsOf .empty [.append [[1], [2, 3]], .read, .read, .confirm 1])).1 ∧
    RunAdmits 1 1024 (AckLog.run .empty [.append [[1], [2, 3]], .read, .read, .confirm 1]).1
      [.rewind, .read, .read] ∧
    (∀ c ∈ ([.read, .read] : List (AckLog.Call (List UInt8))), c.moves = false) ∧
    ∃ n, (queueRun 1 (queueRun 1 (Queue.new 8 1 1024 false)
        (callsOf .empty [.append [[1], [2, 3]], .read, .read, .confirm 1])).1
        (callsOf (AckLog.run .empty [.append [[1], [2, 3]], .read, .read, .confirm 1]).1
          [.rewind, .read, .read])).2.filterMap QueueAnswer.delivered =
      (List.range' (AckLog.run .empty [.append [[1], [2, 3]], .read, .read, .confirm 1]).1.confirmed n).map
        (messageAt ((AckLog.run .empty [.append [[1], [2, 3]], .read, .read, .confirm 1]).1.log ++
          (([.read, .read] : List (AckLog.Call (List UInt8))).map AckLog.Call.appended).flatten)) := by
  have hq := (queueRun_inStep 0 (queueAt_new 8 1 1024 false)
    (show RunAdmits 1 1024 .empty [.append [[1], [2, 3]], .read, .read, .confirm 1] by decide)).2
  have hcs : RunAdmits 1 1024 (AckLog.run .empty [.append [[1], [2, 3]], .read, .read, .confirm 1]).1
      [.rewind, .read, .read] := by decide
  have hmoves : ∀ c ∈ ([.read, .read] : List (AckLog.Call (List UInt8))), c.moves = false := by decide
  exact ⟨hq, hcs, hmoves, queueRun_rewind_redelivers 0 hq hcs hmoves⟩

/-- Giving a read back, as `messagePump` does with a message older than the last it read: the next
read answers the same message again, unless the message's frame ended its file. Then the read
closed the file and moved to the next one, the give-back leaves the reader as it is, and the next
read answers the message after it. -/
theorem tryReadOne_resetLastReadOne (fuel : Nat) {s : AckLog.State (List UInt8)} {q : Queue}
    (hq : QueueAt maxBytesPerFile minMsgSize maxMsgSize s q) (hr : s.read < s.log.length) :
    ∃ d', tryReadOne (fuel + 1) q.disk q.reader = some (d', (messageAt s.log s.read), true) ∧
      (¬ (boundary maxBytesPerFile s.log s.read).endOffset.pos + ((s.log.getD s.read []).length + 4) ≥
          maxBytesPerFile →
        ∃ d₂, tryReadOne (fuel + 1) q.disk (resetLastReadOne d' (messageAt s.log s.read).offset ((messageAt s.log s.read).curCnt - 1) (messageAt s.log s.read).movedSize) = some (d₂, (messageAt s.log s.read), true)) ∧
      ((boundary maxBytesPerFile s.log s.read).endOffset.pos + ((s.log.getD s.read []).length + 4) ≥
          maxBytesPerFile →
        resetLastReadOne d' (messageAt s.log s.read).offset ((messageAt s.log s.read).curCnt - 1) (messageAt s.log s.read).movedSize = d' ∧
          (s.read + 1 < s.log.length →
            ∃ d₂, tryReadOne (fuel + 1) q.disk d' = some (d₂, messageAt s.log (s.read + 1), true))) := by
  obtain ⟨d', hone, hs', hback, hkeep⟩ :=
    readOne_resetLastReadOne hq.contents hq.present hq.sizes hq.reader hr
  refine ⟨d', tryReadOne_of_readOne fuel (hq.reader.queueEnd ▸ hq.reader.read.ahead hr) hone rfl,
    fun hroll => ?_, fun hroll => ⟨hkeep hroll, fun hnext => ?_⟩⟩
  · obtain ⟨d₂, hread, -⟩ := tryReadOne_session hq.contents hq.present hq.sizes (hback hroll) hr fuel
    exact ⟨d₂, hread⟩
  · obtain ⟨d₂, hread, -⟩ := tryReadOne_session hq.contents hq.present hq.sizes hs' hnext fuel
    exact ⟨d₂, hread⟩

/-- In files of 8 bytes the first message, of four bytes, fills its file: giving it back does
nothing, and the next read answers the second message. -/
theorem tryReadOne_resetLastReadOne_rolled :
    QueueAt 8 1 1024 (AckLog.run .empty [.append [[1, 2, 3, 4], [5]]]).1
      (queueRun 1 (Queue.new 8 1 1024 false) (callsOf .empty [.append [[1, 2, 3, 4], [5]]])).1 ∧
    (AckLog.run .empty [.append [[1, 2, 3, 4], [5]]]).1.read < (AckLog.run .empty [.append [[1, 2, 3, 4], [5]]]).1.log.length ∧
    ∃ d', tryReadOne 1 (queueRun 1 (Queue.new 8 1 1024 false) (callsOf .empty [.append [[1, 2, 3, 4], [5]]])).1.disk
        (queueRun 1 (Queue.new 8 1 1024 false) (callsOf .empty [.append [[1, 2, 3, 4], [5]]])).1.reader =
        some (d', messageAt [[1, 2, 3, 4], [5]] 0, true) ∧
      resetLastReadOne d' 0 0 8 = d' ∧
      ∃ d₂, tryReadOne 1 (queueRun 1 (Queue.new 8 1 1024 false) (callsOf .empty [.append [[1, 2, 3, 4], [5]]])).1.disk d' =
        some (d₂, messageAt [[1, 2, 3, 4], [5]] 1, true) := by
  have hq := (queueRun_inStep 0 (queueAt_new 8 1 1024 false)
    (show RunAdmits 1 1024 .empty [.append [[1, 2, 3, 4], [5]]] by decide)).2
  have hr : (AckLog.run .empty [.append [[1, 2, 3, 4], [5]]]).1.read <
      (AckLog.run .empty [.append [[1, 2, 3, 4], [5]]]).1.log.length := by decide
  obtain ⟨d', hread, -, hrolled⟩ := tryReadOne_resetLastReadOne 0 hq hr
  obtain ⟨hkeep, hnext⟩ := hrolled (by decide)
  obtain ⟨d₂, hread₂⟩ := hnext (by decide)
  exact ⟨hq, hr, d', hread, hkeep, d₂, hread₂⟩

end Guarantees

end Delivery

end Nsq
