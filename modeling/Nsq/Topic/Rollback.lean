import Nsq.Topic.Put
import Nsq.DiskQueue.ResetWrite

/-!
# A failed batch leaves the queue as it was

`PutMessagesNoLock` writes the messages of a batch one by one; at the first that fails (it comes
with an ID, it does not encode, or the writer's size check rejects it) it resets the writer to the
end it had before the batch. Over a writer that wrote `pre` from an empty directory
(`DiskQueueWriter.Wrote`), the batch then answers an error and leaves the writer backing the same
files with the same end, however many files the messages before the failing one rolled into
(`putMessagesNoLock_rolls_back`).

The messages that are written must encode to fewer than `2 ^ 31 - 4` bytes, so that the `int32`
sizes the writer computes from their length, the length itself and the frame's, do not wrap.
The last section runs a batch with a payload of `2 ^ 32` bytes to show what happens otherwise.

Each step is stated once: a `put` that succeeds extends what was written by one payload
(`put_wrote`), one that fails keeps it (`put_rejected_wrote`), and the reset to the `i`-th
boundary gives back the first `i` payloads (`resetBackendEndNoLock_wrote`); the batch is the loop
over them (`putMessagesLoop_rolls_back`).
-/

namespace Nsq

namespace Topic

open FrameLog DiskQueueWriter

variable {disk : Disk} {t : Topic} {ds : List (List UInt8)}

/-- What a publish leaves of a topic's settings: the ext flag and the writer's settings. -/
def Keeps (t t' : Topic) : Prop :=
  t'.isExt = t.isExt ∧ KeepsSettings t.backend t'.backend

theorem Keeps.refl (t : Topic) : Keeps t t := ⟨rfl, .refl _⟩

theorem Keeps.trans {t₁ t₂ t₃ : Topic} (h₁ : Keeps t₁ t₂) (h₂ : Keeps t₂ t₃) : Keeps t₁ t₃ :=
  ⟨h₂.1.trans h₁.1, h₁.2.trans h₂.2⟩

/-- A message the writer takes: it encodes, and its bytes pass the size check with lengths that
do not wrap as `int32`. -/
def Fits (w : DiskQueueWriter) (writeExt : Bool) (m : Codec.Message) : Prop :=
  (m.writeTo writeExt).2.2 = none ∧ w.minMsgSize ≤ (m.writeTo writeExt).2.1.length ∧
    ((m.writeTo writeExt).2.1.length : Int) ≤ w.maxMsgSize ∧
    (m.writeTo writeExt).2.1.length < 2 ^ 31 - 4

instance (w : DiskQueueWriter) (writeExt : Bool) (m : Codec.Message) :
    Decidable (Fits w writeExt m) := by
  unfold Fits
  infer_instance

/-- A message the batch stops at: it has an ID, it does not encode, or the writer's size check,
on the `int32` of its length, rejects it. -/
def Fails (w : DiskQueueWriter) (writeExt : Bool) (m : Codec.Message) : Prop :=
  m.id ≠ 0 ∨ (m.writeTo writeExt).2.2 ≠ none ∨
    int32 (m.writeTo writeExt).2.1.length < w.minMsgSize ∨
    int32 (m.writeTo writeExt).2.1.length > w.maxMsgSize

instance (w : DiskQueueWriter) (writeExt : Bool) (m : Codec.Message) :
    Decidable (Fails w writeExt m) := by
  unfold Fails
  infer_instance

theorem Fits.of_keeps {t t' : Topic} {m : Codec.Message} (hk : Keeps t t')
    (h : Fits t.backend t.isExt m) : Fits t'.backend t'.isExt m := by
  rw [Fits, hk.1, hk.2.2.2.1, hk.2.2.2.2.1]
  exact h

theorem Fails.of_keeps {t t' : Topic} {m : Codec.Message} (hk : Keeps t t')
    (h : Fails t.backend t.isExt m) : Fails t'.backend t'.isExt m := by
  rw [Fails, hk.1, hk.2.2.2.1, hk.2.2.2.2.1]
  exact h

/-! ## The steps -/

/-- With no size to check against, a message that encodes is written by `PutV2`. -/
theorem writeMessageToBackendWithCheck_encoded (disk : Disk) (bq : DiskQueueWriter)
    {writeExt : Bool} {msg : Codec.Message} (h : (msg.writeTo writeExt).2.2 = none) :
    writeMessageToBackendWithCheck disk bq writeExt msg 0 =
      ((putV2 disk bq (msg.writeTo writeExt).2.1).1, (putV2 disk bq (msg.writeTo writeExt).2.1).2.1,
        (msg.writeTo writeExt).1,
        (putV2 disk bq (msg.writeTo writeExt).2.1).2.2.mapError .write) := by
  simp only [writeMessageToBackendWithCheck, h, gt_iff_lt, lt_self_iff_false, false_and, if_false]

/-- Committing an end never moves the writer's end. -/
theorem flush_diskWriteEnd (disk : Disk) (t : Topic) :
    (flush disk t).2.1.backend.diskWriteEnd = t.backend.diskWriteEnd := by
  unfold flush
  split
  · rfl
  · exact DiskQueueWriter.flush_diskWriteEnd disk t.backend

theorem flushForChannels_diskWriteEnd (disk : Disk) (t : Topic) :
    (flushForChannels disk t).2.backend.diskWriteEnd = t.backend.diskWriteEnd := by
  unfold flushForChannels
  split
  · rfl
  split
  · exact flushBuffer_diskWriteEnd disk t.backend
  · rfl

theorem updateCommittedOffset_diskWriteEnd (disk : Disk) (t : Topic) (e : DiskQueueEndInfo) :
    (updateCommittedOffset disk t e).2.backend.diskWriteEnd = t.backend.diskWriteEnd := by
  unfold updateCommittedOffset
  dsimp only
  split
  · split
    · exact flush_diskWriteEnd disk _
    · rfl
  · exact flushForChannels_diskWriteEnd disk _


theorem flush_wrote (hw : Wrote disk t.backend ds) :
    ∃ disk' t' r, flush disk t = (disk', t', r) ∧ Wrote disk' t'.backend ds ∧ Keeps t t' := by
  cases hnf : t.needFlush
  · exact ⟨disk, t, .ok (), by simp [flush, hnf], hw, .refl t⟩
  · obtain ⟨disk', w', hfl, hw', hk, -⟩ := DiskQueueWriter.flush_wrote hw
    exact ⟨disk', { t with
      needFlush := false, lastSyncCnt := t.backend.diskWriteEnd.totalMsgCnt, backend := w' },
      .ok (), by simp [flush, hnf, hfl], hw', ⟨rfl, hk⟩⟩

theorem flushForChannels_wrote (hw : Wrote disk t.backend ds) :
    ∃ disk' t', flushForChannels disk t = (disk', t') ∧ Wrote disk' t'.backend ds ∧ Keeps t t' := by
  unfold flushForChannels
  split
  · exact ⟨disk, t, rfl, hw, .refl t⟩
  split
  · obtain ⟨hw', hk, -⟩ := flushBuffer_wrote hw
    exact ⟨_, _, rfl, hw', ⟨rfl, hk⟩⟩
  · exact ⟨disk, t, rfl, hw, .refl t⟩

/-- Committing an end flushes, lets the channels see the buffer, or does neither; each keeps what
was written. -/
theorem updateCommittedOffset_wrote (hw : Wrote disk t.backend ds) (e : DiskQueueEndInfo) :
    ∃ disk' t', updateCommittedOffset disk t e = (disk', t') ∧ Wrote disk' t'.backend ds ∧
      Keeps t t' := by
  have hw₁ : Wrote disk ({ t with committedOffset := some e } : Topic).backend ds := hw
  unfold updateCommittedOffset
  dsimp only
  split
  · split
    · obtain ⟨disk', t', r, hfl, hw', hk⟩ := flush_wrote hw₁
      exact ⟨disk', t', by rw [hfl], hw', hk⟩
    · exact ⟨disk, _, rfl, hw₁, .refl t⟩
  · obtain ⟨disk', t', hfl, hw', hk⟩ := flushForChannels_wrote hw₁
    exact ⟨disk', t', hfl, hw', hk⟩

/-- A message without an ID that the writer takes: `put` gives it the next ID and writes it,
which extends what was written by its bytes. -/
theorem put_wrote (hw : Wrote disk t.backend ds) {m : Codec.Message} (hid : m.id = 0)
    (hfit : Fits t.backend t.isExt m) :
    ∃ disk' t' data r, put disk t m 0 = (disk', t', .ok r) ∧ Wrote disk' t'.backend (ds ++ [data]) ∧
      Keeps t t' := by
  obtain ⟨hnone, hmin, hmax, hbig⟩ := hfit
  obtain ⟨herr, hlen⟩ := Codec.writeTo_setID m (t.defaultIDSeq + 1) t.isExt
  obtain ⟨disk₁, w₁, hput, hw₁, hk₁⟩ := putV2_wrote hw
    (show t.backend.minMsgSize ≤ (({ m with id := t.defaultIDSeq + 1 }.writeTo t.isExt).2.1.length : Int)
      by rw [hlen]; exact hmin) (by rw [hlen]; exact hmax) (by rw [hlen]; exact hbig)
  -- the encoder answers no error, the size is not checked, and `PutV2` writes the bytes
  have hwrite : writeMessageToBackendWithCheck disk t.backend t.isExt
      { m with id := t.defaultIDSeq + 1 } 0 =
      (disk₁, w₁, ({ m with id := t.defaultIDSeq + 1 }.writeTo t.isExt).1,
        .ok ((empty.appendAll t.backend.maxBytesPerFile ds).last.virtualEnd,
          ({ m with id := t.defaultIDSeq + 1 }.writeTo t.isExt).2.1.length + 4,
          (empty.appendAll t.backend.maxBytesPerFile
            (ds ++ [({ m with id := t.defaultIDSeq + 1 }.writeTo t.isExt).2.1])).last)) := by
    rw [writeMessageToBackendWithCheck_encoded _ _ (herr.trans hnone), hput]
    rfl
  let t₂ : Topic := { t with defaultIDSeq := t.defaultIDSeq + 1, backend := w₁, needFlush := true }
  have hw₂ : Wrote disk₁ t₂.backend (ds ++ [({ m with id := t.defaultIDSeq + 1 }.writeTo t.isExt).2.1]) :=
    hw₁
  have hk₂ : Keeps t t₂ := ⟨rfl, hk₁⟩
  simp only [put, hid, if_true, nextMsgID]
  rw [hwrite]
  dsimp only
  split
  · obtain ⟨disk₃, t₃, hc, hw₃, hk₃⟩ := updateCommittedOffset_wrote hw₂
      (empty.appendAll t.backend.maxBytesPerFile
        (ds ++ [({ m with id := t.defaultIDSeq + 1 }.writeTo t.isExt).2.1])).last
    exact ⟨disk₃, t₃, _, _, by rw [hc], hw₃, hk₂.trans hk₃⟩
  · exact ⟨disk₁, t₂, _, _, rfl, hw₂, hk₂⟩

/-- A message without an ID that does not encode, or that the size check rejects: `put` answers
an error and what was written stays. -/
theorem put_rejected_wrote (hw : Wrote disk t.backend ds) {m : Codec.Message} (hid : m.id = 0)
    (hfail : Fails t.backend t.isExt m) :
    ∃ disk' t' e, put disk t m 0 = (disk', t', .error e) ∧ Wrote disk' t'.backend ds ∧
      Keeps t t' := by
  obtain ⟨herr, hlen⟩ := Codec.writeTo_setID m (t.defaultIDSeq + 1) t.isExt
  have hfail' : (m.writeTo t.isExt).2.2 ≠ none ∨
      int32 (m.writeTo t.isExt).2.1.length < t.backend.minMsgSize ∨
      int32 (m.writeTo t.isExt).2.1.length > t.backend.maxMsgSize :=
    hfail.resolve_left (by rw [hid]; exact fun h => h rfl)
  simp only [put, hid, if_true, nextMsgID]
  cases hcodec : ({ m with id := t.defaultIDSeq + 1 }.writeTo t.isExt).2.2 with
  | some e =>
    -- the encoder fails: nothing reaches the writer
    have hwrite : writeMessageToBackendWithCheck disk t.backend t.isExt
        { m with id := t.defaultIDSeq + 1 } 0 =
        (disk, t.backend, ({ m with id := t.defaultIDSeq + 1 }.writeTo t.isExt).1,
          .error (.codec e)) := by
      simp only [writeMessageToBackendWithCheck, hcodec]
    rw [hwrite]
    exact ⟨disk, _, _, rfl, hw, ⟨rfl, .refl _⟩⟩
  | none =>
    -- the size check rejects the bytes: `PutV2` opens the file and writes nothing
    have hsize : int32 ({ m with id := t.defaultIDSeq + 1 }.writeTo t.isExt).2.1.length <
        t.backend.minMsgSize ∨
        int32 ({ m with id := t.defaultIDSeq + 1 }.writeTo t.isExt).2.1.length >
        t.backend.maxMsgSize := by
      rw [hlen]
      rcases hfail' with h | h
      · rw [← herr, hcodec] at h
        exact absurd rfl h
      · exact h
    obtain ⟨disk₁, w₁, hput, hw₁, hk₁⟩ := putV2_invalid_wrote hw hsize
    have hwrite : writeMessageToBackendWithCheck disk t.backend t.isExt
        { m with id := t.defaultIDSeq + 1 } 0 =
        (disk₁, w₁, ({ m with id := t.defaultIDSeq + 1 }.writeTo t.isExt).1,
          .error (.write (.invalidMessageWriteSize
            (int32 ({ m with id := t.defaultIDSeq + 1 }.writeTo t.isExt).2.1.length)
            t.backend.maxMsgSize))) := by
      rw [writeMessageToBackendWithCheck_encoded _ _ hcodec, hput]
      rfl
    rw [hwrite]
    exact ⟨disk₁, _, _, rfl, hw₁, ⟨rfl, hk₁⟩⟩

/-- `ResetBackendEndNoLock` to the end after the first `i` payloads, with fuel for the rename loop:
at the write end it does nothing, and before it the writer's reset gives back those payloads,
after which the commit keeps them. -/
theorem resetBackendEndNoLock_wrote (hw : Wrote disk t.backend ds) {i : Nat} (hi : i ≤ ds.length)
    {fuel : Nat} (hfuel : ds.length - i < fuel) :
    ∃ disk' t' e, resetBackendEndNoLock fuel disk t
        (boundary t.backend.maxBytesPerFile ds i).offset
        (boundary t.backend.maxBytesPerFile ds i).totalMsgCnt = some (disk', t', e) ∧
      Wrote disk' t'.backend (ds.take i) ∧ Keeps t t' := by
  rcases Nat.lt_or_ge i ds.length with hlt | hge
  · -- an earlier end: its count is not the write end's
    have hcnt : (boundary t.backend.maxBytesPerFile ds i).totalMsgCnt = i :=
      boundary_totalMsgCnt _ ds hi
    have hend : t.backend.getQueueWriteEnd.totalMsgCnt = ds.length := by
      rw [getQueueWriteEnd, hw.writeEnd, ← boundary_length, boundary_totalMsgCnt _ ds le_rfl]
    obtain ⟨disk₁, w₁, hreset, hw₁, hk₁⟩ := resetWriteEndV2_wrote hw hlt hfuel
    have hw₁' : Wrote disk₁ ({ t with backend := w₁ } : Topic).backend (ds.take i) := hw₁
    obtain ⟨disk₂, t₂, hc, hw₂, hk₂⟩ := updateCommittedOffset_wrote hw₁'
      (boundary t.backend.maxBytesPerFile ds i)
    refine ⟨disk₂, t₂, none, ?_, hw₂,
      (show Keeps t { t with backend := w₁ } from ⟨rfl, hk₁⟩).trans hk₂⟩
    rw [resetBackendEndNoLock, if_neg (by rw [hcnt, hend]; omega), hreset]
    simp only [Option.map_some, hc]
  · -- the write end itself: nothing to do
    have hlen : i = ds.length := le_antisymm hi hge
    subst hlen
    have hend : t.backend.getQueueWriteEnd = boundary t.backend.maxBytesPerFile ds ds.length := by
      rw [getQueueWriteEnd, hw.writeEnd, boundary_length]
    refine ⟨disk, t, none, ?_, by rw [List.take_length]; exact hw, .refl t⟩
    rw [resetBackendEndNoLock, hend, if_pos ⟨rfl, rfl⟩]

/-! ## The batch -/

/-- The end before the batch is the boundary after the payloads written before it, however many
the batch has written since. -/
theorem boundary_length_append (m : Int) (pre ws : List (List UInt8)) :
    boundary m (pre ++ ws) pre.length = (empty.appendAll m pre).last := by
  rw [boundary, List.take_left]

/-- The reset a failing message makes, to the end before the batch: it gives back what was written
before it. -/
theorem resetBackendEndNoLock_pre {pre ws : List (List UInt8)} (hw : Wrote disk t.backend (pre ++ ws))
    {fuel : Nat} (hfuel : ws.length < fuel) :
    ∃ disk' t' e, resetBackendEndNoLock fuel disk t
        (empty.appendAll t.backend.maxBytesPerFile pre).last.offset
        (empty.appendAll t.backend.maxBytesPerFile pre).last.totalMsgCnt = some (disk', t', e) ∧
      Wrote disk' t'.backend pre ∧ Keeps t t' := by
  have := resetBackendEndNoLock_wrote hw (i := pre.length) (by simp) (by simpa using hfuel)
  rwa [boundary_length_append, List.take_left] at this

/-- The loop from any point of the batch before its failing message: the messages left before it
are written, the failing one stops the loop with its error, and the reset gives back what was
written before the batch. The induction is on the messages before the failing one; each step is
`put_wrote`, and the failing one `put_rejected_wrote` or the ID check, then
`resetBackendEndNoLock_pre`. -/
theorem putMessagesLoop_rolls_back {pre : List (List UInt8)} {bad : Codec.Message}
    (rest : List Codec.Message) (fuel : Nat) :
    ∀ (good : List Codec.Message) (disk : Disk) (t : Topic) (acc : BatchAcc)
      (ws : List (List UInt8)), Wrote disk t.backend (pre ++ ws) →
      (∀ g ∈ good, g.id = 0 ∧ Fits t.backend t.isExt g) → Fails t.backend t.isExt bad →
      ws.length + good.length < fuel →
      ∃ disk' t' r, putMessagesLoop fuel (empty.appendAll t.backend.maxBytesPerFile pre).last
          disk t acc (good ++ bad :: rest) = some (disk', t', r) ∧
        r.err ≠ none ∧ Wrote disk' t'.backend pre ∧ Keeps t t'
  | [], disk, t, acc, ws, hw, _, hbad, hfuel => by
    rw [List.length_nil, Nat.add_zero] at hfuel
    by_cases hid : bad.id = 0
    · -- the put fails, and the reset follows it
      obtain ⟨disk₁, t₁, e₁, hput, hw₁, hk₁⟩ := put_rejected_wrote hw hid hbad
      obtain ⟨disk₂, t₂, e₂, hreset, hw₂, hk₂⟩ := resetBackendEndNoLock_pre hw₁ hfuel
      rw [hk₁.2.2.1] at hreset
      refine ⟨disk₂, t₂, ⟨acc.firstMsgID, acc.firstOffset, acc.batchBytes, acc.firstCnt,
        some acc.diskEnd, some e₁⟩, ?_, Option.some_ne_none _, hw₂, hk₁.trans hk₂⟩
      rw [List.nil_append, putMessagesLoop, if_neg (by rw [hid]; decide), hput]
      dsimp only
      rw [hreset]
      rfl
    · -- a message with an ID: the reset, and `ErrInvalidMessageID`
      obtain ⟨disk', t', e, hreset, hw', hk⟩ := resetBackendEndNoLock_pre hw hfuel
      refine ⟨disk', t', ⟨0, 0, 0, 0, none, some .invalidMessageID⟩, ?_, Option.some_ne_none _, hw',
        hk⟩
      rw [List.nil_append, putMessagesLoop, if_pos (UInt64.pos_iff_ne_zero.mpr hid), hreset]
      rfl
  | g :: good, disk, t, acc, ws, hw, hgood, hbad, hfuel => by
    obtain ⟨hid, hfit⟩ := hgood g (List.mem_cons_self ..)
    obtain ⟨disk₁, t₁, data, r, hput, hw₁, hk₁⟩ := put_wrote hw hid hfit
    rw [List.append_assoc] at hw₁
    obtain ⟨disk', t', res, hloop, herr, hw', hk⟩ := putMessagesLoop_rolls_back rest fuel good disk₁
      t₁ _ (ws ++ [data]) hw₁
      (fun g' hg' => ⟨(hgood g' (List.mem_cons_of_mem _ hg')).1,
        (hgood g' (List.mem_cons_of_mem _ hg')).2.of_keeps hk₁⟩)
      (hbad.of_keeps hk₁) (by simp only [List.length_append, List.length_cons, List.length_nil] at hfuel ⊢; omega)
    rw [hk₁.2.2.1] at hloop
    refine ⟨disk', t', res, ?_, herr, hw', hk₁.trans hk⟩
    rw [List.cons_append, putMessagesLoop, if_neg (by rw [hid]; decide), hput]
    exact hloop

/-- A batch whose messages before the failing one the writer takes, over a writer that wrote `pre`
from an empty directory: `PutMessagesNoLock` answers an error and leaves the writer's end, and the
files it backs, as they were, whatever files those messages rolled into. -/
theorem putMessagesNoLock_rolls_back {pre : List (List UInt8)} (hw : Wrote disk t.backend pre)
    (hrun : t.exitFlag = false) {good : List Codec.Message}
    (hgood : ∀ g ∈ good, g.id = 0 ∧ Fits t.backend t.isExt g) {bad : Codec.Message}
    (hbad : Fails t.backend t.isExt bad) (rest : List Codec.Message) {fuel : Nat}
    (hfuel : good.length < fuel) :
    ∃ disk' t' r, putMessagesNoLock fuel disk t (good ++ bad :: rest) = some (disk', t', r) ∧
      r.err ≠ none ∧ t'.backend.diskWriteEnd = t.backend.diskWriteEnd ∧
      Wrote disk' t'.backend pre := by
  obtain ⟨disk', t', r, hloop, herr, hw', hk⟩ := putMessagesLoop_rolls_back rest fuel good disk t
    BatchAcc.init [] (by rwa [List.append_nil]) hgood hbad (by simpa using hfuel)
  refine ⟨disk', t', r, ?_, herr, ?_, hw'⟩
  · rw [putMessagesNoLock, if_neg (by rw [hrun]; decide), getQueueWriteEnd, hw.writeEnd]
    exact hloop
  · rw [hw'.writeEnd, hw.writeEnd, hk.2.2.1]

/- One payload written into files of 30 bytes, then a batch of two one-byte messages, each of
which rolls into the next file, and a message that comes with an ID. -/
example :
    let r := putV2All Disk.empty (newDiskQueueWriter 30 0 100) [[1, 2]]
    let t : Topic := ⟨r.2, none, 0, 0, 0, false, false, false, 0, false, false⟩
    let g : Codec.Message := { Codec.Message.empty with body := [7] }
    let bad : Codec.Message := { Codec.Message.empty with id := 5 }
    Wrote r.1 t.backend [[1, 2]] ∧ t.exitFlag = false ∧
      (∀ m ∈ [g, g], m.id = 0 ∧ Fits t.backend t.isExt m) ∧ Fails t.backend t.isExt bad ∧
      [g, g].length < 3 ∧
      ∃ disk' t' res, putMessagesNoLock 3 r.1 t ([g, g] ++ [bad]) = some (disk', t', res) ∧
        res.err ≠ none ∧ t'.backend.diskWriteEnd = t.backend.diskWriteEnd ∧
        Wrote disk' t'.backend [[1, 2]] := by
  intro r t g bad
  have hw : Wrote r.1 t.backend [[1, 2]] :=
    (putV2All_wrote [[1, 2]] (wrote_newDiskQueueWriter 30 0 100) (by decide)).1
  have hgood : ∀ m ∈ [g, g], m.id = 0 ∧ Fits t.backend t.isExt m := by decide
  have hbad : Fails t.backend t.isExt bad := Or.inl (by decide)
  exact ⟨hw, rfl, hgood, hbad, by decide, putMessagesNoLock_rolls_back hw rfl hgood hbad [] (by decide)⟩

/-! ## A payload whose length wraps

The size checks of `writeOne` read the payload's length as an `int32`. A payload of `2 ^ 32`
bytes or more whose low bits pass them is written whole, while the write end moves on by the
wrapped size only; the walk back over the files takes each file's real size, so a later reset
lands past the end it was asked for. -/

/-- The reset to `6` bytes and one message of a writer that owes a sync, with its end `36` bytes
on at the start of file `1` while file `0` holds `2 ^ 32 + 36` bytes: the walk steps back into
file `0` and takes its size, and the reset cuts that file at `2 ^ 32 + 6`. -/
theorem resetWriteEndV2_wrapped {disk : Disk} {w : DiskQueueWriter} {files : Int → List UInt8}
    (hb : w.Backs disk files) (he : w.diskWriteEnd = ⟨⟨1, 0⟩, 36, 2⟩) (hns : w.needSync = true)
    (hst : w.diskQueueStart = .zero) (hfile : (files 0).length = 2 ^ 32 + 36)
    (habs : ∀ g, 1 < g → disk.dataFile g = none) :
    ∃ disk' w', resetWriteEndV2 2 disk w 6 1 = some (disk', w', ⟨⟨0, 2 ^ 32 + 6⟩, 6, 1⟩, none) ∧
      w'.diskWriteEnd = ⟨⟨0, 2 ^ 32 + 6⟩, 6, 1⟩ := by
  obtain ⟨hb₁, hbuf₁, he₁, -, -, -⟩ := sync_backs hb
  obtain ⟨disk₁, w₁, hsync⟩ : ∃ disk₁ w₁, sync disk w = (disk₁, w₁) := ⟨_, _, rfl⟩
  have hdisk₁ : disk₁ = (sync disk w).1 := by rw [hsync]
  rw [hsync] at hb₁ hbuf₁ he₁
  rw [he] at he₁
  -- the sync touched only the end's file, so nothing exists past file `1`
  have hd₁ : OnDisk disk₁ files 1 := by
    refine ⟨hb₁.contents_eq hbuf₁, hb₁.present, fun g hg => ?_⟩
    rw [hdisk₁, sync_dataFile disk hb.openAtEnd (by rw [he]; dsimp only; omega)]
    exact habs g hg
  -- the walk back from the end's file reads file `0`'s real size
  have hwalk : resetWalk disk₁ 6 36 1 0 = .ok (36, 0, 2 ^ 32 + 36) := by
    have hf0 : disk₁.dataFile (1 - 1) = some (files 0) :=
      hd₁.dataFile_eq (g := 0) (List.ne_nil_of_length_pos (by rw [hfile]; decide))
    rw [resetWalk_of_lt (by decide) (by decide) hf0, resetWalk_of_ge (by rw [hfile]; decide),
      hfile]
    rfl
  have ho₁ : ∀ h, w₁.writeFile = some h → h.fileNum = 1 ∧ h.cursor = (disk₁.contents 1).length := by
    intro h hh
    obtain ⟨hF, hc⟩ := hb₁.opened h hh
    rw [he₁] at hF
    dsimp only at hF
    rw [← hF]
    exact ⟨rfl, hc⟩
  obtain ⟨disk₂, hclose, hd₂⟩ := closeCurrentFile_onDisk hd₁ hbuf₁ ho₁
    (w := { w₁ with diskWriteEnd := ⟨⟨0, 2 ^ 32 + 6⟩, 6, 1⟩, diskReadEnd := ⟨⟨0, 2 ^ 32 + 6⟩, 6, 1⟩ })
  -- the truncate cuts file `0` at the wrapped position and finds no file `1` to move aside
  obtain ⟨disk₃, hren, -, -⟩ := renameFrom_spec 2
    (disk₂.setData 0 (truncateAt (disk₂.contents 0) (2 ^ 32 + 6 : Int).toNat)) 1 1
    (fun g h₁ h₂ => absurd h₂ (by omega))
    (fun g hg => by rw [Disk.setData_dataFile_of_ne _ _ (by omega)]; exact hd₂.absent g hg)
    (by decide) (by decide)
  refine ⟨disk₃, { w₁ with
    diskWriteEnd := ⟨⟨0, 2 ^ 32 + 6⟩, 6, 1⟩, diskReadEnd := ⟨⟨0, 2 ^ 32 + 6⟩, 6, 1⟩, writeFile := none },
    ?_, rfl⟩
  have hE : (2 : Int) ^ 32 + 36 - (36 - 6) = 2 ^ 32 + 6 := by norm_num
  rw [resetWriteEndV2, if_neg (by rw [hst]; decide), if_neg (by rw [he]; decide), if_pos hns,
    hsync]
  dsimp only
  rw [if_neg (by decide), he₁]
  dsimp only [DiskQueueEndInfo.offset]
  rw [hwalk]
  dsimp only
  rw [hE, hclose]
  dsimp only
  rw [truncateDiskQueueToWriteEnd_closed 2 disk₂ rfl (show (0 : Int) ≤ 2 ^ 32 + 6 by decide)]
  dsimp only
  rw [zero_add, hren]
  rfl

/-- The run behind `putMessagesNoLock_wrapped_size`, over any disk the first payload left. -/
theorem putMessagesNoLock_wraps {disk₀ : Disk} {w₀ : DiskQueueWriter} (hw : Wrote disk₀ w₀ [[1, 2]])
    (hm : w₀.maxBytesPerFile = 10) (hmin : w₀.minMsgSize = 0) (hmax : w₀.maxMsgSize = 100)
    {body : List UInt8} (hbody : body.length = 2 ^ 32) :
    let t : Topic := ⟨w₀, none, 0, 0, 0, false, false, false, 0, false, false⟩
    let huge : Codec.Message := { Codec.Message.empty with body := body }
    let bad : Codec.Message := { Codec.Message.empty with id := 5 }
    t.backend.diskWriteEnd = ⟨⟨0, 6⟩, 6, 1⟩ ∧
      (∃ disk₁ t₁ r₁, put disk₀ t huge 0 = (disk₁, t₁, .ok r₁)) ∧
      ∃ disk' t' res, putMessagesNoLock 2 disk₀ t [huge, bad] = some (disk', t', res) ∧
        res.err = some .invalidMessageID ∧ t'.backend.diskWriteEnd = ⟨⟨0, 2 ^ 32 + 6⟩, 6, 1⟩ := by
  intro t huge bad
  have hend : w₀.diskWriteEnd = ⟨⟨0, 6⟩, 6, 1⟩ := by
    rw [hw.writeEnd, hm]
    decide
  -- the message encodes to `2 ^ 32 + 26` bytes, which the size checks read as `26`
  have hcodec : ({ huge with id := 1 }.writeTo false).2.2 = none := by
    simp only [Codec.Message.writeTo, Codec.Message.internalWriteTo, Bool.false_and,
      Bool.false_eq_true, if_false]
  have hlen : ({ huge with id := 1 }.writeTo false).2.1.length = 2 ^ 32 + 26 := by
    simp only [Codec.Message.writeTo, Codec.Message.internalWriteTo, Bool.false_and,
      Bool.false_eq_true, if_false, List.append_nil, List.length_append, Codec.length_header,
      Codec.clampAttempts_eq]
    show 26 + body.length = _
    omega
  have hint : int32 ({ huge with id := 1 }.writeTo false).2.1.length = 26 := by
    rw [hlen]
    decide
  have hlow : w₀.minMsgSize ≤ int32 ({ huge with id := 1 }.writeTo false).2.1.length := by
    rw [hint, hmin]
    decide
  obtain ⟨disk₁, w₁, hone, hb₁, he₁, hk₁⟩ := writeOne_spec hw.backs (by rw [hend]; decide)
    (by rw [hend, hm]; decide) hlow (by rw [hint, hmax]; decide)
  have he₁' : w₁.diskWriteEnd = ⟨⟨1, 0⟩, 36, 2⟩ := by
    rw [he₁, hend, hint, hm]
    decide
  have hid : huge.id = 0 := rfl
  let W₁ : DiskQueueWriter := { w₁ with needSync := true }
  let t₁ : Topic := { t with defaultIDSeq := 1, backend := W₁, needFlush := true }
  have hput : put disk₀ t huge 0 = (disk₁, t₁, .ok (1, 6, 30, w₁.diskWriteEnd)) := by
    have hseq : t.defaultIDSeq + 1 = 1 := rfl
    have hext : t.isExt = false := rfl
    have hauto : ¬ t.autoCommit = 1 := show ¬ (0 : Int) = 1 by decide
    simp only [put, hid, if_true, nextMsgID, hseq, hext]
    rw [writeMessageToBackendWithCheck_encoded _ _ hcodec]
    simp only [putV2, show t.backend.exitFlag = false from hw.running, Bool.false_eq_true, if_false]
    rw [hone]
    have h30 : int32 (26 + 4) = 30 := by decide
    have hoff : w₀.diskWriteEnd.offset = 6 := by
      rw [hend]
      rfl
    simp only [hint, hauto, if_false, Except.map, Except.mapError, h30, hoff]
    rfl
  -- file `0` now holds the first frame and all of the new one, and nothing is past file `1`
  have hfile₀ : (appendFile (empty.appendAll w₀.maxBytesPerFile [[1, 2]]).files
      w₀.diskWriteEnd.endOffset.fileNum
      (BigEndian.encodeInt 4 (int32 ({ huge with id := 1 }.writeTo false).2.1.length) ++
        ({ huge with id := 1 }.writeTo false).2.1) 0).length = 2 ^ 32 + 36 := by
    have h6 : ((empty.appendAll 10 [[1, 2]]).files 0).length = 6 := by decide
    rw [show w₀.diskWriteEnd.endOffset.fileNum = 0 by rw [hend], appendFile_self,
      List.length_append, List.length_append, hm, h6, BigEndian.length_encodeInt, hlen]
    rfl
  have habs : ∀ g, 1 < g → disk₁.dataFile g = none := by
    intro g hg
    have hdisk₁ : disk₁ = (writeOne disk₀ w₀ ({ huge with id := 1 }.writeTo false).2.1 false 0).1 := by
      rw [hone]
    rw [hdisk₁, writeOne_dataFile disk₀ hw.backs.openAtEnd _ false 0 (by rw [hend]; dsimp only; omega)]
    exact hw.absent g (by rw [hend]; dsimp only; omega)
  obtain ⟨disk₄, w₄, hreset, he₄⟩ := resetWriteEndV2_wrapped (w := W₁) (hb₁.congr rfl rfl rfl) he₁'
    rfl (hk₁.1.trans hw.start) hfile₀ habs
  -- the topic commits the end the reset answers, which keeps the writer's end
  let r₅ := updateCommittedOffset disk₄ { t₁ with backend := w₄ } ⟨⟨0, 2 ^ 32 + 6⟩, 6, 1⟩
  have hback : resetBackendEndNoLock 2 disk₁ t₁ 6 1 = some (r₅.1, r₅.2, none) := by
    rw [resetBackendEndNoLock,
      if_neg (by rw [show t₁.backend.getQueueWriteEnd = _ from he₁']; decide), hreset]
    rfl
  refine ⟨hend, ⟨_, _, _, hput⟩, r₅.1, r₅.2, ⟨0, 0, 0, 0, none, some .invalidMessageID⟩, ?_, rfl,
    (updateCommittedOffset_diskWriteEnd _ _ _).trans he₄⟩
  rw [putMessagesNoLock, if_neg (show ¬ t.exitFlag = true from Bool.false_ne_true), putMessagesLoop,
    if_neg (show ¬ huge.id > 0 by rw [hid]; decide), hput]
  dsimp only
  rw [putMessagesLoop, if_pos (show bad.id > 0 by decide),
    show t.backend.getQueueWriteEnd = _ from hend]
  dsimp only [DiskQueueEndInfo.offset]
  rw [hback]
  rfl

/-- The queue of the wrapped write: files of `10` bytes, with the payload `[1, 2]` written. -/
def wrappedQueue : Disk × DiskQueueWriter :=
  putV2All Disk.empty (newDiskQueueWriter 10 0 100) [[1, 2]]

/-- A topic over `wrappedQueue`, not exiting. -/
def wrappedTopic : Topic := ⟨wrappedQueue.2, none, 0, 0, 0, false, false, false, 0, false, false⟩

/-- A message without an ID whose body is `2 ^ 32` zero bytes. -/
def hugeMessage : Codec.Message := { Codec.Message.empty with body := List.replicate (2 ^ 32) 0 }

/-- A payload of `2 ^ 32` bytes after one of two, in files of `10` bytes: the size check reads
its frame as `30` bytes, and once a message with an ID fails the batch, the walk back takes the
first file's real size and leaves the write end `2 ^ 32` bytes past where it was. -/
theorem putMessagesNoLock_wrapped_size :
    Wrote wrappedQueue.1 wrappedTopic.backend [[1, 2]] ∧
      wrappedTopic.backend.diskWriteEnd = ⟨⟨0, 6⟩, 6, 1⟩ ∧
      (∃ disk₁ t₁ r₁, put wrappedQueue.1 wrappedTopic hugeMessage 0 = (disk₁, t₁, .ok r₁)) ∧
      ∃ disk' t' res, putMessagesNoLock 2 wrappedQueue.1 wrappedTopic
          [hugeMessage, { Codec.Message.empty with id := 5 }] = some (disk', t', res) ∧
        res.err = some .invalidMessageID ∧ t'.backend.diskWriteEnd = ⟨⟨0, 2 ^ 32 + 6⟩, 6, 1⟩ := by
  obtain ⟨hw, hk⟩ := putV2All_wrote [[1, 2]] (wrote_newDiskQueueWriter 10 0 100) (by decide)
  exact ⟨hw, putMessagesNoLock_wraps hw hk.2.1 hk.2.2.1 hk.2.2.2.1 (List.length_replicate ..)⟩

end Topic

end Nsq
