import Nsq.Topic.Rollback

/-!
# A topic's writes for the cluster

A replicated write touches the topic three ways. The leader writes the message with
`PutMessageNoLock`, which takes only a message without an ID and gives it the next one. Each
replica writes the message the leader sent with `PutMessageOnReplica`: with the leader's ID, at
the offset the leader wrote it at, and with the leader's frame size, which `put` checks. A leader
that gives up a write takes its writer back over it with `RollbackNoLock`.

Over a queue that wrote `ds` (`DiskQueueWriter.Wrote`), a replica's write either answers an error
and leaves `ds`, or lands at the offset it was sent with and extends `ds` by the message's bytes
(`putMessageOnReplica_wrote`, for any frame size to check against). A queue that took the write
no longer ends at that offset (`wroteOnce_of_landed`), so the same write sent again is refused
(`putMessageOnReplica_refused`): `WroteOnce` is that state, and every later replica write keeps it
(`putMessageOnReplica_wroteOnce`). The leader's rollback of a write that did not roll into a
new file gives back what was written before it (`rollbackNoLock_wrote`).
-/

namespace Nsq

namespace Topic

open FrameLog DiskQueueWriter

/-- The errors `PutMessageOnReplica` answers: `ErrWriteOffsetMismatch`, and those of the topic. -/
inductive ReplicaError where
  /-- `ErrWriteOffsetMismatch`: `write offset mismatch`. -/
  | writeOffsetMismatch
  | topic (e : TopicError)
  deriving DecidableEq, Repr

/-- The message as `put` leaves it: with the ID it gives a message that has none, and as the
encoder leaves it. The leader sends this message to the replicas. -/
def putLeaves (t : Topic) (m : Codec.Message) : Codec.Message :=
  ((if m.id = 0 then { m with id := (t.nextMsgID).2 } else m).writeTo t.isExt).1

/-- `PutMessageNoLock`: a leader's write. It refuses a message that comes with an ID. -/
def putMessageNoLock (disk : Disk) (t : Topic) (m : Codec.Message) :
    Disk × Topic × Except TopicError (UInt64 × Int × Int × DiskQueueEndInfo) :=
  if t.exitFlag then (disk, t, .error .exiting)
  else if m.id > 0 then (disk, t, .error .invalidMessageID)
  else put disk t m 0

/-- `PutMessageOnReplica`: a replica's write of the leader's message, which must land at the
leader's `offset` and have the leader's frame size `checkSize`. It answers the write end. -/
def putMessageOnReplica (disk : Disk) (t : Topic) (m : Codec.Message) (offset checkSize : Int) :
    Disk × Topic × Except ReplicaError DiskQueueEndInfo :=
  if t.exitFlag then (disk, t, .error (.topic .exiting))
  else if t.backend.getQueueWriteEnd.offset ≠ offset then (disk, t, .error .writeOffsetMismatch)
  else
    match put disk t m checkSize with
    | (disk', t', .error e) => (disk', t', .error (.topic e))
    | (disk', t', .ok (_, _, _, dend)) => (disk', t', .ok dend)

/-- `RollbackNoLock`: `RollbackWriteV2` to `vend` over `diffCnt` messages, and commit the end it
answers. With `fuel` for the writer's truncation; the channels' ends are not modelled. -/
def rollbackNoLock (fuel : Nat) (disk : Disk) (t : Topic) (vend : Int) (diffCnt : Nat) :
    Option (Disk × Topic × Option WriteError) :=
  (rollbackWriteV2 fuel disk t.backend vend diffCnt).map fun (disk₁, bq, dend, err) =>
    let t₁ := { t with backend := bq }
    match err with
    | some e => (disk₁, t₁, some e)
    | none =>
      let (disk₂, t₂) := updateCommittedOffset disk₁ t₁ dend
      (disk₂, t₂, none)

/-! ## The message a write leaves -/

theorem clampAttempts_id (m : Codec.Message) : m.clampAttempts.id = m.id := by
  rw [Codec.clampAttempts_eq]

theorem writeTo_clampAttempts (m : Codec.Message) (ext : Bool) :
    m.clampAttempts.writeTo ext = m.writeTo ext := by
  have hidem : m.clampAttempts.clampAttempts = m.clampAttempts := by
    simp only [Codec.clampAttempts_eq]
    split <;> simp_all
  simp only [Codec.Message.writeTo, Codec.Message.internalWriteTo, hidem]

theorem writeTo_fst (m : Codec.Message) (ext : Bool) : (m.writeTo ext).1 = m.clampAttempts := by
  simp only [Codec.Message.writeTo, Codec.Message.internalWriteTo]
  split <;> rfl

/-- The leader's message carries the ID `put` gave it. -/
theorem putLeaves_of_id_eq_zero (t : Topic) {m : Codec.Message} (hid : m.id = 0) :
    putLeaves t m = { m with id := t.defaultIDSeq + 1 }.clampAttempts := by
  simp only [putLeaves, hid, if_true, nextMsgID, writeTo_fst]

/-- It encodes to bytes of the same length, with the same outcome, as the message the caller
gave, whichever way it is written. -/
theorem putLeaves_writeTo (t : Topic) {m : Codec.Message} (hid : m.id = 0) (ext : Bool) :
    ((putLeaves t m).writeTo ext).2.2 = (m.writeTo ext).2.2 ∧
      ((putLeaves t m).writeTo ext).2.1.length = (m.writeTo ext).2.1.length := by
  rw [putLeaves_of_id_eq_zero t hid, writeTo_clampAttempts]
  exact Codec.writeTo_setID m _ ext

/-- A leader's write that succeeds took a message without an ID, and answers the ID of the
message it leaves, the one it sends to the replicas. -/
theorem putMessageNoLock_id {disk disk' : Disk} {t t' : Topic} {m : Codec.Message} {id : UInt64}
    {offset writeBytes : Int} {qe : DiskQueueEndInfo}
    (h : putMessageNoLock disk t m = (disk', t', .ok (id, offset, writeBytes, qe))) :
    m.id = 0 ∧ id = (putLeaves t m).id := by
  unfold putMessageNoLock at h
  split at h
  · cases h
  split at h
  · cases h
  rename_i hpos
  -- `PutMessageNoLock` only writes a message without an ID
  have hid : m.id = 0 := by
    simp only [gt_iff_lt, UInt64.lt_iff_toNat_lt, UInt64.toNat_zero, Nat.not_lt,
      Nat.le_zero] at hpos
    exact UInt64.toNat_inj.mp hpos
  refine ⟨hid, ?_⟩
  rw [putLeaves_of_id_eq_zero t hid, clampAttempts_id]
  simp only [put, hid, if_true] at h
  split at h
  · cases h
  · simp only [Prod.mk.injEq, Except.ok.injEq] at h
    rw [← h.2.2.1]
    rfl

/-! ## The checked `put` -/

variable {disk : Disk} {t : Topic} {ds : List (List UInt8)}

/-- With the frame's own size to check against, a message that encodes is written by `PutV2`. -/
theorem writeMessageToBackendWithCheck_sized (disk : Disk) (bq : DiskQueueWriter)
    {writeExt : Bool} {msg : Codec.Message} (h : (msg.writeTo writeExt).2.2 = none) :
    writeMessageToBackendWithCheck disk bq writeExt msg ((msg.writeTo writeExt).2.1.length + 4) =
      ((putV2 disk bq (msg.writeTo writeExt).2.1).1, (putV2 disk bq (msg.writeTo writeExt).2.1).2.1,
        (msg.writeTo writeExt).1,
        (putV2 disk bq (msg.writeTo writeExt).2.1).2.2.mapError .write) := by
  simp only [writeMessageToBackendWithCheck, h, ne_eq, not_true_eq_false, and_false, if_false]

/-- Against another positive size, nothing is written. -/
theorem writeMessageToBackendWithCheck_mismatch (disk : Disk) (bq : DiskQueueWriter)
    {writeExt : Bool} {msg : Codec.Message} {checkSize : Int} (h : (msg.writeTo writeExt).2.2 = none)
    (hpos : checkSize > 0) (hne : ((msg.writeTo writeExt).2.1.length : Int) + 4 ≠ checkSize) :
    writeMessageToBackendWithCheck disk bq writeExt msg checkSize =
      (disk, bq, (msg.writeTo writeExt).1,
        .error (.messageWriteSizeMismatch checkSize ((msg.writeTo writeExt).2.1.length + 4))) := by
  simp only [writeMessageToBackendWithCheck, h, hpos, hne, ne_eq, not_false_eq_true, and_self,
    if_true]

/-- A size to check against that is not positive is not checked: it writes as the frame's own. -/
theorem writeMessageToBackendWithCheck_nonpos (disk : Disk) (bq : DiskQueueWriter)
    (writeExt : Bool) (msg : Codec.Message) {checkSize : Int} (h : checkSize ≤ 0) :
    writeMessageToBackendWithCheck disk bq writeExt msg checkSize =
      writeMessageToBackendWithCheck disk bq writeExt msg ((msg.writeTo writeExt).2.1.length + 4) := by
  unfold writeMessageToBackendWithCheck
  rcases msg.writeTo writeExt with ⟨msg', bytes, _ | e⟩
  · dsimp only
    rw [if_neg (fun h' => absurd h'.1 (by omega)), if_neg (fun h' => h'.2 rfl)]
  · rfl

/-- For a message with an ID, `put` against a size that is not positive is `put` against the
frame's own size. -/
theorem put_nonpos {m : Codec.Message} (hid : m.id ≠ 0) {checkSize : Int} (h : checkSize ≤ 0) :
    put disk t m checkSize = put disk t m ((m.writeTo t.isExt).2.1.length + 4) := by
  simp only [put, hid, if_false]
  rw [writeMessageToBackendWithCheck_nonpos _ _ _ _ h]

/-- A message with an ID that the writer takes, checked against its own frame size: `put`
writes it as it is. -/
theorem put_checked_wrote (hw : Wrote disk t.backend ds) {m : Codec.Message} (hid : m.id ≠ 0)
    (hfit : Fits t.backend t.isExt m) :
    ∃ disk' t' r, put disk t m ((m.writeTo t.isExt).2.1.length + 4) = (disk', t', .ok r) ∧
      Wrote disk' t'.backend (ds ++ [(m.writeTo t.isExt).2.1]) ∧ Keeps t t' := by
  obtain ⟨hnone, hmin, hmax, hbig⟩ := hfit
  obtain ⟨disk₁, w₁, hput, hw₁, hk₁⟩ := putV2_wrote hw hmin hmax hbig
  -- the encoder answers no error, the frame has the size checked against, and `PutV2` writes
  -- the bytes
  have hwrite : writeMessageToBackendWithCheck disk t.backend t.isExt m
      ((m.writeTo t.isExt).2.1.length + 4) =
      (disk₁, w₁, (m.writeTo t.isExt).1,
        .ok ((empty.appendAll t.backend.maxBytesPerFile ds).last.virtualEnd,
          (m.writeTo t.isExt).2.1.length + 4,
          (empty.appendAll t.backend.maxBytesPerFile (ds ++ [(m.writeTo t.isExt).2.1])).last)) := by
    rw [writeMessageToBackendWithCheck_sized _ _ hnone, hput]
    rfl
  let t₂ : Topic := { t with backend := w₁, needFlush := true }
  have hw₂ : Wrote disk₁ t₂.backend (ds ++ [(m.writeTo t.isExt).2.1]) := hw₁
  have hk₂ : Keeps t t₂ := ⟨rfl, hk₁⟩
  simp only [put, hid, if_false]
  rw [hwrite]
  dsimp only
  split
  · obtain ⟨disk₃, t₃, hc, hw₃, hk₃⟩ := updateCommittedOffset_wrote hw₂
      (empty.appendAll t.backend.maxBytesPerFile (ds ++ [(m.writeTo t.isExt).2.1])).last
    exact ⟨disk₃, t₃, _, by rw [hc], hw₃, hk₂.trans hk₃⟩
  · exact ⟨disk₁, t₂, _, rfl, hw₂, hk₂⟩

/-- A message with an ID that does not encode, has another frame size than the one checked
against, or that the writer's size check rejects: `put` answers an error and what was written
stays. -/
theorem put_checked_rejected (hw : Wrote disk t.backend ds) {m : Codec.Message} (hid : m.id ≠ 0)
    {checkSize : Int} (hpos : checkSize > 0)
    (hfail : (m.writeTo t.isExt).2.2 ≠ none ∨
      ((m.writeTo t.isExt).2.1.length : Int) + 4 ≠ checkSize ∨
      int32 (m.writeTo t.isExt).2.1.length < t.backend.minMsgSize ∨
      int32 (m.writeTo t.isExt).2.1.length > t.backend.maxMsgSize) :
    ∃ disk' t' e, put disk t m checkSize = (disk', t', .error e) ∧ Wrote disk' t'.backend ds ∧
      Keeps t t' := by
  simp only [put, hid, if_false]
  cases hcodec : (m.writeTo t.isExt).2.2 with
  | some e =>
    -- the encoder fails: nothing reaches the writer
    have hwrite : writeMessageToBackendWithCheck disk t.backend t.isExt m checkSize =
        (disk, t.backend, (m.writeTo t.isExt).1, .error (.codec e)) := by
      simp only [writeMessageToBackendWithCheck, hcodec]
    rw [hwrite]
    exact ⟨disk, _, _, rfl, hw, ⟨rfl, .refl _⟩⟩
  | none =>
    by_cases hsz : ((m.writeTo t.isExt).2.1.length : Int) + 4 = checkSize
    · -- the size matches: the writer's own check rejects the bytes
      have hsize : int32 (m.writeTo t.isExt).2.1.length < t.backend.minMsgSize ∨
          int32 (m.writeTo t.isExt).2.1.length > t.backend.maxMsgSize := by
        rcases hfail with h | h | h
        · exact absurd hcodec h
        · exact absurd hsz h
        · exact h
      obtain ⟨disk₁, w₁, hput, hw₁, hk₁⟩ := putV2_invalid_wrote hw hsize
      rw [← hsz, writeMessageToBackendWithCheck_sized _ _ hcodec, hput]
      exact ⟨disk₁, _, _, rfl, hw₁, ⟨rfl, hk₁⟩⟩
    · -- the size does not match: nothing reaches the writer
      rw [writeMessageToBackendWithCheck_mismatch _ _ hcodec hpos hsz]
      exact ⟨disk, _, _, rfl, hw, ⟨rfl, .refl _⟩⟩

/-! ## A replica's write -/

/-- A message the writer takes, or one it rejects, as far as the `int32` sizes are exact. -/
theorem fits_or_rejected (w : DiskQueueWriter) (ext : Bool) (m : Codec.Message) {checkSize : Int}
    (hbig : (m.writeTo ext).2.1.length < 2 ^ 31 - 4) :
    (Fits w ext m ∧ ((m.writeTo ext).2.1.length : Int) + 4 = checkSize) ∨
      ((m.writeTo ext).2.2 ≠ none ∨ ((m.writeTo ext).2.1.length : Int) + 4 ≠ checkSize ∨
        int32 (m.writeTo ext).2.1.length < w.minMsgSize ∨
        int32 (m.writeTo ext).2.1.length > w.maxMsgSize) := by
  have hexact : int32 (m.writeTo ext).2.1.length = (m.writeTo ext).2.1.length :=
    int32_of_lt (by omega) (by omega)
  by_cases hfit : Fits w ext m
  · by_cases hsz : ((m.writeTo ext).2.1.length : Int) + 4 = checkSize
    · exact Or.inl ⟨hfit, hsz⟩
    · exact Or.inr (Or.inr (Or.inl hsz))
  · -- not taken: it does not encode, or its length is out of the writer's bounds
    right
    rw [hexact]
    by_cases hcodec : (m.writeTo ext).2.2 = none
    · by_cases hmin : w.minMsgSize ≤ ((m.writeTo ext).2.1.length : Int)
      · by_cases hmax : ((m.writeTo ext).2.1.length : Int) ≤ w.maxMsgSize
        · exact absurd ⟨hcodec, hmin, hmax, hbig⟩ hfit
        · exact Or.inr (Or.inr (Or.inr (by omega)))
      · exact Or.inr (Or.inr (Or.inl (by omega)))
    · exact Or.inl hcodec

/-- A replica's write of a message with an ID, to a queue that wrote `ds`, with an encoding
short enough for the `int32` sizes, checked against a positive size: it answers an error and
leaves `ds`, or the queue ended at the leader's offset and now holds the message's bytes after
`ds`. -/
theorem putMessageOnReplica_wrote_of_pos (hw : Wrote disk t.backend ds) {m : Codec.Message}
    (hid : m.id ≠ 0) (hbig : (m.writeTo t.isExt).2.1.length < 2 ^ 31 - 4) {offset checkSize : Int}
    (hpos : checkSize > 0) :
    ∃ disk' t' r, putMessageOnReplica disk t m offset checkSize = (disk', t', r) ∧ Keeps t t' ∧
      ((∃ e, r = .error e) ∧ Wrote disk' t'.backend ds ∨
        t.backend.diskWriteEnd.offset = offset ∧ (∃ e, r = .ok e) ∧
          Wrote disk' t'.backend (ds ++ [(m.writeTo t.isExt).2.1])) := by
  unfold putMessageOnReplica
  split
  · exact ⟨disk, t, _, rfl, .refl t, Or.inl ⟨⟨_, rfl⟩, hw⟩⟩
  split
  · exact ⟨disk, t, _, rfl, .refl t, Or.inl ⟨⟨_, rfl⟩, hw⟩⟩
  rename_i hoff
  have hend : t.backend.diskWriteEnd.offset = offset := not_not.mp hoff
  rcases @fits_or_rejected t.backend t.isExt m checkSize hbig with ⟨hfit, hsz⟩ | hfail
  · obtain ⟨disk', t', r, hput, hw', hk⟩ := put_checked_wrote hw hid hfit
    rw [← hsz, hput]
    exact ⟨disk', t', _, rfl, hk, Or.inr ⟨hend, ⟨_, rfl⟩, hw'⟩⟩
  · obtain ⟨disk', t', e, hput, hw', hk⟩ := put_checked_rejected hw hid hpos hfail
    rw [hput]
    exact ⟨disk', t', _, rfl, hk, Or.inl ⟨⟨_, rfl⟩, hw'⟩⟩

/-- The same for any size to check against: one that is not positive is not checked. -/
theorem putMessageOnReplica_wrote (hw : Wrote disk t.backend ds) {m : Codec.Message}
    (hid : m.id ≠ 0) (hbig : (m.writeTo t.isExt).2.1.length < 2 ^ 31 - 4) (offset checkSize : Int) :
    ∃ disk' t' r, putMessageOnReplica disk t m offset checkSize = (disk', t', r) ∧ Keeps t t' ∧
      ((∃ e, r = .error e) ∧ Wrote disk' t'.backend ds ∨
        t.backend.diskWriteEnd.offset = offset ∧ (∃ e, r = .ok e) ∧
          Wrote disk' t'.backend (ds ++ [(m.writeTo t.isExt).2.1])) := by
  by_cases hpos : checkSize > 0
  · exact putMessageOnReplica_wrote_of_pos hw hid hbig hpos
  -- not checked: the write is the one against the frame's own size
  have heq : putMessageOnReplica disk t m offset checkSize =
      putMessageOnReplica disk t m offset ((m.writeTo t.isExt).2.1.length + 4) := by
    unfold putMessageOnReplica
    rw [put_nonpos hid (by omega)]
  rw [heq]
  exact putMessageOnReplica_wrote_of_pos hw hid hbig (by omega)

/-- A replica's queue after a write sent at `offset`: it holds `ds`, or it holds one message
more and no longer ends at `offset`, so that the same write is refused. -/
def WroteOnce (disk : Disk) (t : Topic) (ds : List (List UInt8)) (offset : Int) : Prop :=
  Wrote disk t.backend ds ∨
    ∃ d, Wrote disk t.backend (ds ++ [d]) ∧ t.backend.diskWriteEnd.offset ≠ offset

/-- The queue's end after one more message is past the end before it. -/
theorem wrote_concat_offset {w : DiskQueueWriter} {d : List UInt8}
    (hw : Wrote disk w (ds ++ [d])) :
    w.diskWriteEnd.offset = (empty.appendAll w.maxBytesPerFile ds).last.offset + (d.length + 4) := by
  rw [hw.writeEnd, appendAll_concat, append_last]
  exact afterFrame_virtualEnd _ _ _

/-- A queue that wrote `ds` and took one message at its end, `offset`, no longer ends there. -/
theorem wroteOnce_of_landed {offset : Int} (hw : Wrote disk t.backend ds)
    (hend : t.backend.diskWriteEnd.offset = offset) {disk' : Disk} {t' : Topic} {d : List UInt8}
    (hw' : Wrote disk' t'.backend (ds ++ [d])) (hk : Keeps t t') : WroteOnce disk' t' ds offset := by
  refine Or.inr ⟨d, hw', ?_⟩
  have hafter := wrote_concat_offset hw'
  have hbefore : t.backend.diskWriteEnd.offset =
      (empty.appendAll t.backend.maxBytesPerFile ds).last.offset := by
    rw [hw.writeEnd]
  rw [hafter, hk.2.2.1, ← hbefore, hend]
  omega

/-- A queue that does not end at the offset a write is sent with refuses it and stays as it was:
the exit check or the offset check answers. -/
theorem putMessageOnReplica_refused {offset checkSize : Int} {m : Codec.Message}
    (hne : t.backend.diskWriteEnd.offset ≠ offset) :
    ∃ e, putMessageOnReplica disk t m offset checkSize = (disk, t, .error e) := by
  unfold putMessageOnReplica
  split
  · exact ⟨_, rfl⟩
  · rw [if_pos (show t.backend.getQueueWriteEnd.offset ≠ offset from hne)]
    exact ⟨_, rfl⟩

/-- A replica's write keeps `WroteOnce` at the offset it is sent with: a queue that took it no
longer ends there and refuses it. -/
theorem putMessageOnReplica_wroteOnce {offset : Int} (hw : WroteOnce disk t ds offset)
    {m : Codec.Message} (hid : m.id ≠ 0) (hbig : (m.writeTo t.isExt).2.1.length < 2 ^ 31 - 4)
    {checkSize : Int} (hpos : checkSize > 0) :
    ∃ disk' t' r, putMessageOnReplica disk t m offset checkSize = (disk', t', r) ∧ Keeps t t' ∧
      WroteOnce disk' t' ds offset := by
  rcases hw with hw | ⟨d, hw, hne⟩
  · obtain ⟨disk', t', r, hput, hk, hres⟩ := putMessageOnReplica_wrote_of_pos hw hid hbig hpos
    refine ⟨disk', t', r, hput, hk, ?_⟩
    rcases hres with ⟨-, hw'⟩ | ⟨hend, -, hw'⟩
    · exact Or.inl hw'
    · exact wroteOnce_of_landed hw hend hw' hk
  · -- the queue already took it
    obtain ⟨e, hput⟩ := @putMessageOnReplica_refused disk t offset checkSize m hne
    exact ⟨disk, t, _, hput, .refl t, Or.inr ⟨d, hw, hne⟩⟩

/-- A replica with nothing written, on an empty disk. -/
def emptyReplica : Topic :=
  ⟨newDiskQueueWriter 1024 0 1024, none, 1, 1, 0, false, false, false, 0, false, false⟩

/-- The first delivery of a one-byte message with the leader's ID 1 and frame size 31. -/
theorem putMessageOnReplica_wroteOnce_first :
    ∃ disk' t' r, putMessageOnReplica Disk.empty emptyReplica
        { Codec.Message.empty with id := 1, body := [7] } 0 31 = (disk', t', r) ∧
      Keeps emptyReplica t' ∧ WroteOnce disk' t' [] 0 :=
  @putMessageOnReplica_wroteOnce Disk.empty emptyReplica [] 0
    (Or.inl (wrote_newDiskQueueWriter 1024 0 1024)) { Codec.Message.empty with id := 1, body := [7] }
    (by decide) (by decide) 31 (by decide)

/-- A commit keeps `WroteOnce`. -/
theorem updateCommittedOffset_wroteOnce {offset : Int} (hw : WroteOnce disk t ds offset)
    (e : DiskQueueEndInfo) :
    WroteOnce (updateCommittedOffset disk t e).1 (updateCommittedOffset disk t e).2 ds offset := by
  have hend := updateCommittedOffset_diskWriteEnd disk t e
  rcases hw with hw | ⟨d, hw, hne⟩
  · obtain ⟨disk', t', hc, hw', -⟩ := updateCommittedOffset_wrote hw e
    rw [hc]
    exact Or.inl hw'
  · obtain ⟨disk', t', hc, hw', -⟩ := updateCommittedOffset_wrote hw e
    rw [hc] at hend ⊢
    exact Or.inr ⟨d, hw', by rw [hend]; exact hne⟩

/-! ## The leader's rollback -/

/-- The leader's rollback of its last write, made at the end of `ds` and not rolled into a new
file, gives back `ds`. -/
theorem rollbackNoLock_wrote {data : List UInt8} (hw : Wrote disk t.backend (ds ++ [data]))
    (hroll : ¬ (empty.appendAll t.backend.maxBytesPerFile ds).last.endOffset.pos + (data.length + 4) ≥
      t.backend.maxBytesPerFile)
    {fuel : Nat} (hfuel : 1 < fuel) :
    ∃ disk' t', rollbackNoLock fuel disk t
        (empty.appendAll t.backend.maxBytesPerFile ds).last.virtualEnd 1 = some (disk', t', none) ∧
      Wrote disk' t'.backend ds ∧ Keeps t t' := by
  obtain ⟨disk₁, w₁, hrb, hw₁, hk₁⟩ := rollbackWriteV2_wrote hw hroll hfuel
  have hw₁' : Wrote disk₁ ({ t with backend := w₁ } : Topic).backend ds := hw₁
  obtain ⟨disk₂, t₂, hc, hw₂, hk₂⟩ := updateCommittedOffset_wrote hw₁'
    (empty.appendAll t.backend.maxBytesPerFile ds).last
  have hk₁' : Keeps t { t with backend := w₁ } := ⟨rfl, hk₁⟩
  refine ⟨disk₂, t₂, ?_, hw₂, hk₁'.trans hk₂⟩
  simp only [rollbackNoLock, hrb, Option.map_some]
  rw [hc]

end Topic

end Nsq
