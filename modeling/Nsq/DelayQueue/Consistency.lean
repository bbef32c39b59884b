import Nsq.DelayQueue.StoreSpec

/-!
# Where the delayed queue's store and its index part

`ConfirmedMessage` deletes through `deleteBucketKey`, which removes the index entry that the
*stored* message names, under its original ID. Entries are keyed by timestamp and delayed ID, so
one original message can own several entries, all indexed under one key; confirming one of them
removes that index entry while the others stay (`confirmedMessage_keeps_other`), after which
`IsChannelMessageDelayed` answers `false` for a message that is still delayed.

The raw replica path of `put` checks the written size only after `PutRawV2`, and a mismatch
answers the write's own error, which is `nil`. `PutRawDataOnReplica` then answers success having
written the frame to the backend and nothing to the store (`putRawDataOnReplica_size_mismatch`).
-/

namespace Nsq.DelayQueue

open Nsq.Codec DiskQueueWriter

section Store

variable [Bolt]

/-! ## Confirming an entry -/

section Confirm

variable {q : DelayQueue} {msg m : Codec.Message} {v : List UInt8}

/-- A confirmation of an entry it finds, holding a message that decodes, keeps what the delete
wrote and answers no error. -/
theorem confirmedMessage_of_found
    (hv : q.kvStore.bucketDelayedMsg.get (getDelayedMsgDBKey msg.delayedType.toInt
      msg.delayedChannel msg.delayedTs msg.delayedOrigID) = some v)
    (hm : decodeStored v q.isExt = .ok m)
    (hkey : (counterKey msg.delayedType.toInt msg.delayedChannel).length ≤ maxKeySize) :
    (q.confirmedMessage msg).2 = none ∧
      (q.confirmedMessage msg).1.kvStore = (deleteBucketKey msg.delayedType.toInt
        msg.delayedChannel msg.delayedTs msg.delayedOrigID q.kvStore q.isExt).1 := by
  obtain ⟨tx, hdel⟩ : ∃ tx, deleteBucketKey msg.delayedType.toInt msg.delayedChannel
      msg.delayedTs msg.delayedOrigID q.kvStore q.isExt = (tx, none) :=
    ⟨_, Prod.ext rfl (deleteBucketKey_of_found hv hm hkey).1⟩
  simp only [confirmedMessage, update_eq, hdel, and_self]

/-- Confirming one entry removes the index entry of the message it holds and keeps every other
entry: an entry of the same original message stays behind with no index entry. -/
theorem confirmedMessage_keeps_other
    (hv : q.kvStore.bucketDelayedMsg.get (getDelayedMsgDBKey msg.delayedType.toInt
      msg.delayedChannel msg.delayedTs msg.delayedOrigID) = some v)
    (hm : decodeStored v q.isExt = .ok m)
    (hkey : (counterKey msg.delayedType.toInt msg.delayedChannel).length ≤ maxKeySize)
    {k v' : List UInt8} (hk : k ≠ getDelayedMsgDBKey msg.delayedType.toInt msg.delayedChannel
      msg.delayedTs msg.delayedOrigID)
    (hk' : q.kvStore.bucketDelayedMsg.get k = some v') :
    (q.confirmedMessage msg).1.kvStore.bucketDelayedMsg.get k = some v' ∧
      (q.confirmedMessage msg).1.kvStore.bucketDelayedMsgIndex.get
        (getDelayedMsgDBIndexKey m.delayedType.toInt m.delayedChannel m.delayedOrigID) = none := by
  obtain ⟨-, hmsgs, hindex, -⟩ := deleteBucketKey_of_found hv hm hkey
  rw [(confirmedMessage_of_found hv hm hkey).2, hmsgs, hindex, Bucket.get_delete,
    Bucket.get_delete, if_neg hk, if_pos rfl]
  exact ⟨hk', rfl⟩

end Confirm

/-! ## The raw replica path -/

/-- `put` of raw data whose size check fails after the write: the frame is written, the store is
not, and the call answers success with zero ID, offset and size. -/
theorem put_raw_size_mismatch (disk : Disk) {q : DelayQueue} {m m₀ : Codec.Message} {raw : List UInt8}
    {checkSize : Int} (hraw : putMessage m (some raw) q.isExt = .ok m₀)
    (hw : (m₀.writeDelayedTo q.isExt).2.2 = none) (hex : q.backend.exitFlag = false)
    (hcheck : checkSize > 0 ∧ checkSize ≠ int32 raw.length) :
    ∃ disk' q' dend, put disk q m (some raw) checkSize = (disk', q', .ok (0, 0, 0, dend)) ∧
      q'.kvStore = q.kvStore := by
  obtain ⟨disk₁, d₁, off, hput⟩ := putRawV2_ok disk hex raw 1
  -- the ID a message without one is given changes neither the writer nor the encoder's error
  have hnext : (nextMsgID q).1.backend = q.backend ∧ (nextMsgID q).1.kvStore = q.kvStore ∧
      (nextMsgID q).1.isExt = q.isExt := ⟨rfl, rfl, rfl⟩
  have hw' : ∀ i : UInt64, ({ m₀ with id := i }.writeDelayedTo q.isExt).2.2 = none := fun i => by
    rw [writeDelayedTo_setID, hw]
  unfold put
  rw [hraw]
  dsimp only
  by_cases hid : m₀.id = 0
  · rw [if_pos hid]
    dsimp only
    obtain ⟨a, buf, hwd⟩ : ∃ a buf, ({ m₀ with id := (nextMsgID q).2 }.writeDelayedTo
        (nextMsgID q).1.isExt) = (a, buf, none) :=
      ⟨_, _, Prod.ext rfl (Prod.ext rfl (by rw [hnext.2.2]; exact hw' _))⟩
    rw [hwd]
    dsimp only
    rw [hnext.1, hput]
    dsimp only
    rw [if_pos hcheck]
    exact ⟨_, _, _, rfl, rfl⟩
  · rw [if_neg hid]
    dsimp only
    obtain ⟨a, buf, hwd⟩ : ∃ a buf, m₀.writeDelayedTo q.isExt = (a, buf, none) :=
      ⟨_, _, Prod.ext rfl (Prod.ext rfl hw)⟩
    rw [hwd]
    dsimp only
    rw [hput]
    dsimp only
    rw [if_pos hcheck]
    exact ⟨_, _, _, rfl, rfl⟩

/-- `PutRawDataOnReplica` of one message at the write end, whose size check fails, answers
success and leaves the store as it was. -/
theorem putRawDataOnReplica_size_mismatch (fuel : Nat) (disk : Disk) {q : DelayQueue}
    {m₀ : Codec.Message} {raw : List UInt8} {checkSize : Int} (hexit : q.exitFlag = false)
    (hraw : putMessage Codec.Message.empty (some raw) q.isExt = .ok m₀)
    (hw : (m₀.writeDelayedTo q.isExt).2.2 = none) (hex : q.backend.exitFlag = false)
    (hcheck : checkSize > 0 ∧ checkSize ≠ int32 raw.length) :
    ∃ disk' q' dend, putRawDataOnReplica fuel disk q raw q.backend.getQueueWriteEnd.offset
        checkSize 1 = some (disk', q', .ok dend) ∧ q'.kvStore = q.kvStore := by
  obtain ⟨disk', q', dend, hput, hkv⟩ := put_raw_size_mismatch disk hraw hw hex hcheck
  refine ⟨disk', q', dend, ?_, hkv⟩
  simp only [putRawDataOnReplica, hexit, Bool.false_eq_true, ↓reduceIte, ne_eq, not_true_eq_false,
    putOnReplica, hput]

end Store

/-- From a new queue: two puts of one original message at times 1 and 2, then the confirmation
of the first, leave the second stored and `IsChannelMessageDelayed` of the original ID `false`;
and a raw replica write checked against a wrong size answers success, moves the backend's end by
the frame, and stores nothing. -/
theorem delayQueue_store_inconsistent :
    -- two entries of the original message 7 of channel "c", at times 1 and 2
    (let m₁ : Codec.Message := { Codec.Message.empty with
        delayedType := Codec.channelDelayed, delayedTs := 1, delayedOrigID := 7, delayedChannel := [99] }
      let (disk₁, q₁, r₁) := putDelayMessage Disk.empty (newDelayQueue 1048576 1024 false) m₁
      let (_, q₂, r₂) := putDelayMessage disk₁ q₁ { m₁ with delayedTs := 2 }
      -- the channel confirms the first, whose delayed ID is 1
      let (q₃, err) := q₂.confirmedMessage { m₁ with delayedOrigID := 1 }
      (r₁ matches .ok (1, _, _, _)) && (r₂ matches .ok (2, _, _, _)) && err.isNone &&
        (q₃.kvStore.bucketDelayedMsg.get (getDelayedMsgDBKey 1 [99] 2 2)).isSome &&
        !q₃.isChannelMessageDelayed 7 [99]) = true ∧
    -- a raw replica write of a channel-delayed message with ID 5, checked against size 1
    (let m : Codec.Message := { Codec.Message.empty with
        id := 5, delayedType := Codec.channelDelayed, delayedTs := 1, delayedOrigID := 7,
        delayedChannel := [99] }
      let buf := (m.writeDelayedTo false).2.1
      let raw := BigEndian.encodeInt 4 buf.length ++ buf
      match putRawDataOnReplica 0 Disk.empty (newDelayQueue 1048576 1024 false) raw 0 1 1 with
      | some (_, q', r) =>
        (r matches .ok _) && q'.backend.getQueueWriteEnd.offset == raw.length &&
          (q'.kvStore.bucketDelayedMsg.get (getDelayedMsgDBKey 1 [99] 1 5)).isNone
      | none => false) = true := by
  decide +kernel

end Nsq.DelayQueue
