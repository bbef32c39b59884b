import Nsq.DelayQueue.StoreSpec

/-!
# The calls of a delayed queue, and what each does to its entries and its cache

A run of the delayed queue is a sequence of the calls that write its store (`PutDelayMessage`,
`PutMessageOnReplica`, `PutRawDataOnReplica`, `ConfirmedMessage`, `emptyDelayedUntil` and
`emptyAllDelayedType`, which `EmptyDelayedChannel`, `EmptyDelayedType` and `UpdateConsumedState`
call) and of the peeks that read it (`PeekRecentTimeoutWithFilter`). A peek reads the message
bucket, the oldest timestamps and the ext flag (`peekView`); the lemmas here say what each call
does to those and nothing more. A put stores one message under its key and lowers its channel's
oldest timestamp, or leaves them as they were; a confirmation deletes; `emptyDelayedUntil` and
`emptyAllDelayedType` delete and may set one channel's timestamp; a peek may set the timestamp
of the channel it peeks to that of the first key it meets.
-/

namespace Nsq.DelayQueue

open Nsq.Codec DiskQueueWriter

variable [Bolt]

/-! ## A run -/

/-- The calls of a run: those that write the store, and the peek. -/
inductive Call where
  | putDelayMessage (m : Codec.Message)
  | putMessageOnReplica (m : Codec.Message) (offset checkSize : Int)
  | putRawDataOnReplica (rawData : List UInt8) (offset checkSize msgNum : Int)
  | confirmedMessage (msg : Codec.Message)
  | emptyDelayedUntil (dt : Int) (peekTs : Int64) (id : UInt64) (ch : List UInt8)
  | emptyAllDelayedType (dt : Int) (ch : List UInt8) (now : Int64)
  | peekRecentTimeoutWithFilter (results : Nat) (peekTs : Int64) (filterType : Int)
      (filterChannel : List UInt8)
  deriving Repr

/-- One call on the backend's disk and the queue, with `fuel` for the replica calls' reset of the
backend; `none` where the model has no answer (a key decoder reading past a key, fuel run out). -/
def Call.apply (fuel : Nat) (s : Disk × DelayQueue) : Call → Option (Disk × DelayQueue)
  | .putDelayMessage m =>
    let r := DelayQueue.putDelayMessage s.1 s.2 m
    some (r.1, r.2.1)
  | .putMessageOnReplica m offset checkSize =>
    (DelayQueue.putMessageOnReplica fuel s.1 s.2 m offset checkSize).map fun r => (r.1, r.2.1)
  | .putRawDataOnReplica rawData offset checkSize msgNum =>
    (DelayQueue.putRawDataOnReplica fuel s.1 s.2 rawData offset checkSize msgNum).map fun r => (r.1, r.2.1)
  | .confirmedMessage msg => some (s.1, (s.2.confirmedMessage msg).1)
  | .emptyDelayedUntil dt peekTs id ch => (s.2.emptyDelayedUntil dt peekTs id ch).map fun q => (s.1, q)
  | .emptyAllDelayedType dt ch now => (s.2.emptyAllDelayedType dt ch now).map fun q => (s.1, q)
  | .peekRecentTimeoutWithFilter results peekTs filterType filterChannel =>
    (s.2.peekRecentTimeoutWithFilter results peekTs filterType filterChannel).map fun r => (s.1, r.1)

/-- The calls one after another. -/
def runCalls (fuel : Nat) : Disk × DelayQueue → List Call → Option (Disk × DelayQueue)
  | s, [] => some s
  | s, c :: cs => (c.apply fuel s).bind fun s' => runCalls fuel s' cs

/-! ## What a peek reads -/

/-- The part of a queue a peek reads: the message bucket, the oldest timestamps and the ext
flag. -/
def peekView (q : DelayQueue) : Bucket × (List UInt8 → Option Int64) × Bool :=
  (q.kvStore.bucketDelayedMsg, q.oldestChannelDelayedTs, q.isExt)

omit [Bolt] in
theorem flush_peekView (disk : Disk) (q : DelayQueue) : peekView (flush disk q).2 = peekView q := by
  unfold flush
  split <;> rfl

omit [Bolt] in
theorem resetBackendEndNoLock_peekView {fuel : Nat} {disk disk' : Disk} {q q' : DelayQueue}
    {vend totalCnt : Int} {e : Option WriteError}
    (h : resetBackendEndNoLock fuel disk q vend totalCnt = some (disk', q', e)) :
    peekView q' = peekView q := by
  unfold resetBackendEndNoLock at h
  dsimp only at h
  split at h
  · cases h
    rfl
  · obtain ⟨⟨_, _, _, _⟩, -, h⟩ := Option.map_eq_some_iff.mp h
    cases h
    rfl

/-! ## Puts -/

/-- What a put that stores leaves of a queue: the bytes `buf` under the message's key, which held
them already or takes them within `MaxValueSize`, no other message key changed, and a
channel-delayed message's channel given a lower oldest timestamp. -/
structure PutStored (q q' : DelayQueue) (m : Codec.Message) (buf : List UInt8) : Prop where
  isExt : q'.isExt = q.isExt
  get : ∀ k, q'.kvStore.bucketDelayedMsg.get k =
    if k = getDelayedMsgDBKey m.delayedType.toInt m.delayedChannel m.delayedTs m.id then some buf
    else q.kvStore.bucketDelayedMsg.get k
  fits : q.kvStore.bucketDelayedMsg.get
      (getDelayedMsgDBKey m.delayedType.toInt m.delayedChannel m.delayedTs m.id) = some buf ∨
    buf.length ≤ maxValueSize
  oldest : q'.oldestChannelDelayedTs =
    if m.delayedType = Codec.channelDelayed then lowerOldest q.oldestChannelDelayedTs m
    else q.oldestChannelDelayedTs

/-- A put from a queue that reads the same stores the same. -/
theorem PutStored.of_peekView {q₀ q q' : DelayQueue} {m : Codec.Message} {buf : List UInt8}
    (hv : peekView q = peekView q₀) (h : PutStored q q' m buf) : PutStored q₀ q' m buf := by
  simp only [peekView, Prod.mk.injEq] at hv
  obtain ⟨hb, ho, hx⟩ := hv
  exact ⟨h.isExt.trans hx, fun k => by rw [h.get k, hb], hb ▸ h.fits, by rw [h.oldest, ho]⟩

/-- After the backend write, a put stores the message, or (the write or the store failed) leaves
what a peek reads as it was; it stores only after a write that succeeded. -/
theorem afterWrite_effect {disk disk' : Disk} {q q' : DelayQueue} {m : Codec.Message}
    {buf : List UInt8} {r : Except DelayQueueError (Int × Int × DiskQueueEndInfo)}
    {res : Except DelayQueueError (UInt64 × Int × Int × DiskQueueEndInfo)}
    (h : afterWrite disk q m buf r = (disk', q', res)) :
    peekView q' = peekView q ∨ ((∃ w, r = .ok w) ∧ PutStored q q' m buf) := by
  unfold afterWrite at h
  dsimp only at h
  split at h
  · cases h
    exact .inl rfl
  · rename_i w
    split at h
    · cases h
      exact .inl rfl
    · rename_i store hupd
      -- the store's transaction succeeded; the flush after it reads and writes the backend only
      obtain ⟨hget, hfits⟩ := putTx_get (update_eq_none hupd)
      set q₁ : DelayQueue := if m.delayedType = Codec.channelDelayed then
          { q with needFlush := true, kvStore := store,
                   oldestChannelDelayedTs := lowerOldest q.oldestChannelDelayedTs m }
        else { q with needFlush := true, kvStore := store } with hq₁
      have hv₁ : peekView q₁ = (store.bucketDelayedMsg, if m.delayedType = Codec.channelDelayed then
          lowerOldest q.oldestChannelDelayedTs m else q.oldestChannelDelayedTs, q.isExt) := by
        rw [hq₁]
        split_ifs <;> rfl
      have hv' : peekView q' = peekView q₁ := by
        split at h
        · cases h
          exact flush_peekView disk q₁
        · cases h
          rfl
      have hv := hv'.trans hv₁
      simp only [peekView, Prod.mk.injEq] at hv
      obtain ⟨hb, ho, hx⟩ := hv
      exact .inr ⟨⟨_, rfl⟩, hx, fun k => by rw [hb, hget k], hfits, ho⟩

omit [Bolt] in
/-- The backend write of a put that answers success encoded the message without error, and
answers those bytes. -/
theorem writeDelayedMessageToBackendWithCheck_ok {disk disk' : Disk} {bq bq' : DiskQueueWriter}
    {msg : Codec.Message} {checkSize : Int} {isExt : Bool} {buf : List UInt8} {w : Int × Int × DiskQueueEndInfo}
    (h : writeDelayedMessageToBackendWithCheck disk bq msg checkSize isExt = (disk', bq', buf, .ok w)) :
    (msg.writeDelayedTo isExt).2 = (buf, none) := by
  unfold writeDelayedMessageToBackendWithCheck at h
  rcases hw : msg.writeDelayedTo isExt with ⟨_, buf', err⟩
  rw [hw] at h
  dsimp only at h
  cases err with
  | some e => cases h
  | none =>
    dsimp only at h
    split_ifs at h
    · cases h
    · rcases hp : bq.putV2 disk buf' with ⟨_, _, _⟩
      rw [hp] at h
      simp only [Prod.mk.injEq] at h
      rw [h.2.2.1]

omit [Bolt] in
theorem peekView_isExt {q q' : DelayQueue} (h : peekView q' = peekView q) : q'.isExt = q.isExt :=
  congrArg (fun v => v.2.2) h

/-- What a put does to what a peek reads: nothing, or it stores the message it takes from `m`
and `rawData` (the one given, or the one the raw data holds) with an ID given when it had none,
re-encoded without error. -/
def PutEffect (q q' : DelayQueue) (m : Codec.Message) (rawData : Option (List UInt8)) : Prop :=
  peekView q' = peekView q ∨
    ∃ m₀ m₁, putMessage m rawData q.isExt = .ok m₀ ∧ m₁.delayedTs = m₀.delayedTs ∧
      m₁.delayedChannel = m₀.delayedChannel ∧ (m₁.writeDelayedTo q.isExt).2.2 = none ∧
      PutStored q q' m₁ (m₁.writeDelayedTo q.isExt).2.1

/-- A queue that reads as the one a put left is left by the put too. -/
theorem PutEffect.of_after {q q₁ q' : DelayQueue} {m : Codec.Message} {rawData : Option (List UInt8)}
    (h : PutEffect q q₁ m rawData) (hv : peekView q' = peekView q₁) : PutEffect q q' m rawData := by
  have hv' := hv
  simp only [peekView, Prod.mk.injEq] at hv'
  obtain ⟨hb, ho, hx⟩ := hv'
  rcases h with h | ⟨m₀, m₁, hm₀, hts, hch, hw, hs⟩
  · exact .inl (hv.trans h)
  · exact .inr ⟨m₀, m₁, hm₀, hts, hch, hw, hx.trans hs.isExt, fun k => by rw [hb, hs.get k],
      hs.fits, by rw [ho, hs.oldest]⟩

/-- The end of a put: after a write whose success means the message encoded to `buf` without
error, from a queue that reads as `q`, the put stores the message or leaves `q`'s view. -/
theorem PutEffect.of_afterWrite {disk disk' : Disk} {q q₁ q' : DelayQueue} {m m₀ m₁ : Codec.Message}
    {rawData : Option (List UInt8)} {buf : List UInt8}
    {r : Except DelayQueueError (Int × Int × DiskQueueEndInfo)}
    {res : Except DelayQueueError (UInt64 × Int × Int × DiskQueueEndInfo)}
    (hm₀ : putMessage m rawData q.isExt = .ok m₀) (hts : m₁.delayedTs = m₀.delayedTs)
    (hch : m₁.delayedChannel = m₀.delayedChannel) (hv : peekView q₁ = peekView q)
    (hwd : (∃ w, r = .ok w) → (m₁.writeDelayedTo q.isExt).2 = (buf, none))
    (h : afterWrite disk q₁ m₁ buf r = (disk', q', res)) : PutEffect q q' m rawData := by
  rcases afterWrite_effect h with hv' | ⟨hr, hs⟩
  · exact .inl (hv'.trans hv)
  · have hw := hwd hr
    refine .inr ⟨m₀, m₁, hm₀, hts, hch, by rw [hw], ?_⟩
    rw [hw]
    exact hs.of_peekView hv

theorem put_effect {disk disk' : Disk} {q q' : DelayQueue} {m : Codec.Message}
    {rawData : Option (List UInt8)} {checkSize : Int}
    {res : Except DelayQueueError (UInt64 × Int × Int × DiskQueueEndInfo)}
    (h : put disk q m rawData checkSize = (disk', q', res)) : PutEffect q q' m rawData := by
  unfold put at h
  split at h
  · cases h
    exact .inl rfl
  · rename_i m₀ hm₀
    -- giving the message an ID moves the ID sequence only
    obtain ⟨q₁, m₁, hpair, hv₁, hts, hch⟩ : ∃ q₁ m₁,
        (if m₀.id = 0 then ((nextMsgID q).1, { m₀ with id := (nextMsgID q).2 }) else (q, m₀)) =
          (q₁, m₁) ∧ peekView q₁ = peekView q ∧ m₁.delayedTs = m₀.delayedTs ∧
          m₁.delayedChannel = m₀.delayedChannel := by
      split_ifs <;> exact ⟨_, _, rfl, rfl, rfl, rfl⟩
    rw [hpair] at h
    dsimp only at h
    have hx₁ := peekView_isExt hv₁
    cases rawData with
    | some raw =>
      rcases hw : m₁.writeDelayedTo q₁.isExt with ⟨_, buf, err⟩
      rw [hw] at h
      dsimp only at h
      cases err with
      | some e =>
        cases h
        exact .inl hv₁
      | none =>
        dsimp only at h
        rcases hp : q₁.backend.putRawV2 disk raw 1 with ⟨disk₁, bq, r⟩
        rw [hp] at h
        dsimp only at h
        have hvb : peekView { q₁ with backend := bq } = peekView q := hv₁
        split_ifs at h
        · cases h
          exact .inl hvb
        · rw [hx₁] at hw
          exact PutEffect.of_afterWrite hm₀ hts hch hvb (fun _ => by rw [hw]) h
    | none =>
      rcases hw : writeDelayedMessageToBackendWithCheck disk q₁.backend m₁ checkSize q₁.isExt with
        ⟨disk₁, bq, buf, r⟩
      rw [hw] at h
      dsimp only at h
      have hvb : peekView { q₁ with backend := bq } = peekView q := hv₁
      -- the backend write succeeds only after encoding the message without error
      refine PutEffect.of_afterWrite hm₀ hts hch hvb (fun hr => ?_) h
      obtain ⟨w, rfl⟩ := hr
      rw [← hx₁]
      exact writeDelayedMessageToBackendWithCheck_ok hw

/-- A put on a replica is a put, after which a failure resets the backend only. -/
theorem putOnReplica_effect {fuel : Nat} {disk disk' : Disk} {q q' : DelayQueue} {m : Codec.Message}
    {rawData : Option (List UInt8)} {checkSize : Int} {res : Except DelayQueueError DiskQueueEndInfo}
    (h : putOnReplica fuel disk q m rawData checkSize = some (disk', q', res)) :
    PutEffect q q' m rawData := by
  unfold putOnReplica at h
  dsimp only at h
  split at h
  · next disk₁ q₁ e hput =>
    obtain ⟨⟨_, _, _⟩, hreset, h⟩ := Option.map_eq_some_iff.mp h
    cases h
    exact (put_effect hput).of_after (resetBackendEndNoLock_peekView hreset)
  · next disk₁ q₁ _ _ _ _ hput =>
    cases h
    exact put_effect hput

theorem putDelayMessage_effect {disk disk' : Disk} {q q' : DelayQueue} {m : Codec.Message}
    {res : Except DelayQueueError (UInt64 × Int × Int × DiskQueueEndInfo)}
    (h : putDelayMessage disk q m = (disk', q', res)) : PutEffect q q' m none := by
  unfold putDelayMessage at h
  split_ifs at h
  · cases h
    exact .inl rfl
  · cases h
    exact .inl rfl
  · cases h
    exact .inl rfl
  · exact put_effect h

theorem putMessageOnReplica_effect {fuel : Nat} {disk disk' : Disk} {q q' : DelayQueue}
    {m : Codec.Message} {offset checkSize : Int} {res : Except DelayQueueError DiskQueueEndInfo}
    (h : putMessageOnReplica fuel disk q m offset checkSize = some (disk', q', res)) :
    PutEffect q q' m none := by
  unfold putMessageOnReplica at h
  split_ifs at h
  · cases h
    exact .inl rfl
  · cases h
    exact .inl rfl
  · cases h
    exact .inl rfl
  · exact putOnReplica_effect h

theorem putRawDataOnReplica_effect {fuel : Nat} {disk disk' : Disk} {q q' : DelayQueue}
    {rawData : List UInt8} {offset checkSize msgNum : Int}
    {res : Except DelayQueueError DiskQueueEndInfo}
    (h : putRawDataOnReplica fuel disk q rawData offset checkSize msgNum = some (disk', q', res)) :
    PutEffect q q' Codec.Message.empty (some rawData) := by
  unfold putRawDataOnReplica at h
  split_ifs at h
  · cases h
    exact .inl rfl
  · cases h
    exact .inl rfl
  · cases h
    exact .inl rfl
  · exact putOnReplica_effect h

/-! ## Deletes -/

/-- A `db.Update` whose transaction only deletes message keys only deletes them. -/
theorem update_shrinks {s : Store} {f : Store → Except StoreError Store}
    (hf : ∀ s', f s = .ok s' → s'.bucketDelayedMsg.Shrinks s.bucketDelayedMsg) :
    (update s f).1.bucketDelayedMsg.Shrinks s.bucketDelayedMsg := by
  rw [update_eq]
  split
  · next s' hs => exact hf s' hs
  · exact .refl _

/-- A confirmation deletes message keys and keeps the oldest timestamps. -/
theorem confirmedMessage_effect (q : DelayQueue) (msg : Codec.Message) :
    (q.confirmedMessage msg).1.kvStore.bucketDelayedMsg.Shrinks q.kvStore.bucketDelayedMsg ∧
      (q.confirmedMessage msg).1.oldestChannelDelayedTs = q.oldestChannelDelayedTs ∧
      (q.confirmedMessage msg).1.isExt = q.isExt := by
  unfold confirmedMessage
  dsimp only
  refine ⟨update_shrinks fun s' hs' => ?_, rfl, rfl⟩
  split at hs'
  · next tx hdel =>
    cases hs'
    have hshrink := deleteBucketKey_shrinks msg.delayedType.toInt msg.delayedChannel msg.delayedTs
      msg.delayedOrigID q.kvStore q.isExt
    rw [hdel] at hshrink
    exact hshrink
  · cases hs'

/-- `emptyDelayedUntil` deletes message keys and, for a channel-delayed channel, takes the bound
as its oldest timestamp. -/
theorem emptyDelayedUntil_effect {q q' : DelayQueue} {dt : Int} {peekTs : Int64} {id : UInt64}
    {ch : List UInt8} (h : q.emptyDelayedUntil dt peekTs id ch = some q') :
    q'.kvStore.bucketDelayedMsg.Shrinks q.kvStore.bucketDelayedMsg ∧ q'.isExt = q.isExt ∧
      q'.oldestChannelDelayedTs = if dt = Codec.channelDelayed.toInt ∧ ch ≠ [] then
        setKey q.oldestChannelDelayedTs ch peekTs else q.oldestChannelDelayedTs := by
  unfold emptyDelayedUntil at h
  obtain ⟨store, hloop, hq'⟩ := Option.map_eq_some_iff.mp h
  have hs := emptyDelayedUntilLoop_shrinks dt peekTs id ch q.isExt _ _ _ hloop
  subst hq'
  split_ifs <;> exact ⟨hs, rfl, rfl⟩

/-- `emptyAllDelayedType` deletes message keys and, for a channel-delayed channel, takes the time
an hour on as its oldest timestamp. -/
theorem emptyAllDelayedType_effect {q q' : DelayQueue} {dt : Int} {ch : List UInt8} {now : Int64}
    (h : q.emptyAllDelayedType dt ch now = some q') :
    q'.kvStore.bucketDelayedMsg.Shrinks q.kvStore.bucketDelayedMsg ∧ q'.isExt = q.isExt ∧
      q'.oldestChannelDelayedTs = if dt = Codec.channelDelayed.toInt ∧ ch ≠ [] then
        setKey q.oldestChannelDelayedTs ch (now + hourNanos) else q.oldestChannelDelayedTs := by
  unfold emptyAllDelayedType at h
  obtain ⟨store, hloop, hq'⟩ := Option.map_eq_some_iff.mp h
  have hs := emptyAllDelayedTypeLoop_shrinks dt ch q.isExt _ _ _ hloop
  subst hq'
  split_ifs <;> exact ⟨hs, rfl, rfl⟩

/-- On a bucket of well-formed keys, `emptyAllDelayedType` of a channel shorter than `2 ^ 16`
bytes leaves no key of its type and channel. -/
theorem emptyAllDelayedType_clears {q q' : DelayQueue} {dt : Int} {ch : List UInt8} {now : Int64}
    (hch : ch.length < 2 ^ 16) (hwf : MsgKeysWellFormed q.kvStore.bucketDelayedMsg)
    (h : q.emptyAllDelayedType dt ch now = some q') (ts : Int64) (id : UInt64) :
    q'.kvStore.bucketDelayedMsg.get (getDelayedMsgDBKey dt ch ts id) = none := by
  unfold emptyAllDelayedType at h
  obtain ⟨store, hloop, hq'⟩ := Option.map_eq_some_iff.mp h
  have hkv : q'.kvStore = store := by
    subst hq'
    split_ifs <;> rfl
  rw [hkv]
  have hs := emptyAllDelayedTypeLoop_shrinks dt ch q.isExt _ _ _ hloop
  cases hk : q.kvStore.bucketDelayedMsg.get (getDelayedMsgDBKey dt ch ts id) with
  | none => exact hs.get_eq_none hk
  | some v =>
    -- a key of `(dt, ch)` that the bucket holds is scanned, and the loop deletes it
    have hmem : (getDelayedMsgDBKey dt ch ts id, v) ∈
        q.kvStore.bucketDelayedMsg.scan (getDelayedMsgDBPrefixKey dt ch) :=
      Bucket.mem_scan.mpr ⟨Bucket.get_eq_some_iff.mp hk, getDelayedMsgDBPrefixKey_prefix dt ch ts id⟩
    refine emptyAllDelayedTypeLoop_clears dt q.isExt hch _ _ _ hloop (fun b hb => ?_) _ hmem
    obtain ⟨ts', id', hb', -⟩ := ofChannel_of_mem_scan hwf hb
    exact ⟨ts', id', hb'⟩

/-! ## Peeks -/

/-- A peek's scan keeps the store and sets the oldest timestamp of the channel it peeks to the
one its loop answers, when that is positive. -/
theorem peekScan_effect {q q' : DelayQueue} {results : Nat} {peekTs : Int64} {filterType : Int}
    {filterChannel : List UInt8} {msgs : List Codec.Message}
    (h : peekRecentTimeoutWithFilter.peekScan q results peekTs filterType filterChannel =
      some (q', msgs)) :
    q'.kvStore = q.kvStore ∧ q'.isExt = q.isExt ∧
      (q'.oldestChannelDelayedTs = q.oldestChannelDelayedTs ∨
        ∃ r, peekLoop results peekTs filterType filterChannel q.isExt 0 []
            (q.kvStore.bucketDelayedMsg.scan (if filterType > 0 then
              getDelayedMsgDBPrefixKey filterType filterChannel else [])) = some r ∧
          0 < r.2 ∧ q'.oldestChannelDelayedTs = setKey q.oldestChannelDelayedTs filterChannel r.2) := by
  unfold peekRecentTimeoutWithFilter.peekScan at h
  obtain ⟨⟨msgs', o⟩, hloop, hq⟩ := Option.map_eq_some_iff.mp h
  simp only [Prod.mk.injEq] at hq
  obtain ⟨hq, -⟩ := hq
  subst hq
  by_cases ho : o > 0
  · rw [if_pos ho]
    exact ⟨rfl, rfl, .inr ⟨_, hloop, ho, rfl⟩⟩
  · rw [if_neg ho]
    exact ⟨rfl, rfl, .inl rfl⟩

/-- A peek keeps the store; it keeps the oldest timestamps, or sets the one of the channel it
peeks as its scan does. -/
theorem peekRecentTimeoutWithFilter_effect {q q' : DelayQueue} {results : Nat} {peekTs : Int64}
    {filterType : Int} {filterChannel : List UInt8} {msgs : List Codec.Message}
    (h : q.peekRecentTimeoutWithFilter results peekTs filterType filterChannel = some (q', msgs)) :
    q'.kvStore = q.kvStore ∧ q'.isExt = q.isExt ∧
      (q'.oldestChannelDelayedTs = q.oldestChannelDelayedTs ∨
        ∃ r, peekLoop results peekTs filterType filterChannel q.isExt 0 []
            (q.kvStore.bucketDelayedMsg.scan (if filterType > 0 then
              getDelayedMsgDBPrefixKey filterType filterChannel else [])) = some r ∧
          0 < r.2 ∧ q'.oldestChannelDelayedTs = setKey q.oldestChannelDelayedTs filterChannel r.2) := by
  unfold peekRecentTimeoutWithFilter at h
  dsimp only at h
  split at h
  · split_ifs at h
    · cases h
      exact ⟨rfl, rfl, .inl rfl⟩
    · exact peekScan_effect h
  · exact peekScan_effect h

end Nsq.DelayQueue
