import Nsq.DelayQueue.Calls

/-!
# Channel peeks, and the oldest timestamp that lets them stop early

`PeekRecentChannelTimeout(now, results, ch)` answers nothing at once when the oldest timestamp
cached for `ch` is later than `now`, and otherwise scans the keys of `ch`'s channel-delayed entries
in key order, taking the messages due until it holds `results` of them. The cache is lowered by
`put`, set to the bound by `emptyDelayedUntil`, set an hour ahead by `emptyAllDelayedType`, and set
to the first key's timestamp by a peek; `put` reads a cached `0` as no timestamp.

The invariant `PeekInv` has two parts. Every stored value decodes to a message with a positive
`DelayedTs` and a channel shorter than `2 ^ 16` bytes, stored under its own key (`StoredWell`); so
a channel's keys are exactly the keys under its prefix, in `(DelayedTs, ID)` order. Every
channel-delayed entry has its channel's oldest timestamp cached, neither `0` nor later than the
entry's `DelayedTs` (`CacheCovers`). Each call keeps it (`PeekInv.apply`), given that what a put
stores has a positive `DelayedTs` and a short channel and that `emptyDelayedUntil` is given a
positive bound (`Call.Admissible`), as `UpdateConsumedState` gives it the `DelayedTs` of a key. A
new queue has it, so every run keeps it (`peekInv_runCalls`). On a queue that keeps it, a channel
peek answers the first `results` of the channel's due entries in order (`peekRecentChannelTimeout_due`):
the early answer happens only when nothing is due.
-/

namespace Nsq.DelayQueue

open Nsq.Codec DiskQueueWriter

/-! ## Oldest timestamps and due entries -/

/-- `(ts, id)` below `(ts', id')` has `ts ≤ ts'`. -/
theorem le_of_then_lt {ts ts' : Int64} {id id' : UInt64}
    (h : (compare ts.toInt ts'.toInt).then (compare id id') = .lt) : ts ≤ ts' := by
  rw [Int64.le_iff_toInt_le]
  rcases Ordering.then_eq_lt.mp h with hlt | ⟨heq, -⟩
  · exact le_of_lt (Int.compare_eq_lt.mp hlt)
  · exact le_of_eq (Int.compare_eq_eq.mp heq)

/-- Lowering keeps the value of every channel but the message's. -/
theorem lowerOldest_of_ne (mp : List UInt8 → Option Int64) (m : Codec.Message) {ch : List UInt8}
    (hch : ch ≠ m.delayedChannel) : lowerOldest mp m ch = mp ch := by
  unfold lowerOldest
  cases mp m.delayedChannel with
  | none => simp [setKey, hch]
  | some o =>
    dsimp only
    split_ifs <;> simp [setKey, hch]

/-- Lowering sets the message's channel to its timestamp when the channel had none, `0`, or a
later one, and otherwise keeps the channel's value. -/
theorem lowerOldest_channel (mp : List UInt8 → Option Int64) (m : Codec.Message) :
    (lowerOldest mp m m.delayedChannel = some m.delayedTs ∧
      ∀ o, mp m.delayedChannel = some o → o = 0 ∨ m.delayedTs < o) ∨
    ∃ o, mp m.delayedChannel = some o ∧ lowerOldest mp m m.delayedChannel = some o ∧
      o ≠ 0 ∧ ¬ m.delayedTs < o := by
  unfold lowerOldest
  cases hc : mp m.delayedChannel with
  | none => exact .inl ⟨by simp [setKey], fun o ho => by cases ho⟩
  | some o =>
    by_cases hlow : o = 0 ∨ m.delayedTs < o
    · refine .inl ⟨by simp [setKey, hlow], fun o' ho' => ?_⟩
      cases ho'
      exact hlow
    · obtain ⟨ho0, hle⟩ := not_or.mp hlow
      exact .inr ⟨o, rfl, by simp [hc, hlow], ho0, hle⟩

theorem ne_zero_of_pos {x : Int64} (h : 0 < x) : x ≠ 0 := fun h0 => by
  rw [h0] at h
  exact absurd h (by decide)

/-- Lowering for a message with a positive `DelayedTs` keeps a cached timestamp other than `0`,
or puts a lower one. -/
theorem lowerOldest_le {mp : List UInt8 → Option Int64} {m : Codec.Message} (hm : 0 < m.delayedTs)
    {ch : List UInt8} {v : Int64} (hv : mp ch = some v) (hv0 : v ≠ 0) :
    ∃ v', lowerOldest mp m ch = some v' ∧ v' ≠ 0 ∧ v' ≤ v := by
  by_cases hch : ch = m.delayedChannel
  · subst hch
    rcases lowerOldest_channel mp m with ⟨hl, hlow⟩ | ⟨o, ho, hl, -, -⟩
    · -- lowered: the cached timestamp is not `0`, so the message's is below it
      rcases hlow v hv with h0 | hlt
      · exact absurd h0 hv0
      · exact ⟨m.delayedTs, hl, ne_zero_of_pos hm,
          Int64.le_iff_toInt_le.mpr (le_of_lt (Int64.lt_iff_toInt_lt.mp hlt))⟩
    · obtain rfl : v = o := Option.some.inj (hv.symm.trans ho)
      exact ⟨v, hl, hv0, Int64.le_iff_toInt_le.mpr le_rfl⟩
  · exact ⟨v, (lowerOldest_of_ne mp m hch).trans hv, hv0, Int64.le_iff_toInt_le.mpr le_rfl⟩

/-- Lowering for a message with a positive `DelayedTs` leaves its channel a timestamp other than
`0` and no later than the message's. -/
theorem lowerOldest_self (mp : List UInt8 → Option Int64) {m : Codec.Message} (hm : 0 < m.delayedTs) :
    ∃ v, lowerOldest mp m m.delayedChannel = some v ∧ v ≠ 0 ∧ v ≤ m.delayedTs := by
  rcases lowerOldest_channel mp m with ⟨hl, -⟩ | ⟨o, -, hl, ho0, hle⟩
  · exact ⟨m.delayedTs, hl, ne_zero_of_pos hm, Int64.le_iff_toInt_le.mpr le_rfl⟩
  · -- kept: the channel had a timestamp other than `0` that the message's is not below
    refine ⟨o, hl, ho0, Int64.le_iff_toInt_le.mpr ?_⟩
    rw [Int64.lt_iff_toInt_lt] at hle
    omega

theorem dueSel_eq_some_iff {isExt : Bool} {e : Int64 × UInt64 × List UInt8} {ts : Int64}
    {id : UInt64} {d : Codec.Message} :
    dueSel isExt e = some (ts, id, d) ↔ e.1 = ts ∧ e.2.1 = id ∧ decodeStored e.2.2 isExt = .ok d ∧
      d.delayedType = Codec.channelDelayed := by
  unfold dueSel
  split
  · next d' hd =>
    rw [hd]
    split_ifs with ht
    · simp only [Option.some.injEq, Prod.mk.injEq, Except.ok.injEq]
      constructor
      · rintro ⟨rfl, rfl, rfl⟩
        exact ⟨rfl, rfl, rfl, ht⟩
      · rintro ⟨rfl, rfl, rfl, -⟩
        exact ⟨rfl, rfl, rfl⟩
    · simp only [Except.ok.injEq, false_iff, not_and]
      rintro - - rfl
      exact ht
  · next err hd =>
    rw [hd]
    simp only [reduceCtorEq, false_and, and_false]

section Store

variable [Bolt]

/-! ## The invariant -/

/-- A message a put may store: a positive `DelayedTs` and a channel shorter than `2 ^ 16`
bytes. -/
def PutFits (m : Codec.Message) : Prop := 0 < m.delayedTs ∧ m.delayedChannel.length < 2 ^ 16

/-- Every value of the message bucket decodes to a message that fits, stored under its own key. -/
def StoredWell (isExt : Bool) (b : Bucket) : Prop :=
  ∀ k v, b.get k = some v → ∃ d, decodeStored v isExt = .ok d ∧ PutFits d ∧
    k = getDelayedMsgDBKey d.delayedType.toInt d.delayedChannel d.delayedTs d.id

/-- An entry of `ch` under a `ChannelDelayed` key at `(ts, id)`, whose value decodes to the
channel-delayed message `d`. -/
def ChannelEntry (q : DelayQueue) (ch : List UInt8) (ts : Int64) (id : UInt64)
    (d : Codec.Message) : Prop :=
  ∃ v, q.kvStore.bucketDelayedMsg.get (getDelayedMsgDBKey Codec.channelDelayed.toInt ch ts id) =
    some v ∧ decodeStored v q.isExt = .ok d ∧ d.delayedType = Codec.channelDelayed

/-- Every channel-delayed entry has its channel's oldest timestamp cached, neither `0` nor later
than the entry's. -/
def CacheCovers (q : DelayQueue) : Prop :=
  ∀ ch ts id d, ChannelEntry q ch ts id d →
    ∃ v, q.oldestChannelDelayedTs ch = some v ∧ v ≠ 0 ∧ v ≤ ts

/-- What the peek needs of a queue. -/
structure PeekInv (q : DelayQueue) : Prop where
  stored : StoredWell q.isExt q.kvStore.bucketDelayedMsg
  covers : CacheCovers q

/-- A new queue stores nothing. -/
theorem peekInv_new (maxBytesPerFile maxMsgSize : Int) (isExt : Bool) :
    PeekInv (newDelayQueue maxBytesPerFile maxMsgSize isExt) := by
  refine ⟨fun k v hk => ?_, fun ch ts id d ⟨v, hv, _⟩ => ?_⟩
  · rw [Bucket.get_eq] at hk
    cases hk
  · rw [Bucket.get_eq] at hv
    cases hv

/-! ## Stored values -/

section Stored

variable {isExt : Bool} {b b' : Bucket}

theorem StoredWell.shrink (hb : StoredWell isExt b) (hs : b'.Shrinks b) : StoredWell isExt b' :=
  fun k v hk => hb k v (hs k v hk)

/-- A stored message key has a short channel and a positive timestamp. -/
theorem StoredWell.key_fits (hb : StoredWell isExt b) {dt : Int} {ch : List UInt8} {ts : Int64}
    {id : UInt64} {v : List UInt8} (hv : b.get (getDelayedMsgDBKey dt ch ts id) = some v) :
    ch.length < 2 ^ 16 ∧ 0 < ts := by
  obtain ⟨d, -, hfit, hk⟩ := hb _ v hv
  obtain ⟨-, hch, hts, -⟩ := getDelayedMsgDBKey_inj_right hfit.2 hk
  exact ⟨hch ▸ hfit.2, hts ▸ hfit.1⟩

theorem StoredWell.wellFormed (hb : StoredWell isExt b) : MsgKeysWellFormed b := by
  intro kv hkv
  obtain ⟨d, -, hfit, hk⟩ := hb kv.1 kv.2 (Bucket.get_eq_some_iff.mpr hkv)
  exact ⟨_, _, _, _, hfit.2, le_of_lt (Int64.lt_iff_toInt_lt.mp hfit.1), hk⟩

/-- The scan of a channel's `ChannelDelayed` prefix reads as the channel's entries: timestamp,
ID and value, each with a positive timestamp, in increasing `(DelayedTs, ID)` order, and exactly
the bindings of the channel's keys (none, for a channel of `2 ^ 16` bytes or more). -/
theorem StoredWell.scan_channel (hb : StoredWell isExt b) (ch : List UInt8) :
    ∃ T : List (Int64 × UInt64 × List UInt8),
      b.scan (getDelayedMsgDBPrefixKey Codec.channelDelayed.toInt ch) = T.map (channelBinding ch) ∧
      T.Pairwise (fun e e' => (compare e.1.toInt e'.1.toInt).then (compare e.2.1 e'.2.1) = .lt) ∧
      (∀ e ∈ T, 0 < e.1) ∧
      ∀ ts id v, (ts, id, v) ∈ T ↔
        b.get (getDelayedMsgDBKey Codec.channelDelayed.toInt ch ts id) = some v := by
  have hwf := hb.wellFormed
  -- every scanned key is a key of the channel: the scan is the image of its entries
  obtain ⟨T, hT⟩ := OrderedMap.exists_map_eq (f := channelBinding ch) fun kv hkv => by
    obtain ⟨ts, id, hk, -⟩ := ofChannel_of_mem_scan hwf hkv
    exact ⟨(ts, id, kv.2), by rw [channelBinding, ← hk]⟩
  -- an entry's binding is in the bucket exactly when the scan lists it
  have hmemT : ∀ e, e ∈ T ↔ b.get (channelBinding ch e).1 = some (channelBinding ch e).2 := by
    intro e
    constructor
    · intro he
      have hmem : channelBinding ch e ∈ b.scan _ := hT ▸ List.mem_map_of_mem he
      exact Bucket.get_eq_some_iff.mpr (Bucket.mem_scan.mp hmem).1
    · intro hget
      have hch := (hb.key_fits hget).1
      have hmem : channelBinding ch e ∈ b.scan _ := Bucket.mem_scan.mpr
        ⟨Bucket.get_eq_some_iff.mp hget, getDelayedMsgDBPrefixKey_prefix _ _ _ _⟩
      rw [← hT] at hmem
      obtain ⟨e', he', heq⟩ := List.mem_map.mp hmem
      obtain ⟨-, -, hts, hid⟩ := getDelayedMsgDBKey_inj hch hch (congrArg Prod.fst heq)
      have hv := congrArg Prod.snd heq
      simp only [channelBinding] at hts hid hv
      rwa [← Prod.ext hts (Prod.ext hid hv)]
  refine ⟨T, hT.symm, ?_, fun e he => (hb.key_fits ((hmemT e).mp he)).2,
    fun ts id v => hmemT (ts, id, v)⟩
  have hinc := scan_increasing hwf Codec.channelDelayed.toInt ch
  rw [← hT, List.pairwise_map] at hinc
  refine hinc.imp_of_mem fun {e e'} he _ hrel => ?_
  obtain ⟨ts, id, ts', id', hk, hk', hlt⟩ := hrel
  -- a stored key has a short channel, so its fields are the entry's
  have hch := (hb.key_fits ((hmemT e).mp he)).1
  obtain ⟨-, -, rfl, rfl⟩ := getDelayedMsgDBKey_inj hch hch hk
  obtain ⟨-, -, rfl, rfl⟩ := getDelayedMsgDBKey_inj hch hch hk'
  exact hlt

end Stored

/-! ## Each call keeps the invariant -/

section Steps

variable {q q' : DelayQueue}

theorem ChannelEntry.of_shrinks (hs : q'.kvStore.bucketDelayedMsg.Shrinks q.kvStore.bucketDelayedMsg)
    (hx : q'.isExt = q.isExt) {ch : List UInt8} {ts : Int64} {id : UInt64} {d : Codec.Message}
    (h : ChannelEntry q' ch ts id d) : ChannelEntry q ch ts id d := by
  obtain ⟨v, hv, hd, ht⟩ := h
  exact ⟨v, hs _ v hv, hx ▸ hd, ht⟩

theorem PeekInv.of_peekView (hq : PeekInv q) (hv : peekView q' = peekView q) : PeekInv q' := by
  simp only [peekView, Prod.mk.injEq] at hv
  obtain ⟨hb, ho, hx⟩ := hv
  refine ⟨by rw [hb, hx]; exact hq.stored, fun ch ts id d hent => ?_⟩
  rw [ho]
  exact hq.covers ch ts id d (hent.of_shrinks (by rw [hb]; exact .refl _) hx)

/-- Deleting entries, with the oldest timestamps as they were, keeps the invariant. -/
theorem PeekInv.shrink (hq : PeekInv q)
    (hs : q'.kvStore.bucketDelayedMsg.Shrinks q.kvStore.bucketDelayedMsg) (hx : q'.isExt = q.isExt)
    (ho : q'.oldestChannelDelayedTs = q.oldestChannelDelayedTs) : PeekInv q' := by
  refine ⟨hx ▸ hq.stored.shrink hs, fun ch ts id d hent => ?_⟩
  rw [ho]
  exact hq.covers ch ts id d (hent.of_shrinks hs hx)

/-- Deleting entries and setting one channel's oldest timestamp to `v` keeps the invariant when
`v` is neither `0` nor later than any of the channel's entries left. -/
theorem PeekInv.reset (hq : PeekInv q)
    (hs : q'.kvStore.bucketDelayedMsg.Shrinks q.kvStore.bucketDelayedMsg) (hx : q'.isExt = q.isExt)
    {c : List UInt8} {v : Int64} (ho : q'.oldestChannelDelayedTs = setKey q.oldestChannelDelayedTs c v)
    (hv : ∀ ts id d, ChannelEntry q' c ts id d → v ≠ 0 ∧ v ≤ ts) : PeekInv q' := by
  refine ⟨hx ▸ hq.stored.shrink hs, fun ch ts id d hent => ?_⟩
  rw [ho, setKey]
  split_ifs with hch
  · subst hch
    exact ⟨v, rfl, hv ts id d hent⟩
  · exact hq.covers ch ts id d (hent.of_shrinks hs hx)

/-- The bytes a put leaves under its message's key decode to a message that fits and is stored
under its own key: the message there before, or the put's message re-read, of its own type. -/
theorem PutStored.decodes (hb : StoredWell q.isExt q.kvStore.bucketDelayedMsg) {m : Codec.Message}
    (hfit : PutFits m) (hw : (m.writeDelayedTo q.isExt).2.2 = none)
    (hs : PutStored q q' m (m.writeDelayedTo q.isExt).2.1) :
    ∃ d, decodeStored (m.writeDelayedTo q.isExt).2.1 q.isExt = .ok d ∧ PutFits d ∧
      getDelayedMsgDBKey m.delayedType.toInt m.delayedChannel m.delayedTs m.id =
        getDelayedMsgDBKey d.delayedType.toInt d.delayedChannel d.delayedTs d.id ∧
      (q.kvStore.bucketDelayedMsg.get
          (getDelayedMsgDBKey m.delayedType.toInt m.delayedChannel m.delayedTs m.id) ≠
        some (m.writeDelayedTo q.isExt).2.1 → d.delayedType = m.delayedType) := by
  rcases hs.fits with hold | hlen
  · obtain ⟨d, hd, hfd, hkd⟩ := hb _ _ hold
    exact ⟨d, hd, hfd, hkd, fun h => absurd hold h⟩
  · -- new bytes within `MaxValueSize`: the data length fits its `uint32`, so they read back
    have hdata : m.delayedType = pubDelayed → m.delayedData.length < 2 ^ 32 := fun hp => by
      have hle : m.delayedData.length ≤ (m.writeDelayedTo q.isExt).2.1.length :=
        delayedData_length_le m q.isExt hp
      simp only [maxValueSize] at hlen
      omega
    obtain ⟨d, hdec, htype, hts, hid, hch⟩ := decodeDelayedMessage_of_write m q.isExt hw
      (by have := hfit.2; omega) hdata
    refine ⟨d, by rw [decodeStored, hdec]; rfl, ⟨hts ▸ hfit.1, hch ▸ hfit.2⟩, ?_, fun _ => htype⟩
    rw [htype, hch, hts, hid]

/-- A put of a message with a positive `DelayedTs` keeps every entry the queue had covered: a
channel's timestamp is kept or lowered. -/
theorem PutStored.keeps_cover (hc : CacheCovers q) {m : Codec.Message} {buf : List UInt8}
    (hm : 0 < m.delayedTs) (hs : PutStored q q' m buf) {ch : List UInt8} {ts : Int64} {id : UInt64}
    {d : Codec.Message} (hent : ChannelEntry q ch ts id d) :
    ∃ v, q'.oldestChannelDelayedTs ch = some v ∧ v ≠ 0 ∧ v ≤ ts := by
  obtain ⟨v, hv, hv0, hle⟩ := hc ch ts id d hent
  rw [hs.oldest]
  split_ifs
  · obtain ⟨v', hv', hv'0, hle'⟩ := lowerOldest_le hm hv hv0
    refine ⟨v', hv', hv'0, Int64.le_iff_toInt_le.mpr ?_⟩
    rw [Int64.le_iff_toInt_le] at hle hle'
    omega
  · exact ⟨v, hv, hv0, hle⟩

/-- A put of a message that fits, encoded without error, keeps the invariant: its bytes decode to
it (or were there already), and its channel's timestamp is lowered to cover it. -/
theorem PeekInv.put (hq : PeekInv q) {m : Codec.Message} (hfit : PutFits m)
    (hw : (m.writeDelayedTo q.isExt).2.2 = none)
    (hs : PutStored q q' m (m.writeDelayedTo q.isExt).2.1) : PeekInv q' := by
  obtain ⟨d, hd, hfd, hkd, hnew⟩ := hs.decodes hq.stored hfit hw
  set buf := (m.writeDelayedTo q.isExt).2.1
  set K := getDelayedMsgDBKey m.delayedType.toInt m.delayedChannel m.delayedTs m.id
  refine ⟨fun k v hk => ?_, fun ch ts id d' hent => ?_⟩
  · rw [hs.isExt]
    rw [hs.get k] at hk
    split_ifs at hk with hkK
    · cases hk
      exact ⟨d, hd, hfd, hkK ▸ hkd⟩
    · exact hq.stored k v hk
  · obtain ⟨v, hv, hdv, htype⟩ := hent
    rw [hs.get] at hv
    by_cases hKK : getDelayedMsgDBKey Codec.channelDelayed.toInt ch ts id = K ∧
        q.kvStore.bucketDelayedMsg.get K ≠ some buf
    · -- a new entry: the message itself, channel-delayed, whose channel was lowered
      obtain ⟨hkK, hfresh⟩ := hKK
      rw [if_pos hkK] at hv
      cases hv
      rw [hs.isExt, hd] at hdv
      cases hdv
      have hmtype : m.delayedType = Codec.channelDelayed := (hnew hfresh).symm.trans htype
      obtain ⟨-, rfl, rfl, -⟩ := getDelayedMsgDBKey_inj_right hfit.2 hkK
      rw [hs.oldest, if_pos hmtype]
      exact lowerOldest_self _ hfit.1
    · -- an entry the queue had
      refine hs.keeps_cover hq.covers hfit.1
        (show ChannelEntry q ch ts id d' from ⟨v, ?_, hs.isExt ▸ hdv, htype⟩)
      split_ifs at hv with hkK
      · cases hv
        by_contra hne
        exact hKK ⟨hkK, fun h => hne (hkK ▸ h)⟩
      · exact hv

/-- A call that puts keeps the invariant when what its raw data or argument holds fits. -/
theorem PeekInv.putEffect (hq : PeekInv q) {m : Codec.Message} {rawData : Option (List UInt8)}
    (hfit : ∀ m₀, putMessage m rawData q.isExt = .ok m₀ → PutFits m₀)
    (h : PutEffect q q' m rawData) : PeekInv q' ∧ q'.isExt = q.isExt := by
  rcases h with hv | ⟨m₀, m₁, hm₀, hts, hch, hw, hs⟩
  · exact ⟨hq.of_peekView hv, peekView_isExt hv⟩
  · have hf := hfit m₀ hm₀
    exact ⟨hq.put ⟨hts ▸ hf.1, hch ▸ hf.2⟩ hw hs, hs.isExt⟩

theorem PeekInv.emptyDelayedUntil (hq : PeekInv q) {dt : Int} {peekTs : Int64} {id : UInt64}
    {ch : List UInt8} (hpeek : 0 < peekTs) (h : q.emptyDelayedUntil dt peekTs id ch = some q') :
    PeekInv q' := by
  obtain ⟨hs, hx, ho⟩ := emptyDelayedUntil_effect h
  split_ifs at ho with hc
  · refine hq.reset hs hx ho fun ts id' d hent => ⟨ne_zero_of_pos hpeek, ?_⟩
    -- the channel's entries left are those at or past the bound
    obtain ⟨v, hv, -, -⟩ := hent
    obtain ⟨hshort, hts⟩ := (hx ▸ hq.stored.shrink hs).key_fits hv
    obtain ⟨rfl, -⟩ := hc
    exact Int64.le_iff_toInt_le.mpr (emptyDelayedUntil_left_ge hshort
      (le_of_lt (Int64.lt_iff_toInt_lt.mp hpeek)) hq.stored.wellFormed h
      (le_of_lt (Int64.lt_iff_toInt_lt.mp hts)) hv)
  · exact hq.shrink hs hx ho

theorem PeekInv.emptyAllDelayedType (hq : PeekInv q) {dt : Int} {ch : List UInt8} {now : Int64}
    (h : q.emptyAllDelayedType dt ch now = some q') : PeekInv q' := by
  obtain ⟨hs, hx, ho⟩ := emptyAllDelayedType_effect h
  split_ifs at ho with hc
  · -- the channel is left with no entry, so any timestamp covers it
    refine hq.reset hs hx ho fun ts id d hent => ?_
    obtain ⟨v, hv, -, -⟩ := hent
    obtain ⟨hshort, -⟩ := (hx ▸ hq.stored.shrink hs).key_fits hv
    obtain ⟨rfl, -⟩ := hc
    rw [emptyAllDelayedType_clears hshort hq.stored.wellFormed h] at hv
    cases hv
  · exact hq.shrink hs hx ho

theorem PeekInv.confirmedMessage (hq : PeekInv q) (msg : Codec.Message) :
    PeekInv (q.confirmedMessage msg).1 := by
  obtain ⟨hs, ho, hx⟩ := confirmedMessage_effect q msg
  exact hq.shrink hs hx ho

/-- A peek keeps the invariant: the timestamp it records is its channel's first key's, and the
scan is in key order. -/
theorem PeekInv.peekRecentTimeoutWithFilter (hq : PeekInv q) {results : Nat} {peekTs : Int64}
    {filterType : Int} {filterChannel : List UInt8} {msgs : List Codec.Message}
    (h : q.peekRecentTimeoutWithFilter results peekTs filterType filterChannel = some (q', msgs)) :
    PeekInv q' := by
  obtain ⟨hkv, hx, ho | ⟨r, hloop, hr, ho⟩⟩ := peekRecentTimeoutWithFilter_effect h
  · exact hq.shrink (by rw [hkv]; exact .refl _) hx ho
  · -- a timestamp is recorded only by a channel peek
    have hrec : filterType = Codec.channelDelayed.toInt ∧ filterChannel ≠ [] := by
      by_contra hn
      exact ne_zero_of_pos hr (peekLoop_oldest_keep results peekTs q.isExt filterType filterChannel
        _ 0 [] r (.inr hn) hloop)
    obtain ⟨rfl, hfc⟩ := hrec
    refine hq.reset (by rw [hkv]; exact .refl _) hx ho fun ts id d hent => ⟨ne_zero_of_pos hr, ?_⟩
    obtain ⟨v, hv, -, -⟩ := hent
    rw [hkv] at hv
    obtain ⟨hshort, -⟩ := hq.stored.key_fits hv
    obtain ⟨T, hscan, hsorted, hpos, hmem⟩ := hq.stored.scan_channel filterChannel
    rw [if_pos (by decide), hscan] at hloop
    cases T with
    | nil =>
      -- an empty scan records nothing
      simp only [List.map_nil, peekLoop] at hloop
      cases hloop
      exact absurd hr (by decide)
    | cons e rest =>
      -- the first key's timestamp, which no entry of the channel is below
      rw [List.map_cons] at hloop
      rw [peekLoop_oldest_first results peekTs q.isExt hfc
        (decodeDelayedMsgDBKey_getDelayedMsgDBKey _ _ e.1 e.2.1 hshort)
        (ne_zero_of_pos (hpos e List.mem_cons_self)) hloop]
      rcases List.mem_cons.mp ((hmem ts id v).mpr hv) with heq | hin
      · rw [← heq]
        exact Int64.le_iff_toInt_le.mpr le_rfl
      · exact le_of_then_lt ((List.pairwise_cons.mp hsorted).1 _ hin)

end Steps

/-! ## Runs -/

/-- What a run's calls are given: each put stores a message with a positive `DelayedTs` and a
channel shorter than `2 ^ 16` bytes (a raw replica put, the message its raw data holds), and
`emptyDelayedUntil` is given a positive bound. -/
def Call.Admissible (isExt : Bool) : Call → Prop
  | .putDelayMessage m => PutFits m
  | .putMessageOnReplica m _ _ => PutFits m
  | .putRawDataOnReplica rawData _ _ _ =>
    ∀ m, putMessage Codec.Message.empty (some rawData) isExt = .ok m → PutFits m
  | .emptyDelayedUntil _ peekTs _ _ => 0 < peekTs
  | .confirmedMessage _ | .emptyAllDelayedType _ _ _ | .peekRecentTimeoutWithFilter _ _ _ _ => True

/-- Every call keeps the invariant and the ext flag. -/
theorem PeekInv.apply {fuel : Nat} {s s' : Disk × DelayQueue} {c : Call} (hq : PeekInv s.2)
    (hc : c.Admissible s.2.isExt) (h : c.apply fuel s = some s') :
    PeekInv s'.2 ∧ s'.2.isExt = s.2.isExt := by
  obtain ⟨disk, q⟩ := s
  cases c with
  | putDelayMessage m =>
    cases h
    exact hq.putEffect (fun m₀ hm₀ => by cases hm₀; exact hc) (putDelayMessage_effect rfl)
  | putMessageOnReplica m offset checkSize =>
    obtain ⟨⟨disk', q', res⟩, hput, rfl⟩ := Option.map_eq_some_iff.mp h
    exact hq.putEffect (fun m₀ hm₀ => by cases hm₀; exact hc) (putMessageOnReplica_effect hput)
  | putRawDataOnReplica rawData offset checkSize msgNum =>
    obtain ⟨⟨disk', q', res⟩, hput, rfl⟩ := Option.map_eq_some_iff.mp h
    exact hq.putEffect hc (putRawDataOnReplica_effect hput)
  | confirmedMessage msg =>
    cases h
    exact ⟨hq.confirmedMessage msg, (confirmedMessage_effect q msg).2.2⟩
  | emptyDelayedUntil dt peekTs id ch =>
    obtain ⟨q', hq', rfl⟩ := Option.map_eq_some_iff.mp h
    exact ⟨hq.emptyDelayedUntil hc hq', (emptyDelayedUntil_effect hq').2.1⟩
  | emptyAllDelayedType dt ch now =>
    obtain ⟨q', hq', rfl⟩ := Option.map_eq_some_iff.mp h
    exact ⟨hq.emptyAllDelayedType hq', (emptyAllDelayedType_effect hq').2.1⟩
  | peekRecentTimeoutWithFilter results peekTs filterType filterChannel =>
    obtain ⟨⟨q', msgs⟩, hpeek, rfl⟩ := Option.map_eq_some_iff.mp h
    exact ⟨hq.peekRecentTimeoutWithFilter hpeek, (peekRecentTimeoutWithFilter_effect hpeek).2.1⟩

/-- A run of admissible calls keeps the invariant, by induction on the calls with `PeekInv.apply`
as the step. -/
theorem peekInv_runCalls (fuel : Nat) : ∀ (calls : List Call) (s s' : Disk × DelayQueue),
    PeekInv s.2 → (∀ c ∈ calls, c.Admissible s.2.isExt) → runCalls fuel s calls = some s' →
      PeekInv s'.2 ∧ s'.2.isExt = s.2.isExt
  | [], s, s', hq, _, h => by
    cases h
    exact ⟨hq, rfl⟩
  | c :: cs, s, s', hq, hcalls, h => by
    rw [runCalls] at h
    obtain ⟨s₁, h₁, h⟩ := Option.bind_eq_some_iff.mp h
    obtain ⟨hq₁, hx₁⟩ := hq.apply (hcalls c List.mem_cons_self) h₁
    obtain ⟨hq', hx'⟩ := peekInv_runCalls fuel cs s₁ s' hq₁
      (fun c' hc' => hx₁ ▸ hcalls c' (List.mem_cons_of_mem _ hc')) h
    exact ⟨hq', hx'.trans hx₁⟩

/-! ## The channel peek -/

section ChannelPeek

variable {q : DelayQueue} {results : Nat} {peekTs : Int64} {ch : List UInt8}

/-- A channel peek whose channel's cached oldest timestamp is later than the bound answers
nothing at once. -/
theorem peekRecentTimeoutWithFilter_cached (hne : ch ≠ []) {v : Int64}
    (hv : q.oldestChannelDelayedTs ch = some v) (hgt : v > peekTs) :
    q.peekRecentTimeoutWithFilter results peekTs Codec.channelDelayed.toInt ch = some (q, []) := by
  simp only [peekRecentTimeoutWithFilter, ne_eq, hne, not_false_eq_true, and_self, if_true, hv,
    if_pos hgt]

/-- Otherwise it scans. -/
theorem peekRecentTimeoutWithFilter_scan
    (h : ¬ (ch ≠ [] ∧ ∃ v, q.oldestChannelDelayedTs ch = some v ∧ v > peekTs)) :
    q.peekRecentTimeoutWithFilter results peekTs Codec.channelDelayed.toInt ch =
      peekRecentTimeoutWithFilter.peekScan q results peekTs Codec.channelDelayed.toInt ch := by
  unfold peekRecentTimeoutWithFilter
  by_cases hne : ch = []
  · simp [hne]
  · cases hv : q.oldestChannelDelayedTs ch with
    | none => simp [hne]
    | some v =>
      have hle : ¬ v > peekTs := fun hgt => h ⟨hne, v, hv, hgt⟩
      simp [hne, hle]

/-- A channel's cached timestamp is no later than any of its entries. -/
theorem CacheCovers.le (hc : CacheCovers q) {ch : List UInt8} {v : Int64}
    (hv : q.oldestChannelDelayedTs ch = some v) {ts : Int64} {id : UInt64} {d : Codec.Message}
    (hent : ChannelEntry q ch ts id d) : v ≤ ts := by
  obtain ⟨v', hv', -, hle⟩ := hc ch ts id d hent
  rw [hv] at hv'
  cases hv'
  exact hle

/-- The cache never hides a due entry: a channel whose cached timestamp is past `now` has no
entry due at `now`. -/
theorem CacheCovers.not_due (hc : CacheCovers q) {ch : List UInt8} {v now : Int64}
    (hv : q.oldestChannelDelayedTs ch = some v) (hgt : v > now) {ts : Int64} {id : UInt64}
    {d : Codec.Message} (hent : ChannelEntry q ch ts id d) : ¬ ts ≤ now := by
  intro hle
  have hvt := hc.le hv hent
  rw [Int64.le_iff_toInt_le] at hle hvt
  rw [gt_iff_lt, Int64.lt_iff_toInt_lt] at hgt
  omega

/-- `PeekRecentChannelTimeout(now, results, ch)` on a queue that keeps the invariant answers the
first `results` of the channel-delayed entries of `ch` due at `now`, in increasing order of
`(DelayedTs, ID)`, decoded from their stored values: `es` lists those entries, each once, in
that order. -/
theorem peekRecentChannelTimeout_due (hq : PeekInv q) (now : Int64) (results : Nat) :
    ∃ es : List (Int64 × UInt64 × Codec.Message),
      (∀ ts id d, (ts, id, d) ∈ es ↔ ChannelEntry q ch ts id d ∧ ts ≤ now) ∧
      es.Pairwise (fun e e' => (compare e.1.toInt e'.1.toInt).then (compare e.2.1 e'.2.1) = .lt) ∧
      ∃ q', q.peekRecentChannelTimeout now results ch =
        some (q', (es.take results).map fun e => e.2.2) := by
  obtain ⟨T, hscan, hsorted, -, hmem⟩ := hq.stored.scan_channel ch
  set es := (T.filter fun e => e.1 ≤ now).filterMap (dueSel q.isExt) with hes
  have hmem_es : ∀ ts id d, (ts, id, d) ∈ es ↔ ChannelEntry q ch ts id d ∧ ts ≤ now := by
    intro ts id d
    rw [hes, List.mem_filterMap]
    constructor
    · rintro ⟨e, he, hsel⟩
      obtain ⟨heT, hle⟩ := List.mem_filter.mp he
      obtain ⟨rfl, rfl, hd, ht⟩ := dueSel_eq_some_iff.mp hsel
      exact ⟨⟨e.2.2, (hmem e.1 e.2.1 e.2.2).mp heT, hd, ht⟩, by simpa using hle⟩
    · rintro ⟨⟨v, hv, hd, ht⟩, hle⟩
      exact ⟨(ts, id, v), List.mem_filter.mpr ⟨(hmem ts id v).mpr hv, by simpa using hle⟩,
        dueSel_eq_some_iff.mpr ⟨rfl, rfl, hd, ht⟩⟩
  refine ⟨es, hmem_es, ?_, ?_⟩
  · -- the due entries are a part of the scan, which is in key order
    refine (hsorted.filter _).filterMap (dueSel q.isExt) fun e e' hlt b hb b' hb' => ?_
    obtain ⟨b₁, b₂, b₃⟩ := b
    obtain ⟨b₁', b₂', b₃'⟩ := b'
    obtain ⟨rfl, rfl, -⟩ := dueSel_eq_some_iff.mp hb
    obtain ⟨rfl, rfl, -⟩ := dueSel_eq_some_iff.mp hb'
    exact hlt
  · unfold peekRecentChannelTimeout
    by_cases hcached : ch ≠ [] ∧ ∃ v, q.oldestChannelDelayedTs ch = some v ∧ v > now
    · -- the cache answers at once, and then nothing is due: every entry is at or past `v`
      obtain ⟨hne, v, hv, hgt⟩ := hcached
      have hnil : es = [] := List.eq_nil_iff_forall_not_mem.mpr fun e he => by
        obtain ⟨hent, hle⟩ := (hmem_es e.1 e.2.1 e.2.2).mp he
        exact hq.covers.not_due hv hgt hent hle
      exact ⟨q, by rw [peekRecentTimeoutWithFilter_cached hne hv hgt, hnil, List.take_nil,
        List.map_nil]⟩
    · -- the scan walks the channel's entries in key order
      rw [peekRecentTimeoutWithFilter_scan hcached]
      unfold peekRecentTimeoutWithFilter.peekScan
      dsimp only
      rw [if_pos (by decide), hscan]
      -- a channel of `2 ^ 16` bytes or more has no entry to scan
      obtain ⟨o, hloop⟩ : ∃ o, peekLoop results now Codec.channelDelayed.toInt ch q.isExt 0 []
          (T.map (channelBinding ch)) = some ([] ++ (((T.filter fun e => e.1 ≤ now).filterMap
            (dueSel q.isExt)).map fun e => e.2.2).take (results - [].length), o) := by
        by_cases hch : ch.length < 2 ^ 16
        · exact peekLoop_channel results now q.isExt hch T 0 [] (hsorted.imp le_of_then_lt)
        · have hnil : T = [] := List.eq_nil_iff_forall_not_mem.mpr fun e he =>
            hch (hq.stored.key_fits ((hmem e.1 e.2.1 e.2.2).mp he)).1
          subst hnil
          exact ⟨0, by simp [peekLoop]⟩
      rw [hloop]
      refine ⟨?w, ?h⟩
      case h =>
        simp only [Option.map_some, List.nil_append, List.length_nil, Nat.sub_zero, hes,
          List.map_take]
        rfl

end ChannelPeek

/-- Channel peeks answer the due messages in order, and the oldest-timestamp cache never hides
one. Along every run from a new queue of calls that write the store and peeks, in which every
message put has a positive `DelayedTs` and a channel shorter than `2 ^ 16` bytes and every
`emptyDelayedUntil` a positive bound: a channel's cached oldest timestamp is at most the
`DelayedTs` of each of its channel-delayed entries, and `PeekRecentChannelTimeout(now, results,
ch)` answers the first `results` of the entries due at `now`, in `(DelayedTs, ID)` order, decoded
from their stored values. -/
theorem channelPeek_due_in_order (fuel : Nat) (disk : Disk) (maxBytesPerFile maxMsgSize : Int)
    (isExt : Bool) (calls : List Call) (hcalls : ∀ c ∈ calls, c.Admissible isExt)
    {disk' : Disk} {q : DelayQueue}
    (hrun : runCalls fuel (disk, newDelayQueue maxBytesPerFile maxMsgSize isExt) calls =
      some (disk', q)) :
    (∀ ch v, q.oldestChannelDelayedTs ch = some v → ∀ ts id d, ChannelEntry q ch ts id d → v ≤ ts) ∧
    ∀ ch now results, ∃ es : List (Int64 × UInt64 × Codec.Message),
      (∀ ts id d, (ts, id, d) ∈ es ↔ ChannelEntry q ch ts id d ∧ ts ≤ now) ∧
      es.Pairwise (fun e e' => (compare e.1.toInt e'.1.toInt).then (compare e.2.1 e'.2.1) = .lt) ∧
      ∃ q', q.peekRecentChannelTimeout now results ch =
        some (q', (es.take results).map fun e => e.2.2) := by
  have hq := (peekInv_runCalls fuel calls (disk, newDelayQueue maxBytesPerFile maxMsgSize isExt)
    (disk', q) (peekInv_new maxBytesPerFile maxMsgSize isExt) hcalls hrun).1
  exact ⟨fun ch v hv ts id d hent => hq.covers.le hv hent, fun ch now results =>
    peekRecentChannelTimeout_due hq now results⟩

end Store

/-- From a new queue: two channel-delayed messages of channel `"c"` put at times 5 and 3, then a
peek of the channel at time 4. -/
theorem channelPeek_due_in_order_sample :
    let m : Codec.Message := { Codec.Message.empty with
        delayedType := Codec.channelDelayed, delayedTs := 5, delayedOrigID := 1, delayedChannel := [99] }
    let calls := [Call.putDelayMessage m, Call.putDelayMessage { m with delayedTs := 3, delayedOrigID := 2 },
      Call.peekRecentTimeoutWithFilter 10 4 Codec.channelDelayed.toInt [99]]
    (∀ c ∈ calls, c.Admissible false) ∧ ∃ disk' q,
      runCalls 0 (Disk.empty, newDelayQueue 1048576 1024 false) calls = some (disk', q) ∧
      (∀ ch v, q.oldestChannelDelayedTs ch = some v →
        ∀ ts id d, ChannelEntry q ch ts id d → v ≤ ts) ∧
      ∀ ch now results, ∃ es : List (Int64 × UInt64 × Codec.Message),
        (∀ ts id d, (ts, id, d) ∈ es ↔ ChannelEntry q ch ts id d ∧ ts ≤ now) ∧
        es.Pairwise (fun e e' => (compare e.1.toInt e'.1.toInt).then (compare e.2.1 e'.2.1) = .lt) ∧
        ∃ q', q.peekRecentChannelTimeout now results ch =
          some (q', (es.take results).map fun e => e.2.2) := by
  intro m calls
  have hcalls : ∀ c ∈ calls, c.Admissible false := by
    intro c hc
    simp only [calls, List.mem_cons, List.not_mem_nil, or_false] at hc
    rcases hc with rfl | rfl | rfl
    · exact ⟨by decide, by decide⟩
    · exact ⟨by decide, by decide⟩
    · trivial
  obtain ⟨⟨disk', q⟩, hrun⟩ : ∃ s, runCalls 0 (Disk.empty, newDelayQueue 1048576 1024 false) calls =
      some s := Option.isSome_iff_exists.mp (by decide +kernel)
  exact ⟨hcalls, disk', q, hrun,
    channelPeek_due_in_order 0 Disk.empty 1048576 1024 false calls hcalls hrun⟩

end Nsq.DelayQueue
