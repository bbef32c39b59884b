import Nsq.DelayQueue.Queue
import Nsq.Lib.ExceptBind

/-!
# What the delayed queue's store operations do

Every key `put` writes is a message key `getDelayedMsgDBKey dt ch ts id` of a channel shorter
than `2 ^ 16` bytes. Under one prefix `getDelayedMsgDBPrefixKey dt ch` such keys are exactly the
keys of `(dt, ch)`, and they sort by the timestamp's `uint64`, then the ID.

`emptyDelayedUntil dt peekTs id ch` walks the keys of `(dt, ch)` in that order, deleting until it
meets one at or past `(peekTs, id)`; with non-negative timestamps, where the signed comparisons
of the loop agree with the key order, it deletes exactly the keys below
`getDelayedMsgDBKey dt ch peekTs id` (`emptyDelayedUntil_get`). Each delete removes its key
whatever happens to the index and the counter after it (`deleteBucketKey_bucketDelayedMsg`).
-/

namespace Nsq.DelayQueue

open Nsq.Codec

/-! ## The keys of one type and channel -/

/-- A key of type `dt` and channel `ch` with a non-negative timestamp. -/
def OfChannel (dt : Int) (ch : List UInt8) (k : List UInt8) : Prop :=
  ∃ ts id, k = getDelayedMsgDBKey dt ch ts id ∧ 0 ≤ ts.toInt

/-- Keys of types that agree as `uint16` are the same key. -/
theorem getDelayedMsgDBKey_congr {dt dt' : Int} (h : UInt16.ofInt dt = UInt16.ofInt dt')
    (ch : List UInt8) (ts : Int64) (id : UInt64) :
    getDelayedMsgDBKey dt ch ts id = getDelayedMsgDBKey dt' ch ts id := by
  simp only [getDelayedMsgDBKey, encodeInt_two, h]

/-- A message key under the prefix of `(dt, ch)` is a key of `(dt, ch)`. -/
theorem ofChannel_of_prefix {dt dt' : Int} {ch ch' : List UInt8} {ts : Int64} {id : UInt64}
    (hch' : ch'.length < 2 ^ 16) (hts : 0 ≤ ts.toInt)
    (hp : getDelayedMsgDBPrefixKey dt ch <+: getDelayedMsgDBKey dt' ch' ts id) :
    OfChannel dt ch (getDelayedMsgDBKey dt' ch' ts id) := by
  rw [getDelayedMsgDBKey_eq, prefix_append_iff hch' (by simp),
    getDelayedMsgDBPrefixKey_eq_iff] at hp
  obtain ⟨hdt, rfl⟩ := hp
  exact ⟨ts, id, getDelayedMsgDBKey_congr hdt.symm ch ts id, hts⟩

theorem getDelayedMsgDBPrefixKey_prefix (dt : Int) (ch : List UInt8) (ts : Int64) (id : UInt64) :
    getDelayedMsgDBPrefixKey dt ch <+: getDelayedMsgDBKey dt ch ts id := by
  rw [getDelayedMsgDBKey_eq]
  exact List.prefix_append _ _

theorem length_getDelayedMsgDBKey (dt : Int) (ch : List UInt8) (ts : Int64) (id : UInt64) :
    (getDelayedMsgDBKey dt ch ts id).length = 21 + ch.length := by
  simp [getDelayedMsgDBKey, BigEndian.encodeInt]
  omega

/-- Message keys of channels shorter than `2 ^ 16` bytes are equal only when their types (as
`uint16`), channels, timestamps and IDs are. -/
theorem getDelayedMsgDBKey_inj {dt dt' : Int} {ch ch' : List UInt8} {ts ts' : Int64} {id id' : UInt64}
    (hch : ch.length < 2 ^ 16) (hch' : ch'.length < 2 ^ 16)
    (h : getDelayedMsgDBKey dt ch ts id = getDelayedMsgDBKey dt' ch' ts' id') :
    UInt16.ofInt dt = UInt16.ofInt dt' ∧ ch = ch' ∧ ts = ts' ∧ id = id' := by
  have hd := congrArg decodeDelayedMsgDBKey h
  rw [decodeDelayedMsgDBKey_getDelayedMsgDBKey dt ch ts id hch,
    decodeDelayedMsgDBKey_getDelayedMsgDBKey dt' ch' ts' id' hch'] at hd
  simp only [Option.some.injEq, Except.ok.injEq, Prod.mk.injEq] at hd
  exact ⟨hd.1, hd.2.2.2, hd.2.1, hd.2.2.1⟩

/-- A key equal to one of a short channel is of a channel as long, so the fields agree. -/
theorem getDelayedMsgDBKey_inj_right {dt dt' : Int} {ch ch' : List UInt8} {ts ts' : Int64}
    {id id' : UInt64} (hch' : ch'.length < 2 ^ 16)
    (h : getDelayedMsgDBKey dt ch ts id = getDelayedMsgDBKey dt' ch' ts' id') :
    UInt16.ofInt dt = UInt16.ofInt dt' ∧ ch = ch' ∧ ts = ts' ∧ id = id' := by
  have hlen := congrArg List.length h
  rw [length_getDelayedMsgDBKey, length_getDelayedMsgDBKey] at hlen
  exact getDelayedMsgDBKey_inj (by omega) hch' h

/-- Past a key that is not below the target, no key of a sorted scan is. -/
theorem not_below_of_stop {T k₀ : List UInt8} {v : List UInt8} {rest : List (List UInt8 × List UInt8)}
    (hstop : compare k₀ T ≠ .lt) (habove : ∀ b ∈ rest, compare k₀ b.1 = .lt) (k : List UInt8) :
    ¬ ((∃ b ∈ (k₀, v) :: rest, b.1 = k) ∧ compare k T = .lt) := by
  rintro ⟨⟨b, hb, rfl⟩, hlt⟩
  rcases List.mem_cons.mp hb with rfl | hb
  · exact hstop hlt
  · exact hstop (Std.TransCmp.lt_trans (habove b hb) hlt)

/-- The loop's two stop tests, for non-negative timestamps, say that a key is not below the
target: the loop deletes a key exactly when it is below. -/
theorem compare_getDelayedMsgDBKey_lt_iff (dt : Int) (ch : List UInt8) {ts ts' : Int64}
    (hts : 0 ≤ ts.toInt) (hts' : 0 ≤ ts'.toInt) (id id' : UInt64) :
    compare (getDelayedMsgDBKey dt ch ts id) (getDelayedMsgDBKey dt ch ts' id') = .lt ↔
      ¬ ts > ts' ∧ ¬ (ts = ts' ∧ id ≥ id') := by
  rw [compare_getDelayedMsgDBKey_of_nonneg dt ch hts hts' id id', Ordering.then_eq_lt,
    Int.compare_eq_lt, Int.compare_eq_eq, UInt64.compare_eq_toNat_compare_toNat, Nat.compare_eq_lt,
    gt_iff_lt, Int64.lt_iff_toInt_lt, ← Int64.toInt_inj, ge_iff_le, UInt64.le_iff_toNat_le]
  omega

/-- A type read back from a key is the key's type. -/
theorem uint16_ofInt_toNat (x : UInt16) : UInt16.ofInt ((x.toNat : Nat) : Int) = x := by
  rw [UInt16.ofInt, Int.toNat_emod (by omega) (by decide)]
  simp

section Store

variable [Bolt]

/-! ## Buckets

What bolt documents of each operation determines what it does to a bucket's bindings: what the
functions of `OrderedMap` do. -/

/-- `Get` answers the value bound to the key. -/
theorem Bucket.get_eq_some_iff {b : Bucket} {k v : List UInt8} :
    b.get k = some v ↔ (k, v) ∈ b.bindings :=
  Bolt.get_eq_some b k v

theorem Bucket.get_eq (b : Bucket) (k : List UInt8) : b.get k = OrderedMap.get b.bindings k := by
  cases h : OrderedMap.get b.bindings k with
  | some v => exact Bucket.get_eq_some_iff.mpr (OrderedMap.mem_of_get h)
  | none =>
    -- a value bound to `k` would be the one `OrderedMap.get` finds
    cases hb : b.get k with
    | none => rfl
    | some v =>
      rw [OrderedMap.get_of_mem b.sorted (Bucket.get_eq_some_iff.mp hb)] at h
      cases h

/-- `Put` fails at bolt's limits and otherwise binds the key as `OrderedMap.put` does. -/
theorem Bucket.put_eq (b : Bucket) (k v : List UInt8) :
    b.put k v =
      if k.length = 0 then .error .keyRequired
      else if k.length > maxKeySize then .error .keyTooLarge
      else if v.length > maxValueSize then .error .valueTooLarge
      else .ok ⟨OrderedMap.put b.bindings k v, b.sorted.put k v⟩ := by
  split_ifs with hk hks hv
  · exact Bolt.put_keyRequired b k v hk
  · exact Bolt.put_keyTooLarge b k v hk hks
  · exact Bolt.put_valueTooLarge b k v hk (not_lt.mp hks) hv
  · -- the bucket `Put` answers holds what `OrderedMap.put` holds, and both are sorted
    obtain ⟨b', hput, hmem⟩ := Bolt.put_ok b k v hk (not_lt.mp hks) (not_lt.mp hv)
    rw [Bucket.put, hput]
    exact congrArg Except.ok (Bucket.ext (OrderedMap.eq_of_mem_iff b'.sorted (b.sorted.put k v)
      fun kv => (hmem kv).trans (OrderedMap.mem_put_iff b.sorted).symm))

/-- `Delete` unbinds the key as `OrderedMap.delete` does. -/
theorem Bucket.delete_eq (b : Bucket) (k : List UInt8) :
    b.delete k = ⟨OrderedMap.delete b.bindings k, b.sorted.delete k⟩ :=
  Bucket.ext (OrderedMap.eq_of_mem_iff (b.delete k).sorted (b.sorted.delete k)
    fun kv => (Bolt.mem_delete b k kv).trans (OrderedMap.mem_delete_iff b.sorted).symm)

/-- A cursor from `Seek(k)` visits what `OrderedMap.seek` lists. -/
theorem Bucket.seek_eq (b : Bucket) (k : List UInt8) :
    Bolt.seek b k = OrderedMap.seek b.bindings k := by
  obtain ⟨pre, hsplit, hpre, hseek⟩ := Bolt.seek_split b k
  -- the cursor passes over `pre`, all below `k`, and stops at the first binding after it
  have hdrop : OrderedMap.seek (pre ++ Bolt.seek b k) k = OrderedMap.seek (Bolt.seek b k) k :=
    List.dropWhile_append_of_pos fun kv hkv => by simp [hpre kv hkv]
  rw [← hsplit, hdrop, OrderedMap.seek_eq_self hseek]

/-- `db.Update` keeps the transaction's writes when it answers no error. -/
theorem update_eq (s : Store) (tx : Store → Except StoreError Store) :
    update s tx =
      match tx s with
      | .ok s' => (s', none)
      | .error e => (s, some e) := by
  cases h : tx s with
  | ok s' => exact Bolt.update_ok s s' tx h
  | error e => exact Bolt.update_error s e tx h

/-- `Put` of a key and a value within bolt's limits succeeds. -/
theorem Bucket.put_eq_ok (b : Bucket) {k v : List UInt8} (hk : k.length ≠ 0)
    (hks : k.length ≤ maxKeySize) (hv : v.length ≤ maxValueSize) :
    b.put k v = .ok ⟨OrderedMap.put b.bindings k v, b.sorted.put k v⟩ := by
  simp only [Bucket.put_eq, if_neg hk, if_neg (not_lt.mpr hks), if_neg (not_lt.mpr hv), gt_iff_lt]

/-- A `Put` that succeeds changes the value of its key and of no other. -/
theorem Bucket.get_put_of_ok {b b' : Bucket} {k v : List UInt8} (h : b.put k v = .ok b')
    (k' : List UInt8) : b'.get k' = if k' = k then some v else b.get k' := by
  rw [Bucket.put_eq] at h
  split_ifs at h
  cases h
  simp only [Bucket.get_eq]
  exact OrderedMap.get_put b.bindings k v k'

/-- A scan visits the bucket's bindings whose keys start with `pfx`, in the bucket's order. -/
theorem Bucket.scan_eq_filter (b : Bucket) (pfx : List UInt8) :
    b.scan pfx = b.bindings.filter fun kv => pfx.isPrefixOf kv.1 := by
  rw [Bucket.scan, Bucket.seek_eq]
  exact OrderedMap.takeWhile_seek_isPrefixOf b.sorted pfx

theorem Bucket.scan_sorted (b : Bucket) (pfx : List UInt8) : OrderedMap.Sorted (b.scan pfx) := by
  rw [Bucket.scan_eq_filter]
  exact b.sorted.filter _

theorem Bucket.mem_scan {b : Bucket} {pfx : List UInt8} {kv : List UInt8 × List UInt8} :
    kv ∈ b.scan pfx ↔ kv ∈ b.bindings ∧ pfx <+: kv.1 := by
  rw [Bucket.scan_eq_filter, List.mem_filter, List.isPrefixOf_iff_prefix]

theorem Bucket.get_delete (b : Bucket) (k k' : List UInt8) :
    (b.delete k).get k' = if k' = k then none else b.get k' := by
  simp only [Bucket.get_eq, Bucket.delete_eq]
  exact OrderedMap.get_delete b.sorted k k'

/-! ## What each transaction does -/

theorem deleteMsgIndex_bucketDelayedMsg {v : List UInt8} {tx tx' : Store} {isExt : Bool}
    (h : deleteMsgIndex v tx isExt = .ok tx') : tx'.bucketDelayedMsg = tx.bucketDelayedMsg := by
  unfold deleteMsgIndex at h
  split at h
  · cases h
  · cases h
    rfl

/-- A delete removes its message key, whether or not the index and the counter follow. -/
theorem deleteBucketKey_bucketDelayedMsg (dt : Int) (ch : List UInt8) (ts : Int64) (id : UInt64)
    (tx : Store) (isExt : Bool) :
    (deleteBucketKey dt ch ts id tx isExt).1.bucketDelayedMsg =
      tx.bucketDelayedMsg.delete (getDelayedMsgDBKey dt ch ts id) := by
  unfold deleteBucketKey
  dsimp only
  split
  · rfl
  · split
    · rfl
    · rename_i tx' h
      have hm := deleteMsgIndex_bucketDelayedMsg h
      split
      · split <;> exact hm
      · exact hm

/-- The index entry of a stored message that decodes is deleted. -/
theorem deleteMsgIndex_of_decode {v : List UInt8} {isExt : Bool} {m : Codec.Message}
    (hm : decodeStored v isExt = .ok m) (tx : Store) :
    deleteMsgIndex v tx isExt = .ok { tx with
      bucketDelayedMsgIndex := tx.bucketDelayedMsgIndex.delete
        (getDelayedMsgDBIndexKey m.delayedType.toInt m.delayedChannel m.delayedOrigID) } := by
  simp only [deleteMsgIndex, hm]

/-- `deleteBucketKey` of a key it finds, holding a message that decodes, succeeds: the key goes,
the index entry that message names goes, and the counter of the key's type and channel counts
down unless it is zero. -/
theorem deleteBucketKey_of_found {dt : Int} {ch : List UInt8} {ts : Int64} {id : UInt64}
    {tx : Store} {isExt : Bool} {v : List UInt8} {m : Codec.Message}
    (hv : tx.bucketDelayedMsg.get (getDelayedMsgDBKey dt ch ts id) = some v)
    (hm : decodeStored v isExt = .ok m) (hkey : (counterKey dt ch).length ≤ maxKeySize) :
    (deleteBucketKey dt ch ts id tx isExt).2 = none ∧
    (deleteBucketKey dt ch ts id tx isExt).1.bucketDelayedMsg =
      tx.bucketDelayedMsg.delete (getDelayedMsgDBKey dt ch ts id) ∧
    (deleteBucketKey dt ch ts id tx isExt).1.bucketDelayedMsgIndex =
      tx.bucketDelayedMsgIndex.delete
        (getDelayedMsgDBIndexKey m.delayedType.toInt m.delayedChannel m.delayedOrigID) ∧
    ∀ k, (deleteBucketKey dt ch ts id tx isExt).1.bucketMeta.get k =
      if k = counterKey dt ch ∧ readCounter (tx.bucketMeta.get k) > 0 then
        some (BigEndian.encode 8 (readCounter (tx.bucketMeta.get k) - 1).toNat)
      else tx.bucketMeta.get k := by
  unfold deleteBucketKey
  dsimp only
  rw [hv]
  dsimp only
  rw [deleteMsgIndex_of_decode hm]
  dsimp only
  by_cases hc : readCounter (tx.bucketMeta.get (counterKey dt ch)) > 0
  · -- the counter is written back one lower: its key and eight bytes fit bolt's limits
    obtain ⟨b', hput⟩ : ∃ b', tx.bucketMeta.put (counterKey dt ch)
        (BigEndian.encode 8 (readCounter (tx.bucketMeta.get (counterKey dt ch)) - 1).toNat) =
          .ok b' :=
      ⟨_, Bucket.put_eq_ok _ (by simp [counterKey, counterPrefix]) hkey (by simp [maxValueSize])⟩
    rw [if_pos hc, hput]
    refine ⟨rfl, rfl, rfl, fun k => ?_⟩
    rw [Bucket.get_put_of_ok hput]
    by_cases hk : k = counterKey dt ch
    · subst hk
      simp [hc]
    · simp [hk]
  · rw [if_neg hc]
    refine ⟨rfl, rfl, rfl, fun k => ?_⟩
    rw [if_neg]
    rintro ⟨rfl, h⟩
    exact hc h

/-! ## `emptyDelayedUntil` -/

section EmptyUntil

variable {dt : Int} {peekTs : Int64} {id : UInt64} {ch : List UInt8}

/-- The loop over a sorted run of keys of `(dt, ch)`: it deletes the keys below
`getDelayedMsgDBKey dt ch peekTs id` and answers every other key as it was. -/
theorem emptyDelayedUntilLoop_get (dt : Int) (id : UInt64) (isExt : Bool) (hch : ch.length < 2 ^ 16)
    (hpeek : 0 ≤ peekTs.toInt) :
    ∀ (L : List (List UInt8 × List UInt8)) (tx : Store), OrderedMap.Sorted L →
      (∀ b ∈ L, OfChannel dt ch b.1) →
      ∃ tx', emptyDelayedUntilLoop dt peekTs id ch isExt tx L = some tx' ∧
        ∀ k, tx'.bucketDelayedMsg.get k =
          if (∃ b ∈ L, b.1 = k) ∧ compare k (getDelayedMsgDBKey dt ch peekTs id) = .lt then none
          else tx.bucketDelayedMsg.get k
  | [], tx, _, _ => ⟨tx, rfl, fun k => by simp⟩
  | (k₀, v) :: rest, tx, hs, hL => by
    obtain ⟨ts₀, id₀, rfl, hts₀⟩ := hL (k₀, v) List.mem_cons_self
    have habove : ∀ b ∈ rest, compare (getDelayedMsgDBKey dt ch ts₀ id₀) b.1 = .lt :=
      (List.pairwise_cons.mp hs).1
    have hlt := compare_getDelayedMsgDBKey_lt_iff dt ch hts₀ hpeek id₀ id
    rw [emptyDelayedUntilLoop, decodeDelayedMsgDBKey_getDelayedMsgDBKey dt ch ts₀ id₀ hch]
    dsimp only
    rw [if_neg (fun h : ch ≠ ch => h rfl)]
    by_cases hstop : ts₀ > peekTs ∨ (ts₀ = peekTs ∧ id₀ ≥ id)
    · -- at or past the target: the loop stops here, and no later key is below it
      have hnot := fun h => (hlt.mp h).elim (fun h₁ h₂ => hstop.elim h₁ h₂)
      refine ⟨tx, ?_, fun k => by rw [if_neg (not_below_of_stop hnot habove k)]⟩
      rcases hstop with hgt | hat
      · rw [if_pos hgt]
      · by_cases hgt : ts₀ > peekTs
        · rw [if_pos hgt]
        · rw [if_neg hgt, if_pos hat]
    · -- below the target: the key is deleted and the loop goes on
      obtain ⟨hgt, hat⟩ := not_or.mp hstop
      rw [if_neg hgt, if_neg hat]
      have hbelow := hlt.mpr ⟨hgt, hat⟩
      obtain ⟨tx', hloop, hget⟩ := emptyDelayedUntilLoop_get dt id isExt hch hpeek rest
        (deleteBucketKey dt ch ts₀ id₀ tx isExt).1 (List.pairwise_cons.mp hs).2
        (fun b hb => hL b (List.mem_cons_of_mem _ hb))
      refine ⟨tx', hloop, fun k => ?_⟩
      rw [hget, deleteBucketKey_bucketDelayedMsg, Bucket.get_delete]
      by_cases hk : k = getDelayedMsgDBKey dt ch ts₀ id₀
      · subst hk
        simp [hbelow]
      · have hmem : (∃ b ∈ (getDelayedMsgDBKey dt ch ts₀ id₀, v) :: rest, b.1 = k) ↔
            ∃ b ∈ rest, b.1 = k := by
          refine ⟨fun ⟨b, hb, hbk⟩ => ?_, fun ⟨b, hb, hbk⟩ => ⟨b, List.mem_cons_of_mem _ hb, hbk⟩⟩
          rcases List.mem_cons.mp hb with rfl | hb
          · exact absurd hbk.symm hk
          · exact ⟨b, hb, hbk⟩
        simp only [hmem, if_neg hk]

/-- Every message key of a bucket is one `put` writes, of a channel shorter than `2 ^ 16` bytes,
with a non-negative timestamp. -/
def MsgKeysWellFormed (b : Bucket) : Prop :=
  ∀ kv ∈ b.bindings, ∃ dt ch ts id, ch.length < 2 ^ 16 ∧ 0 ≤ ts.toInt ∧
    kv.1 = getDelayedMsgDBKey dt ch ts id

theorem ofChannel_of_mem_scan {b : Bucket} (hwf : MsgKeysWellFormed b) {kv : List UInt8 × List UInt8}
    (hkv : kv ∈ b.scan (getDelayedMsgDBPrefixKey dt ch)) : OfChannel dt ch kv.1 := by
  obtain ⟨hmem, hp⟩ := Bucket.mem_scan.mp hkv
  obtain ⟨dt', ch', ts, id', hch', hts, hk⟩ := hwf kv hmem
  rw [hk] at hp ⊢
  exact ofChannel_of_prefix hch' hts hp

/-- A scan under the prefix of `(dt, ch)` visits the keys of `(dt, ch)` in increasing order of
their timestamps, then their IDs. -/
theorem scan_increasing {b : Bucket} (hwf : MsgKeysWellFormed b) (dt : Int) (ch : List UInt8) :
    (b.scan (getDelayedMsgDBPrefixKey dt ch)).Pairwise fun kv kv' =>
      ∃ ts id ts' id', kv.1 = getDelayedMsgDBKey dt ch ts id ∧
        kv'.1 = getDelayedMsgDBKey dt ch ts' id' ∧
        (compare ts.toInt ts'.toInt).then (compare id id') = .lt := by
  refine (Bucket.scan_sorted b _).imp_of_mem fun {kv kv'} hkv hkv' hlt => ?_
  obtain ⟨ts, id, hk, hts⟩ := ofChannel_of_mem_scan hwf hkv
  obtain ⟨ts', id', hk', hts'⟩ := ofChannel_of_mem_scan hwf hkv'
  rw [hk, hk', compare_getDelayedMsgDBKey_of_nonneg dt ch hts hts'] at hlt
  exact ⟨ts, id, ts', id', hk, hk', hlt⟩

theorem emptyDelayedUntil_kvStore {q q' : DelayQueue}
    (h : q.emptyDelayedUntil dt peekTs id ch = some q') :
    emptyDelayedUntilLoop dt peekTs id ch q.isExt q.kvStore
      (q.kvStore.bucketDelayedMsg.scan (getDelayedMsgDBPrefixKey dt ch)) = some q'.kvStore := by
  unfold emptyDelayedUntil at h
  obtain ⟨store, hs, rfl⟩ := Option.map_eq_some_iff.mp h
  rw [hs]
  split <;> rfl

/-- `emptyDelayedUntil dt peekTs id ch` deletes exactly the message keys of `(dt, ch)` below
`getDelayedMsgDBKey dt ch peekTs id`, on a store of well-formed keys. -/
theorem emptyDelayedUntil_get (q : DelayQueue) (hch : ch.length < 2 ^ 16)
    (hpeek : 0 ≤ peekTs.toInt) (hwf : MsgKeysWellFormed q.kvStore.bucketDelayedMsg) :
    ∃ q', q.emptyDelayedUntil dt peekTs id ch = some q' ∧
      ∀ k, q'.kvStore.bucketDelayedMsg.get k =
        if getDelayedMsgDBPrefixKey dt ch <+: k ∧
            compare k (getDelayedMsgDBKey dt ch peekTs id) = .lt then none
        else q.kvStore.bucketDelayedMsg.get k := by
  obtain ⟨tx', hloop, hget⟩ := emptyDelayedUntilLoop_get dt id q.isExt hch hpeek
    _ q.kvStore (Bucket.scan_sorted _ _) (fun kv hkv => ofChannel_of_mem_scan hwf hkv)
  have hsome : (q.emptyDelayedUntil dt peekTs id ch).isSome := by
    simp [emptyDelayedUntil, hloop]
  obtain ⟨q', hq'⟩ := Option.isSome_iff_exists.mp hsome
  have hkv : q'.kvStore = tx' := by
    have h := emptyDelayedUntil_kvStore hq'
    rw [hloop] at h
    exact (Option.some.inj h).symm
  refine ⟨q', hq', fun k => ?_⟩
  rw [hkv, hget k]
  by_cases hk : ∃ kv ∈ q.kvStore.bucketDelayedMsg.bindings, kv.1 = k
  · -- a key of the bucket is scanned exactly when it starts with the prefix
    have hscan : (∃ kv ∈ q.kvStore.bucketDelayedMsg.scan (getDelayedMsgDBPrefixKey dt ch), kv.1 = k) ↔
        getDelayedMsgDBPrefixKey dt ch <+: k := by
      obtain ⟨kv, hmem, rfl⟩ := hk
      refine ⟨fun ⟨kv', hkv', hk'⟩ => hk' ▸ (Bucket.mem_scan.mp hkv').2,
        fun hp => ⟨kv, Bucket.mem_scan.mpr ⟨hmem, hp⟩, rfl⟩⟩
    simp only [hscan]
  · -- a key the bucket does not hold is answered `none` either way
    have hnone : q.kvStore.bucketDelayedMsg.get k = none := by
      rw [Bucket.get_eq]
      exact OrderedMap.get_eq_none_iff.mpr fun kv hkv hk' => hk ⟨kv, hkv, hk'⟩
    rw [hnone]
    split_ifs <;> rfl

/-- After `emptyDelayedUntil dt peekTs id ch`, a key of `(dt, ch)` with a non-negative timestamp
that is still bound has a timestamp at or past the bound's. -/
theorem emptyDelayedUntil_left_ge {q q' : DelayQueue} (hch : ch.length < 2 ^ 16)
    (hpeek : 0 ≤ peekTs.toInt) (hwf : MsgKeysWellFormed q.kvStore.bucketDelayedMsg)
    (h : q.emptyDelayedUntil dt peekTs id ch = some q') {ts : Int64} {id' : UInt64}
    {v : List UInt8} (hts : 0 ≤ ts.toInt)
    (hv : q'.kvStore.bucketDelayedMsg.get (getDelayedMsgDBKey dt ch ts id') = some v) :
    peekTs.toInt ≤ ts.toInt := by
  obtain ⟨q'', hq'', hget⟩ := emptyDelayedUntil_get q hch hpeek hwf
  rw [h] at hq''
  cases hq''
  rw [hget] at hv
  by_cases hbelow : getDelayedMsgDBPrefixKey dt ch <+: getDelayedMsgDBKey dt ch ts id' ∧
      compare (getDelayedMsgDBKey dt ch ts id') (getDelayedMsgDBKey dt ch peekTs id) = .lt
  · rw [if_pos hbelow] at hv
    cases hv
  · -- a key of the channel that is not below the bound is at or past it
    have hnlt : ¬ compare (getDelayedMsgDBKey dt ch ts id')
        (getDelayedMsgDBKey dt ch peekTs id) = .lt :=
      fun hlt => hbelow ⟨ getDelayedMsgDBPrefixKey_prefix _ _ _ _, hlt⟩
    rw [compare_getDelayedMsgDBKey_lt_iff _ _ hts hpeek id' id] at hnlt
    by_contra hlt
    refine hnlt ⟨fun hgt => hlt (le_of_lt (Int64.lt_iff_toInt_lt.mp hgt)), fun hrel => hlt ?_⟩
    exact le_of_eq (by rw [hrel.1])

end EmptyUntil

/-- The keys of the delayed queue for a type in `[0, 2 ^ 16)` and channels shorter than
`2 ^ 16` bytes: they decode to what they encode, a prefix starts a key exactly when it is of the
key's type and channel, the keys of one type and channel sort by `(uint64(ts), id)` (by `(ts, id)`
for non-negative timestamps, also along a scan), and `emptyDelayedUntil` deletes exactly the keys
of its type and channel below its bound. -/
theorem delayedKeys_exact_ordered (dt dt' : Int) (hdt : 0 ≤ dt ∧ dt < 2 ^ 16)
    (hdt' : 0 ≤ dt' ∧ dt' < 2 ^ 16) (ch ch' : List UInt8) (hch : ch.length < 2 ^ 16)
    (ts ts' : Int64) (id id' : UInt64) :
    decodeDelayedMsgDBKey (getDelayedMsgDBKey dt ch ts id) = some (.ok (UInt16.ofInt dt, ts, id, ch)) ∧
    decodeDelayedMsgDBIndexKey (getDelayedMsgDBIndexKey dt ch id) = some (.ok (UInt16.ofInt dt, id, ch)) ∧
    ((UInt16.ofInt dt).toNat : Int) = dt ∧
    (getDelayedMsgDBPrefixKey dt' ch' <+: getDelayedMsgDBKey dt ch ts id ↔ dt' = dt ∧ ch' = ch) ∧
    (getDelayedMsgDBPrefixKey dt' ch' <+: getDelayedMsgDBIndexKey dt ch id ↔ dt' = dt ∧ ch' = ch) ∧
    compare (getDelayedMsgDBKey dt ch ts id) (getDelayedMsgDBKey dt ch ts' id') =
      (compare ts.toUInt64 ts'.toUInt64).then (compare id id') ∧
    (0 ≤ ts.toInt → 0 ≤ ts'.toInt →
      compare (getDelayedMsgDBKey dt ch ts id) (getDelayedMsgDBKey dt ch ts' id') =
        (compare ts.toInt ts'.toInt).then (compare id id')) ∧
    (∀ b : Bucket, MsgKeysWellFormed b →
      (b.scan (getDelayedMsgDBPrefixKey dt ch)).Pairwise fun kv kv' =>
        ∃ ts id ts' id', kv.1 = getDelayedMsgDBKey dt ch ts id ∧
          kv'.1 = getDelayedMsgDBKey dt ch ts' id' ∧
          (compare ts.toInt ts'.toInt).then (compare id id') = .lt) ∧
    (∀ q : DelayQueue, MsgKeysWellFormed q.kvStore.bucketDelayedMsg → 0 ≤ ts.toInt →
      ∃ q', q.emptyDelayedUntil dt ts id ch = some q' ∧
        ∀ k, q'.kvStore.bucketDelayedMsg.get k =
          if getDelayedMsgDBPrefixKey dt ch <+: k ∧
              compare k (getDelayedMsgDBKey dt ch ts id) = .lt then none
          else q.kvStore.bucketDelayedMsg.get k) := by
  -- on `[0, 2 ^ 16)` a type is its `uint16`, so agreeing as `uint16` is agreeing
  have hdt16 : ((UInt16.ofInt dt).toNat : Int) = dt := by
    simp [UInt16.ofInt]
    omega
  have htype : UInt16.ofInt dt' = UInt16.ofInt dt ↔ dt' = dt := by
    refine ⟨fun h => ?_, fun h => h ▸ rfl⟩
    have h' := congrArg UInt16.toNat h
    simp [UInt16.ofInt] at h'
    omega
  have hprefix : ∀ extra : List UInt8, extra.length < 2 ^ 16 →
      (getDelayedMsgDBPrefixKey dt' ch' <+: getDelayedMsgDBPrefixKey dt ch ++ extra ↔
        dt' = dt ∧ ch' = ch) := fun extra hextra => by
    rw [prefix_append_iff hch hextra, getDelayedMsgDBPrefixKey_eq_iff, htype]
  refine ⟨decodeDelayedMsgDBKey_getDelayedMsgDBKey dt ch ts id hch,
    decodeDelayedMsgDBIndexKey_getDelayedMsgDBIndexKey dt ch id hch, hdt16, ?_, ?_,
    compare_getDelayedMsgDBKey dt ch ts ts' id id',
    fun h h' => compare_getDelayedMsgDBKey_of_nonneg dt ch h h' id id',
    fun b hwf => scan_increasing hwf dt ch,
    fun q hwf hts => emptyDelayedUntil_get q hch hts hwf⟩
  · rw [getDelayedMsgDBKey_eq]
    exact hprefix _ (by simp)
  · rw [getDelayedMsgDBIndexKey_eq]
    exact hprefix _ (by simp)

/-! ## What a put stores -/

section PutTx

open ExceptBind

variable {m : Codec.Message} {buf : List UInt8} {dend : Int} {isExt : Bool} {tx tx' : Store}

/-- A `Put` that succeeds took a value within `MaxValueSize`. -/
theorem Bucket.put_value_le {b b' : Bucket} {k v : List UInt8} (h : b.put k v = .ok b') :
    v.length ≤ maxValueSize := by
  rw [Bucket.put_eq] at h
  split_ifs at h with _ _ hv
  exact not_lt.mp hv

/-- `db.Update` keeps what a transaction wrote when it answers no error. -/
theorem update_eq_none {s s' : Store} {f : Store → Except StoreError Store}
    (h : update s f = (s', none)) : f s = .ok s' := by
  rw [update_eq] at h
  split at h
  · rename_i hf
    cases h
    exact hf
  · cases h

/-- A failed `db.Update` leaves the store as it was. -/
theorem update_eq_some {s s' : Store} {f : Store → Except StoreError Store} {e : StoreError}
    (h : update s f = (s', some e)) : s' = s := by
  rw [update_eq] at h
  split at h <;> cases h
  rfl

/-- The store part of a put writes the message's bytes under its key and no other message key;
they were there already, or within `MaxValueSize`. -/
theorem storeMessage_get (h : storeMessage m buf isExt tx = .ok tx') :
    (∀ k, tx'.bucketDelayedMsg.get k =
      if k = getDelayedMsgDBKey m.delayedType.toInt m.delayedChannel m.delayedTs m.id then some buf
      else tx.bucketDelayedMsg.get k) ∧
    (tx.bucketDelayedMsg.get (getDelayedMsgDBKey m.delayedType.toInt m.delayedChannel m.delayedTs m.id) =
      some buf ∨ buf.length ≤ maxValueSize) := by
  unfold storeMessage at h
  dsimp only at h
  split at h
  · -- the same bytes are there: nothing is written
    rename_i hsame
    cases h
    refine ⟨fun k => ?_, .inl hsame⟩
    split_ifs with hk
    · rw [hk, hsame]
    · rfl
  · obtain ⟨b, hb, h⟩ := bind_eq_ok h
    have hput := mapError_eq_ok.mp hb
    -- the old value's index entry goes and the new one is written: the message bucket is the one
    -- just put
    have hmsgs : tx'.bucketDelayedMsg = b := by
      split at h
      all_goals
        obtain ⟨tx₂, h₂, h⟩ := bind_eq_ok h
        obtain ⟨_, -, h⟩ := bind_eq_ok h
        cases h
      · exact (deleteMsgIndex_bucketDelayedMsg h₂ :)
      · cases h₂
        rfl
    exact ⟨fun k => by rw [hmsgs, Bucket.get_put_of_ok hput k], .inr (Bucket.put_value_le hput)⟩

theorem countMessage_bucketDelayedMsg (h : countMessage m tx = .ok tx') :
    tx'.bucketDelayedMsg = tx.bucketDelayedMsg := by
  unfold countMessage at h
  obtain ⟨_, -, h⟩ := bind_eq_ok h
  cases h
  rfl

/-- `put`'s transaction, when it succeeds, is its store part on the message bucket. -/
theorem putTx_get (h : putTx m buf dend isExt tx = .ok tx') :
    (∀ k, tx'.bucketDelayedMsg.get k =
      if k = getDelayedMsgDBKey m.delayedType.toInt m.delayedChannel m.delayedTs m.id then some buf
      else tx.bucketDelayedMsg.get k) ∧
    (tx.bucketDelayedMsg.get (getDelayedMsgDBKey m.delayedType.toInt m.delayedChannel m.delayedTs m.id) =
      some buf ∨ buf.length ≤ maxValueSize) := by
  unfold putTx at h
  obtain ⟨tx₁, h₁, h⟩ := bind_eq_ok h
  -- counting the message and recording the offset write the meta bucket only
  have hmsgs : tx'.bucketDelayedMsg = tx₁.bucketDelayedMsg := by
    dsimp only at h
    split at h
    all_goals
      obtain ⟨tx₂, h₂, h⟩ := bind_eq_ok h
      obtain ⟨_, -, h⟩ := bind_eq_ok h
      cases h
    · cases h₂
      rfl
    · exact (countMessage_bucketDelayedMsg h₂ :)
  obtain ⟨hget, hfits⟩ := storeMessage_get h₁
  exact ⟨fun k => by rw [← hget k, ← hmsgs], hfits⟩

end PutTx

/-! ## Loops that only delete -/

/-- Every binding of `b'` is one of `b`. -/
def Bucket.Shrinks (b' b : Bucket) : Prop := ∀ k v, b'.get k = some v → b.get k = some v

theorem Bucket.Shrinks.refl (b : Bucket) : b.Shrinks b := fun _ _ h => h

theorem Bucket.Shrinks.trans {b₁ b₂ b₃ : Bucket} (h₁ : b₁.Shrinks b₂) (h₂ : b₂.Shrinks b₃) :
    b₁.Shrinks b₃ := fun k v h => h₂ k v (h₁ k v h)

theorem Bucket.shrinks_delete (b : Bucket) (k : List UInt8) : (b.delete k).Shrinks b := by
  intro k' v h
  rw [Bucket.get_delete] at h
  split_ifs at h
  exact h

/-- A key that a shrunk bucket has lost stays lost. -/
theorem Bucket.Shrinks.get_eq_none {b' b : Bucket} (h : b'.Shrinks b) {k : List UInt8}
    (hk : b.get k = none) : b'.get k = none := by
  cases hb' : b'.get k with
  | none => rfl
  | some v => rw [h k v hb'] at hk; cases hk

theorem deleteBucketKey_shrinks (dt : Int) (ch : List UInt8) (ts : Int64) (id : UInt64) (tx : Store)
    (isExt : Bool) : (deleteBucketKey dt ch ts id tx isExt).1.bucketDelayedMsg.Shrinks tx.bucketDelayedMsg := by
  rw [deleteBucketKey_bucketDelayedMsg]
  exact Bucket.shrinks_delete _ _

/-- `emptyDelayedUntil`'s loop only deletes, whatever keys it walks. -/
theorem emptyDelayedUntilLoop_shrinks (dt : Int) (peekTs : Int64) (id : UInt64) (ch : List UInt8)
    (isExt : Bool) : ∀ (L : List (List UInt8 × List UInt8)) (tx tx' : Store),
      emptyDelayedUntilLoop dt peekTs id ch isExt tx L = some tx' →
        tx'.bucketDelayedMsg.Shrinks tx.bucketDelayedMsg
  | [], tx, tx', h => by
    cases h
    exact .refl _
  | (k, _) :: rest, tx, tx', h => by
    rw [emptyDelayedUntilLoop] at h
    split at h
    · cases h
    · exact emptyDelayedUntilLoop_shrinks dt peekTs id ch isExt rest tx tx' h
    · split_ifs at h
      · cases h
        exact .refl _
      · cases h
        exact .refl _
      · exact emptyDelayedUntilLoop_shrinks dt peekTs id ch isExt rest tx tx' h
      · exact (emptyDelayedUntilLoop_shrinks dt peekTs id ch isExt rest _ tx' h).trans
          (deleteBucketKey_shrinks _ _ _ _ _ _)

/-- `emptyAllDelayedType`'s loop only deletes. -/
theorem emptyAllDelayedTypeLoop_shrinks (dt : Int) (ch : List UInt8) (isExt : Bool) :
    ∀ (L : List (List UInt8 × List UInt8)) (tx tx' : Store),
      emptyAllDelayedTypeLoop dt ch isExt tx L = some tx' →
        tx'.bucketDelayedMsg.Shrinks tx.bucketDelayedMsg
  | [], tx, tx', h => by
    cases h
    exact .refl _
  | (k, _) :: rest, tx, tx', h => by
    rw [emptyAllDelayedTypeLoop] at h
    split at h
    · cases h
    · exact emptyAllDelayedTypeLoop_shrinks dt ch isExt rest tx tx' h
    · split_ifs at h
      · exact emptyAllDelayedTypeLoop_shrinks dt ch isExt rest tx tx' h
      · exact emptyAllDelayedTypeLoop_shrinks dt ch isExt rest tx tx' h
      · exact (emptyAllDelayedTypeLoop_shrinks dt ch isExt rest _ tx' h).trans
          (deleteBucketKey_shrinks _ _ _ _ _ _)

/-- `emptyAllDelayedType`'s loop over keys of its type and a channel shorter than `2 ^ 16` bytes
deletes every one of them. -/
theorem emptyAllDelayedTypeLoop_clears (dt : Int) {ch : List UInt8} (isExt : Bool)
    (hch : ch.length < 2 ^ 16) : ∀ (L : List (List UInt8 × List UInt8)) (tx tx' : Store),
      emptyAllDelayedTypeLoop dt ch isExt tx L = some tx' →
      (∀ b ∈ L, ∃ ts id, b.1 = getDelayedMsgDBKey dt ch ts id) →
      ∀ b ∈ L, tx'.bucketDelayedMsg.get b.1 = none
  | [], _, _, _, _ => by simp
  | (k, v) :: rest, tx, tx', h, hL => by
    obtain ⟨ts, id, hk⟩ := hL (k, v) List.mem_cons_self
    dsimp only at hk
    subst hk
    rw [emptyAllDelayedTypeLoop, decodeDelayedMsgDBKey_getDelayedMsgDBKey dt ch ts id hch] at h
    dsimp only at h
    rw [if_neg (fun h => h rfl), if_neg (fun h => h.2 rfl)] at h
    -- the key deleted is the key met: its type read back is its own
    have hdel : (deleteBucketKey (UInt16.ofInt dt).toNat ch ts id tx isExt).1.bucketDelayedMsg.get
        (getDelayedMsgDBKey dt ch ts id) = none := by
      rw [deleteBucketKey_bucketDelayedMsg, Bucket.get_delete,
        getDelayedMsgDBKey_congr (uint16_ofInt_toNat _) ch ts id, if_pos rfl]
    intro b hb
    rcases List.mem_cons.mp hb with rfl | hb
    · exact (emptyAllDelayedTypeLoop_shrinks dt ch isExt rest _ tx' h).get_eq_none hdel
    · exact emptyAllDelayedTypeLoop_clears dt isExt hch rest _ tx' h
        (fun b hb => hL b (List.mem_cons_of_mem _ hb)) b hb

end Store

/-- The prefix of channel `"a"` does not start a key of channel `"ab"`. -/
theorem delayedKeys_exact_ordered_channel_ab :
    (0 ≤ (1 : Int) ∧ (1 : Int) < 2 ^ 16) ∧ ([97, 98] : List UInt8).length < 2 ^ 16 ∧
      ¬ getDelayedMsgDBPrefixKey 1 [97] <+: getDelayedMsgDBKey 1 [97, 98] 5 7 := by
  refine ⟨⟨by decide, by decide⟩, by decide, fun h => ?_⟩
  have hiff := (delayedKeys_exact_ordered 1 1 ⟨by decide, by decide⟩ ⟨by decide, by decide⟩
    [97, 98] [97] (by decide) 5 5 7 7).2.2.2.1
  exact absurd (hiff.mp h).2 (by decide)

/-- A negative type is written as its `uint16`: the key of type `-1` decodes to type `65535` and
lies under the prefix of type `65535`. -/
theorem getDelayedMsgDBKey_negative_type :
    decodeDelayedMsgDBKey (getDelayedMsgDBKey (-1) [] 0 0) = some (.ok (65535, 0, 0, [])) ∧
      getDelayedMsgDBPrefixKey 65535 [] <+: getDelayedMsgDBKey (-1) [] 0 0 ∧
      ((65535 : UInt16).toNat : Int) ≠ -1 := by
  have htype : UInt16.ofInt (-1) = UInt16.ofInt 65535 := by decide
  refine ⟨?_, ?_, by decide⟩
  · rw [decodeDelayedMsgDBKey_getDelayedMsgDBKey (-1) [] 0 0 (by decide), htype]
    rfl
  · rw [getDelayedMsgDBKey_congr htype]
    exact getDelayedMsgDBPrefixKey_prefix 65535 [] 0 0

/-! ## The peek loop -/

section Peek

variable (results : Nat) (peekTs : Int64) (isExt : Bool)

/-- Once the peek holds an oldest timestamp, or is not a channel peek, the loop answers the one
it started with. -/
theorem peekLoop_oldest_keep (filterType : Int) (filterChannel : List UInt8) :
    ∀ (L : List (List UInt8 × List UInt8)) (oldest : Int64) (acc : List Codec.Message) r,
      (oldest ≠ 0 ∨ ¬ (filterType = Codec.channelDelayed.toInt ∧ filterChannel ≠ [])) →
      peekLoop results peekTs filterType filterChannel isExt oldest acc L = some r → r.2 = oldest
  | [], _, _, _, _, h => by
    cases h
    rfl
  | (k, v) :: rest, oldest, acc, r, hk, h => by
    have hkeep : ∀ ts : Int64, (if oldest = 0 ∧ filterType = Codec.channelDelayed.toInt ∧
        filterChannel ≠ [] then ts else oldest) = oldest := fun _ => if_neg (by tauto)
    rw [peekLoop] at h
    split at h
    · cases h
    · exact peekLoop_oldest_keep filterType filterChannel rest oldest acc r hk h
    · simp only [hkeep] at h
      split_ifs at h
      · cases h
        rfl
      · exact peekLoop_oldest_keep filterType filterChannel rest oldest acc r hk h
      · split at h
        · exact peekLoop_oldest_keep filterType filterChannel rest oldest acc r hk h
        · split_ifs at h
          · exact peekLoop_oldest_keep filterType filterChannel rest oldest acc r hk h
          · exact peekLoop_oldest_keep filterType filterChannel rest oldest _ r hk h

/-- A channel peek that starts without an oldest timestamp takes the first key's, when it is not
zero. -/
theorem peekLoop_oldest_first {filterChannel : List UInt8} (hfc : filterChannel ≠ [])
    {k v : List UInt8} {rest : List (List UInt8 × List UInt8)} {acc : List Codec.Message} {r}
    {t : UInt16} {ts : Int64} {id : UInt64} {ch : List UInt8}
    (hk : decodeDelayedMsgDBKey k = some (.ok (t, ts, id, ch))) (hts : ts ≠ 0)
    (h : peekLoop results peekTs Codec.channelDelayed.toInt filterChannel isExt 0 acc ((k, v) :: rest) =
      some r) : r.2 = ts := by
  rw [peekLoop, hk] at h
  dsimp only at h
  have hrec : (0 : Int64) = 0 ∧ Codec.channelDelayed.toInt = Codec.channelDelayed.toInt ∧
      filterChannel ≠ [] := ⟨rfl, rfl, hfc⟩
  rw [if_pos hrec] at h
  have hkeep := peekLoop_oldest_keep results peekTs isExt Codec.channelDelayed.toInt filterChannel rest ts
  split_ifs at h
  · cases h
    rfl
  · exact hkeep acc r (.inl hts) h
  · split at h
    · exact hkeep acc r (.inl hts) h
    · split_ifs at h
      · exact hkeep acc r (.inl hts) h
      · exact hkeep _ r (.inl hts) h

/-- The binding of the message key of `ChannelDelayed` and `ch` at a timestamp and an ID, with the
value it holds. -/
def channelBinding (ch : List UInt8) (e : Int64 × UInt64 × List UInt8) : List UInt8 × List UInt8 :=
  (getDelayedMsgDBKey Codec.channelDelayed.toInt ch e.1 e.2.1, e.2.2)

/-- An entry's timestamp, ID and message, when its value decodes to a channel-delayed message. -/
def dueSel (isExt : Bool) (e : Int64 × UInt64 × List UInt8) : Option (Int64 × UInt64 × Codec.Message) :=
  match decodeStored e.2.2 isExt with
  | .ok d => if d.delayedType = Codec.channelDelayed then some (e.1, e.2.1, d) else none
  | .error _ => none

/-- Entries sorted by timestamp whose first is past `peekTs` have none due. -/
theorem filter_due_eq_nil {e : Int64 × UInt64 × List UInt8} {rest : List (Int64 × UInt64 × List UInt8)}
    (hafter : ∀ e' ∈ rest, e.1 ≤ e'.1) (hgt : e.1 > peekTs) :
    ((e :: rest).filter fun e => e.1 ≤ peekTs) = [] := by
  rw [List.filter_eq_nil_iff]
  intro e' he'
  have hle : e.1.toInt ≤ e'.1.toInt := by
    rcases List.mem_cons.mp he' with rfl | he'
    · exact le_rfl
    · exact Int64.le_iff_toInt_le.mp (hafter e' he')
  have hgt' := Int64.lt_iff_toInt_lt.mp hgt
  simp only [decide_eq_true_eq, Int64.le_iff_toInt_le]
  omega

/-- A channel peek over the keys of its channel, by timestamp: it answers, after what it holds,
the channel-delayed messages of the entries due at `peekTs`, in the keys' order, until it holds
`results`. -/
theorem peekLoop_channel {ch : List UInt8} (hch : ch.length < 2 ^ 16) :
    ∀ (T : List (Int64 × UInt64 × List UInt8)) (oldest : Int64) (acc : List Codec.Message),
      T.Pairwise (fun e e' => e.1 ≤ e'.1) →
      ∃ oldest', peekLoop results peekTs Codec.channelDelayed.toInt ch isExt oldest acc
          (T.map (channelBinding ch)) =
        some (acc ++ ((((T.filter fun e => e.1 ≤ peekTs).filterMap (dueSel isExt)).map
          fun e => e.2.2).take (results - acc.length)), oldest')
  | [], oldest, acc, _ => ⟨oldest, by simp [peekLoop]⟩
  | e :: rest, oldest, acc, hs => by
    obtain ⟨hafter, hrest⟩ := List.pairwise_cons.mp hs
    rw [List.map_cons, peekLoop, channelBinding,
      decodeDelayedMsgDBKey_getDelayedMsgDBKey _ _ _ _ hch]
    dsimp only
    by_cases hstop : e.1 > peekTs ∨ acc.length ≥ results
    · -- the loop stops: nothing from here on is due, or nothing more fits
      rw [if_pos hstop]
      have hnil : (((((e :: rest).filter fun e => e.1 ≤ peekTs).filterMap (dueSel isExt)).map
          fun e => e.2.2).take (results - acc.length)) = [] := by
        rcases hstop with hgt | hge
        · rw [filter_due_eq_nil peekTs hafter hgt, List.filterMap_nil, List.map_nil, List.take_nil]
        · rw [Nat.sub_eq_zero_of_le hge, List.take_zero]
      exact ⟨_, by rw [hnil, List.append_nil]⟩
    · obtain ⟨hle, hlen⟩ := not_or.mp hstop
      rw [if_neg hstop, if_neg (fun h => h.2 rfl)]
      have hfilter : ((e :: rest).filter fun e => e.1 ≤ peekTs) =
          e :: (rest.filter fun e => e.1 ≤ peekTs) :=
        List.filter_cons_of_pos (by simpa using hle)
      rw [hfilter]
      cases hd : decodeStored e.2.2 isExt with
      | error err =>
        -- a value that does not decode is passed over
        have hsel : dueSel isExt e = none := by simp [dueSel, hd]
        dsimp only
        rw [List.filterMap_cons_none hsel]
        exact peekLoop_channel hch rest _ acc hrest
      | ok d =>
        dsimp only
        by_cases htype : d.delayedType = Codec.channelDelayed
        · -- a channel-delayed message is taken
          have hsel : dueSel isExt e = some (e.1, e.2.1, d) := by simp [dueSel, hd, htype]
          rw [if_neg (fun h => h.2 (by rw [htype])), List.filterMap_cons_some hsel]
          obtain ⟨o, ho⟩ := peekLoop_channel hch rest _ (acc ++ [d]) hrest
          refine ⟨o, ho.trans ?_⟩
          have hsucc : results - acc.length = (results - (acc ++ [d]).length) + 1 := by
            simp only [List.length_append, List.length_singleton]
            omega
          rw [hsucc, List.map_cons, List.take_succ_cons, List.append_assoc, List.singleton_append]
        · -- a message of another type under the channel's prefix is passed over
          have hsel : dueSel isExt e = none := by simp [dueSel, hd, htype]
          rw [if_pos ⟨by decide, fun h => htype (Int32.toInt_inj.mp h).symm⟩,
            List.filterMap_cons_none hsel]
          exact peekLoop_channel hch rest _ acc hrest

end Peek

end Nsq.DelayQueue
