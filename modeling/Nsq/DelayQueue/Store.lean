import Mathlib.Data.List.TakeWhile
import Nsq.Lib.OrderedMap
import Nsq.DelayQueue.Keys

/-!
# The delayed queue's bolt store

The delayed queue keeps its messages in a bolt database of three buckets: `delayed_message`
maps a message key (type, channel, timestamp, ID) to the `WriteDelayedTo` bytes of the message,
`delayed_message_index` maps an index key (type, channel, original ID) to the timestamp and the
original ID, and `meta` holds a counter of messages per type and channel, under
`"counter_" ++ getDelayedMsgDBPrefixKey`, and the queue offset last synced.

bolt is not part of the repository. It is a parameter, `Bolt`: its operations on a bucket, seen
as its bindings in `bytes.Compare` order (`Bucket`), and on the store, with what bolt documents of
each as hypotheses. `Get` answers the value bound to a key; `Put` fails on an empty key, a key
above `MaxKeySize` and a value above `MaxValueSize`, and otherwise binds the key; `Delete` unbinds
it and does not fail; a cursor from `Seek(k)` visits the bindings from the first key at or above
`k`, in order; and `db.Update` keeps what its transaction wrote only when it answers no error.
On the bindings that determines each operation: it does what the functions of `OrderedMap` do
(`Bucket.put_eq` and its neighbours in `Nsq.DelayQueue.StoreSpec`). What follows holds for every
such bolt; concrete runs use `Bolt.lists`, the one by those functions.

A cursor loop `for k, v := c.Seek(prefix); k != nil && bytes.HasPrefix(k, prefix); k, v =
c.Next()` visits the bindings `Bucket.scan` lists. The loops that delete while they scan walk the
keys the bucket held when the scan began; bolt leaves a cursor's position unspecified after a
write under it, and this is the order the code is written for.

The key decoders answer `none` when they read past a key's end (where Go panics or reads past the
slice); a loop that meets such a key answers `none`.
-/

namespace Nsq.DelayQueue

open Nsq.Codec

/-- The ways bolt's `Put` fails in a writable transaction. -/
inductive BoltError where
  /-- `ErrKeyRequired`: `key required`. -/
  | keyRequired
  /-- `ErrKeyTooLarge`: `key too large`. -/
  | keyTooLarge
  /-- `ErrValueTooLarge`: `value too large`. -/
  | valueTooLarge
  deriving DecidableEq, Repr

/-- bolt's `MaxKeySize`. -/
def maxKeySize : Nat := 32768

/-- bolt's `MaxValueSize`. -/
def maxValueSize : Nat := 2 ^ 31 - 2

/-- A bolt bucket, seen as its bindings in `bytes.Compare` order: what a cursor visits from
`First()` by `Next`. -/
@[ext]
structure Bucket where
  bindings : List (List UInt8 × List UInt8)
  sorted : OrderedMap.Sorted bindings

/-- A bucket just created. -/
def Bucket.empty : Bucket := ⟨[], List.Pairwise.nil⟩

/-- The three buckets. -/
structure Store where
  /-- `bucketDelayedMsg`: message key to the message's `WriteDelayedTo` bytes. -/
  bucketDelayedMsg : Bucket
  /-- `bucketDelayedMsgIndex`: index key to `getDelayedMsgDBIndexValue`. -/
  bucketDelayedMsgIndex : Bucket
  /-- `bucketMeta`: the counters and the synced offset. -/
  bucketMeta : Bucket

/-- The store `newDelayQueue` creates: three empty buckets. -/
def Store.empty : Store := ⟨.empty, .empty, .empty⟩

/-- How a store transaction fails. -/
inductive StoreError where
  | bolt (e : BoltError)
  /-- `DecodeDelayedMessage` of a stored value failed. -/
  | codec (e : CodecError)
  /-- `errors.New("key not found")`. -/
  | keyNotFound
  deriving DecidableEq, Repr

/-- bolt's operations on a bucket and `db.Update`, with what bolt documents of each. -/
class Bolt where
  /-- `Get` -/
  get : Bucket → List UInt8 → Option (List UInt8)
  /-- `Put` -/
  put : Bucket → List UInt8 → List UInt8 → Except BoltError Bucket
  /-- `Delete` -/
  delete : Bucket → List UInt8 → Bucket
  /-- What a cursor visits from `Seek(k)` by `Next`. -/
  seek : Bucket → List UInt8 → List (List UInt8 × List UInt8)
  /-- `db.Update` -/
  update : Store → (Store → Except StoreError Store) → Store × Option StoreError
  /-- `Get` answers the value bound to the key, and nil when there is none. -/
  get_eq_some : ∀ b k v, get b k = some v ↔ (k, v) ∈ b.bindings
  /-- `Put` answers `ErrKeyRequired` for an empty key, then `ErrKeyTooLarge` for a key above
  `MaxKeySize`, then `ErrValueTooLarge` for a value above `MaxValueSize`. -/
  put_keyRequired : ∀ b k v, k.length = 0 → put b k v = .error .keyRequired
  put_keyTooLarge : ∀ b k v, k.length ≠ 0 → maxKeySize < k.length → put b k v = .error .keyTooLarge
  put_valueTooLarge : ∀ b k v, k.length ≠ 0 → k.length ≤ maxKeySize → maxValueSize < v.length →
    put b k v = .error .valueTooLarge
  /-- Otherwise `Put` binds the key to the value, in place of the value it had. -/
  put_ok : ∀ b k v, k.length ≠ 0 → k.length ≤ maxKeySize → v.length ≤ maxValueSize →
    ∃ b', put b k v = .ok b' ∧ ∀ kv, kv ∈ b'.bindings ↔ kv = (k, v) ∨ (kv ∈ b.bindings ∧ kv.1 ≠ k)
  /-- `Delete` removes the key's binding, if there is one. -/
  mem_delete : ∀ b k kv, kv ∈ (delete b k).bindings ↔ kv ∈ b.bindings ∧ kv.1 ≠ k
  /-- `Seek(k)` positions the cursor at the first key at or above `k`, and `Next` walks on in key
  order. -/
  seek_split : ∀ b k, ∃ pre, pre ++ seek b k = b.bindings ∧ (∀ kv ∈ pre, compare kv.1 k = .lt) ∧
    ∀ kv ∈ seek b k, compare kv.1 k ≠ .lt
  /-- `db.Update` commits what its transaction wrote when it answers no error, and rolls all of
  it back when it answers one. -/
  update_ok : ∀ s s' tx, tx s = .ok s' → update s tx = (s', none)
  update_error : ∀ s e tx, tx s = .error e → update s tx = (s, some e)

/-- The bolt of concrete runs, by the functions of `OrderedMap`. -/
instance Bolt.lists : Bolt where
  get b k := OrderedMap.get b.bindings k
  put b k v :=
    if k.length = 0 then .error .keyRequired
    else if k.length > maxKeySize then .error .keyTooLarge
    else if v.length > maxValueSize then .error .valueTooLarge
    else .ok ⟨OrderedMap.put b.bindings k v, b.sorted.put k v⟩
  delete b k := ⟨OrderedMap.delete b.bindings k, b.sorted.delete k⟩
  seek b k := OrderedMap.seek b.bindings k
  update s tx :=
    match tx s with
    | .ok s' => (s', none)
    | .error e => (s, some e)
  get_eq_some b k v := (OrderedMap.mem_iff_get b.sorted (b := (k, v))).symm
  put_keyRequired _ _ _ hk := if_pos hk
  put_keyTooLarge _ _ _ hk hks := by simp only [if_neg hk, gt_iff_lt, if_pos hks]
  put_valueTooLarge _ _ _ hk hks hv := by
    simp only [if_neg hk, gt_iff_lt, if_neg (not_lt.mpr hks), if_pos hv]
  put_ok b k v hk hks hv := ⟨⟨OrderedMap.put b.bindings k v, b.sorted.put k v⟩,
    by simp only [if_neg hk, gt_iff_lt, if_neg (not_lt.mpr hks), if_neg (not_lt.mpr hv)],
    fun _ => OrderedMap.mem_put_iff b.sorted⟩
  mem_delete b _ _ := OrderedMap.mem_delete_iff b.sorted
  seek_split b k := ⟨b.bindings.takeWhile fun kv => compare kv.1 k == .lt,
    List.takeWhile_append_dropWhile, fun _ hkv => by simpa using List.mem_takeWhile_imp hkv,
    fun _ hkv => OrderedMap.not_lt_of_mem_seek b.sorted hkv⟩
  update_ok _ _ _ h := by simp only [h]
  update_error _ _ _ h := by simp only [h]

variable [Bolt]

namespace Bucket

/-- `Get` -/
def get (b : Bucket) (k : List UInt8) : Option (List UInt8) := Bolt.get b k

/-- `Put` -/
def put (b : Bucket) (k v : List UInt8) : Except BoltError Bucket := Bolt.put b k v

/-- `Delete` -/
def delete (b : Bucket) (k : List UInt8) : Bucket := Bolt.delete b k

/-- What a cursor loop from `Seek(pfx)` visits while its key starts with `pfx`. -/
def scan (b : Bucket) (pfx : List UInt8) : List (List UInt8 × List UInt8) :=
  (Bolt.seek b pfx).takeWhile fun kv => pfx.isPrefixOf kv.1

end Bucket

/-- `db.Update`: the transaction's writes are kept when it answers no error. -/
def update (s : Store) (tx : Store → Except StoreError Store) : Store × Option StoreError :=
  Bolt.update s tx

/-- `DecodeDelayedMessage` of a stored value (the model's decoder reads within its input, so its
`none` does not occur: `decodeDelayedMessage_ne_none`). -/
def decodeStored (b : List UInt8) (isExt : Bool) : Except CodecError Codec.Message :=
  (decodeDelayedMessage b isExt).getD (.error (.invalidBufferSize b.length))

/-- `"counter_"` -/
def counterPrefix : List UInt8 := [99, 111, 117, 110, 116, 101, 114, 95]

/-- `syncedOffsetKey`: `"synced_offset"`. -/
def syncedOffsetKey : List UInt8 := [115, 121, 110, 99, 101, 100, 95, 111, 102, 102, 115, 101, 116]

/-- The meta key of the counter of a type and channel. -/
def counterKey (dt : Int) (ch : List UInt8) : List UInt8 := counterPrefix ++ getDelayedMsgDBPrefixKey dt ch

/-- A counter as the code reads it: eight big-endian bytes, and zero otherwise. -/
def readCounter : Option (List UInt8) → UInt64
  | some b => if b.length = 8 then UInt64.ofNat (BigEndian.decode b) else 0
  | none => 0

/-- `deleteMsgIndex`: remove the index entry of the message stored as `msgData`. -/
def deleteMsgIndex (msgData : List UInt8) (tx : Store) (isExt : Bool) : Except StoreError Store :=
  match decodeStored msgData isExt with
  | .error e => .error (.codec e)
  | .ok m =>
    let msgIndexKey := getDelayedMsgDBIndexKey m.delayedType.toInt m.delayedChannel m.delayedOrigID
    .ok { tx with bucketDelayedMsgIndex := tx.bucketDelayedMsgIndex.delete msgIndexKey }

/-- `deleteBucketKey`: remove a message key, then the index entry of the message it held, and
count it off. The key is removed before the index is read, so a failure after it leaves the key
removed; the transaction answers what it wrote together with the error. -/
def deleteBucketKey (dt : Int) (ch : List UInt8) (ts : Int64) (id : UInt64) (tx : Store)
    (isExt : Bool) : Store × Option StoreError :=
  let msgKey := getDelayedMsgDBKey dt ch ts id
  let oldV := tx.bucketDelayedMsg.get msgKey
  let tx := { tx with bucketDelayedMsg := tx.bucketDelayedMsg.delete msgKey }
  match oldV with
  | none => (tx, some .keyNotFound)
  | some oldV =>
    match deleteMsgIndex oldV tx isExt with
    | .error e => (tx, some e)
    | .ok tx =>
      let cntKey := counterKey dt ch
      let cnt := readCounter (tx.bucketMeta.get cntKey)
      if cnt > 0 then
        match tx.bucketMeta.put cntKey (BigEndian.encode 8 (cnt - 1).toNat) with
        | .error e => (tx, some (.bolt e))
        | .ok b => ({ tx with bucketMeta := b }, none)
      else (tx, none)

/-- The first part of `put`'s transaction: store the message's bytes under its key, drop the
index entry of the message it replaces, and index it by its original ID; nothing when the same
bytes are already there. -/
def storeMessage (m : Codec.Message) (buf : List UInt8) (isExt : Bool) (tx : Store) :
    Except StoreError Store := do
  let msgKey := getDelayedMsgDBKey m.delayedType.toInt m.delayedChannel m.delayedTs m.id
  let oldV := tx.bucketDelayedMsg.get msgKey
  if oldV = some buf then return tx
  let b ← (tx.bucketDelayedMsg.put msgKey buf).mapError .bolt
  let tx := { tx with bucketDelayedMsg := b }
  let tx ← match oldV with
    | some v => deleteMsgIndex v tx isExt
    | none => pure tx
  let newIndexKey := getDelayedMsgDBIndexKey m.delayedType.toInt m.delayedChannel m.delayedOrigID
  let b ← (tx.bucketDelayedMsgIndex.put newIndexKey
    (getDelayedMsgDBIndexValue m.delayedTs m.delayedOrigID)).mapError .bolt
  return { tx with bucketDelayedMsgIndex := b }

/-- The counter part of `put`'s transaction: one more message of its type and channel. -/
def countMessage (m : Codec.Message) (tx : Store) : Except StoreError Store := do
  let cntKey := counterKey m.delayedType.toInt m.delayedChannel
  let cnt := readCounter (tx.bucketMeta.get cntKey) + 1
  let b ← (tx.bucketMeta.put cntKey (BigEndian.encode 8 cnt.toNat)).mapError .bolt
  return { tx with bucketMeta := b }

/-- The decimal digits of `strconv.Itoa`. -/
def itoa (n : Int) : List UInt8 := (toString n).toUTF8.toList

/-- `put`'s transaction: store and index the message, count it when its key is new, and record
the synced offset `dend`. -/
def putTx (m : Codec.Message) (buf : List UInt8) (dend : Int) (isExt : Bool) (tx : Store) :
    Except StoreError Store := do
  let msgKey := getDelayedMsgDBKey m.delayedType.toInt m.delayedChannel m.delayedTs m.id
  let found := (tx.bucketDelayedMsg.get msgKey).isSome
  let tx ← storeMessage m buf isExt tx
  let tx ← if found then pure tx else countMessage m tx
  let b ← (tx.bucketMeta.put syncedOffsetKey (itoa dend)).mapError .bolt
  return { tx with bucketMeta := b }

/-- The loop of `emptyDelayedUntil` over the keys of `getDelayedMsgDBPrefixKey dt ch`, in order:
delete the entries of `ch` before `(peekTs, id)` and stop at the first that is not before it. -/
def emptyDelayedUntilLoop (dt : Int) (peekTs : Int64) (id : UInt64) (ch : List UInt8)
    (isExt : Bool) : Store → List (List UInt8 × List UInt8) → Option Store
  | tx, [] => some tx
  | tx, (k, _) :: rest =>
    match decodeDelayedMsgDBKey k with
    | none => none
    | some (.error _) => emptyDelayedUntilLoop dt peekTs id ch isExt tx rest
    | some (.ok (_, delayedTs, delayedID, delayedCh)) =>
      if delayedTs > peekTs then some tx
      else if delayedTs = peekTs ∧ delayedID ≥ id then some tx
      else if delayedCh ≠ ch then emptyDelayedUntilLoop dt peekTs id ch isExt tx rest
      -- a failed delete is logged and the loop goes on, with what the delete wrote
      else emptyDelayedUntilLoop dt peekTs id ch isExt
        (deleteBucketKey dt ch delayedTs delayedID tx isExt).1 rest

/-- The loop of `emptyAllDelayedType` over the keys of `getDelayedMsgDBPrefixKey dt ch`: delete
every entry of type `dt`, and of channel `ch` unless `ch` is empty. -/
def emptyAllDelayedTypeLoop (dt : Int) (ch : List UInt8) (isExt : Bool) :
    Store → List (List UInt8 × List UInt8) → Option Store
  | tx, [] => some tx
  | tx, (k, _) :: rest =>
    match decodeDelayedMsgDBKey k with
    | none => none
    | some (.error _) => emptyAllDelayedTypeLoop dt ch isExt tx rest
    | some (.ok (delayedType, delayedTs, delayedID, delayedCh)) =>
      if delayedType ≠ UInt16.ofInt dt then emptyAllDelayedTypeLoop dt ch isExt tx rest
      else if ch ≠ [] ∧ delayedCh ≠ ch then emptyAllDelayedTypeLoop dt ch isExt tx rest
      else emptyAllDelayedTypeLoop dt ch isExt
        (deleteBucketKey delayedType.toNat delayedCh delayedTs delayedID tx isExt).1 rest

/-- The loop of `PeekRecentTimeoutWithFilter`: collect, in key order, the messages due at
`peekTs` that pass the filters, up to `results` of them, and note the first timestamp seen when
the peek is for one channel. It answers the messages and that timestamp. -/
def peekLoop (results : Nat) (peekTs : Int64) (filterType : Int) (filterChannel : List UInt8)
    (isExt : Bool) : Int64 → List Codec.Message → List (List UInt8 × List UInt8) →
      Option (List Codec.Message × Int64)
  | oldest, acc, [] => some (acc, oldest)
  | oldest, acc, (k, v) :: rest =>
    match decodeDelayedMsgDBKey k with
    | none => none
    | some (.error _) => peekLoop results peekTs filterType filterChannel isExt oldest acc rest
    | some (.ok (_, delayedTs, _, delayedCh)) =>
      let oldest := if oldest = 0 ∧ filterType = Codec.channelDelayed.toInt ∧ filterChannel ≠ [] then
        delayedTs else oldest
      if delayedTs > peekTs ∨ acc.length ≥ results then some (acc, oldest)
      else if filterChannel ≠ [] ∧ delayedCh ≠ filterChannel then
        peekLoop results peekTs filterType filterChannel isExt oldest acc rest
      else
        match decodeStored v isExt with
        | .error _ => peekLoop results peekTs filterType filterChannel isExt oldest acc rest
        | .ok m =>
          if filterType ≥ 0 ∧ filterType ≠ m.delayedType.toInt then
            peekLoop results peekTs filterType filterChannel isExt oldest acc rest
          else peekLoop results peekTs filterType filterChannel isExt oldest (acc ++ [m]) rest

end Nsq.DelayQueue
