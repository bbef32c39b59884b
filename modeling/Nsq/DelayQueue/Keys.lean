import Nsq.Message.Codec

/-!
# The delayed queue's store keys

The delayed queue keeps its messages in a bolt store under keys that sort them by type, channel
and time: `uint16(dt) '-' uint16(len(ch)) ch` (`getDelayedMsgDBPrefixKey`), then the timestamp
and the ID (`getDelayedMsgDBKey`), or the original ID alone for the index from an original
message to its delayed copy (`getDelayedMsgDBIndexKey`). A channel shorter than `2 ^ 16` bytes
makes the prefix determine the channel, and the keys read back.

The decoders check that the input holds the fixed fields and then that it holds the channel, but
not that it holds the timestamp and ID that follow the channel: a key whose channel length points
past `len - 16` (`len - 8` for an index key) is read past its end. In this model such a read
answers `none`.
-/

namespace Nsq.DelayQueue

open ByteSlice Nsq.Codec

/-- The byte `'-'` between the type and the channel. -/
def sep : UInt8 := 45

/-- `getDelayedMsgDBIndexValue` -/
def getDelayedMsgDBIndexValue (ts : Int64) (id : UInt64) : List UInt8 :=
  [1] ++ BigEndian.encode 8 ts.toUInt64.toNat ++ BigEndian.encode 8 id.toNat

/-- `getDelayedMsgDBKey` -/
def getDelayedMsgDBKey (dt : Int) (ch : List UInt8) (ts : Int64) (id : UInt64) : List UInt8 :=
  BigEndian.encodeInt 2 dt ++ [sep] ++ BigEndian.encode 2 ch.length ++ ch ++
    BigEndian.encode 8 ts.toUInt64.toNat ++ BigEndian.encode 8 id.toNat

/-- `decodeDelayedMsgDBKey`: the type, timestamp, ID and channel of a message key. -/
def decodeDelayedMsgDBKey (b : List UInt8) :
    Option (Except String (UInt16 × Int64 × UInt64 × List UInt8)) := do
  if b.length < 2 + 1 + 2 + 8 + 8 then return .error "invalid buffer length"
  let dt ← uintAt? b 0 2
  let chLen ← uintAt? b 3 2
  if b.length < 5 + chLen then return .error "invalid buffer length"
  let ch ← slice? b 5 (5 + chLen)
  let ts ← uintAt? b (5 + chLen) 8
  let id ← uintAt? b (5 + chLen + 8) 8
  return .ok (UInt16.ofNat dt, (UInt64.ofNat ts).toInt64, UInt64.ofNat id, ch)

/-- `getDelayedMsgDBIndexKey` -/
def getDelayedMsgDBIndexKey (dt : Int) (ch : List UInt8) (id : UInt64) : List UInt8 :=
  BigEndian.encodeInt 2 dt ++ [sep] ++ BigEndian.encode 2 ch.length ++ ch ++
    BigEndian.encode 8 id.toNat

/-- `decodeDelayedMsgDBIndexKey`: the type, original ID and channel of an index key. -/
def decodeDelayedMsgDBIndexKey (b : List UInt8) :
    Option (Except String (UInt16 × UInt64 × List UInt8)) := do
  if b.length < 2 + 1 + 2 + 8 then return .error "invalid buffer length"
  let dt ← uintAt? b 0 2
  let chLen ← uintAt? b 3 2
  if b.length < 5 + chLen then return .error "invalid buffer length"
  let ch ← slice? b 5 (5 + chLen)
  let id ← uintAt? b (5 + chLen) 8
  return .ok (UInt16.ofNat dt, UInt64.ofNat id, ch)

/-- `getDelayedMsgDBPrefixKey` -/
def getDelayedMsgDBPrefixKey (dt : Int) (ch : List UInt8) : List UInt8 :=
  BigEndian.encodeInt 2 dt ++ [sep] ++ BigEndian.encode 2 ch.length ++ ch

/-- The channel length a key's bytes 3 and 4 give. -/
def keyChLen (b : List UInt8) : Nat := BigEndian.decode ((b.drop 3).take 2)

/-! ## Keys extend the prefix -/

theorem getDelayedMsgDBKey_eq (dt : Int) (ch : List UInt8) (ts : Int64) (id : UInt64) :
    getDelayedMsgDBKey dt ch ts id = getDelayedMsgDBPrefixKey dt ch ++
      (BigEndian.encode 8 ts.toUInt64.toNat ++ BigEndian.encode 8 id.toNat) := by
  simp [getDelayedMsgDBKey, getDelayedMsgDBPrefixKey]

theorem getDelayedMsgDBIndexKey_eq (dt : Int) (ch : List UInt8) (id : UInt64) :
    getDelayedMsgDBIndexKey dt ch id = getDelayedMsgDBPrefixKey dt ch ++
      BigEndian.encode 8 id.toNat := by
  simp [getDelayedMsgDBIndexKey, getDelayedMsgDBPrefixKey]

@[simp] theorem length_getDelayedMsgDBPrefixKey (dt : Int) (ch : List UInt8) :
    (getDelayedMsgDBPrefixKey dt ch).length = 5 + ch.length := by
  simp [getDelayedMsgDBPrefixKey, BigEndian.encodeInt]
  omega

/-! ## Which inputs the decoders read past -/

/-- A message key is read past its end exactly when it holds the fixed fields and the channel,
but not the timestamp and ID after the channel. -/
theorem decodeDelayedMsgDBKey_eq_none_iff (b : List UInt8) :
    decodeDelayedMsgDBKey b = none ↔
      21 ≤ b.length ∧ 5 + keyChLen b ≤ b.length ∧ b.length < 21 + keyChLen b := by
  unfold decodeDelayedMsgDBKey
  by_cases h₁ : b.length < 2 + 1 + 2 + 8 + 8
  · simp [h₁]
  rw [uintAt?_of_le (by omega), uintAt?_of_le (by omega)]
  simp only [h₁, if_false, Option.bind_eq_bind, Option.bind_some]
  rw [← keyChLen]
  by_cases h₂ : b.length < 5 + keyChLen b
  · simp [h₂]
  simp only [h₂, if_false]
  rw [slice?_of_le (by omega) (by omega)]
  by_cases h₃ : b.length < 21 + keyChLen b
  · have hts : uintAt? b (5 + keyChLen b + 8) 8 = none := uintAt?_eq_none_iff.mpr (by omega)
    simp [hts]
    omega
  · rw [uintAt?_of_le (by omega), uintAt?_of_le (by omega)]
    simp
    omega

/-- An index key is read past its end exactly when it holds the fixed fields and the channel,
but not the ID after the channel. -/
theorem decodeDelayedMsgDBIndexKey_eq_none_iff (b : List UInt8) :
    decodeDelayedMsgDBIndexKey b = none ↔
      13 ≤ b.length ∧ 5 + keyChLen b ≤ b.length ∧ b.length < 13 + keyChLen b := by
  unfold decodeDelayedMsgDBIndexKey
  by_cases h₁ : b.length < 2 + 1 + 2 + 8
  · simp [h₁]
  rw [uintAt?_of_le (by omega), uintAt?_of_le (by omega)]
  simp only [h₁, if_false, Option.bind_eq_bind, Option.bind_some]
  rw [← keyChLen]
  by_cases h₂ : b.length < 5 + keyChLen b
  · simp [h₂]
  simp only [h₂, if_false]
  rw [slice?_of_le (by omega) (by omega)]
  by_cases h₃ : b.length < 13 + keyChLen b
  · have hid : uintAt? b (5 + keyChLen b) 8 = none := uintAt?_eq_none_iff.mpr (by omega)
    simp [hid]
    omega
  · rw [uintAt?_of_le (by omega)]
    simp
    omega

/-! ## Keys read back -/

/-- The type of a key, as the prefix writes it and a decoder reads it back. -/
theorem uintAt?_encodeInt (dt : Int) (q : List UInt8) :
    uintAt? (BigEndian.encodeInt 2 dt ++ q) 0 2 = some (UInt16.ofInt dt).toNat := by
  simp [BigEndian.encodeInt, UInt16.ofInt]

/-- The prefix reads back at the start of every key: the type, the channel length and the
channel, and the fields after it start at `5 + len ch`. -/
theorem reads_prefix (dt : Int) (ch q : List UInt8) (hch : ch.length < 2 ^ 16) :
    uintAt? (getDelayedMsgDBPrefixKey dt ch ++ q) 0 2 = some (UInt16.ofInt dt).toNat ∧
      uintAt? (getDelayedMsgDBPrefixKey dt ch ++ q) 3 2 = some ch.length ∧
      slice? (getDelayedMsgDBPrefixKey dt ch ++ q) 5 (5 + ch.length) = some ch := by
  refine ⟨?_, uintAt?_at (p := BigEndian.encodeInt 2 dt ++ [sep]) (q := ch ++ q) ?_
    (by simp [BigEndian.encodeInt]) hch,
    slice?_at (p := BigEndian.encodeInt 2 dt ++ [sep] ++ BigEndian.encode 2 ch.length) (q := q) ch ?_
      (by simp [BigEndian.encodeInt])⟩
  · simp only [getDelayedMsgDBPrefixKey, List.append_assoc]
    exact uintAt?_encodeInt dt _
  all_goals simp [getDelayedMsgDBPrefixKey]

theorem decodeDelayedMsgDBKey_getDelayedMsgDBKey (dt : Int) (ch : List UInt8) (ts : Int64)
    (id : UInt64) (hch : ch.length < 2 ^ 16) :
    decodeDelayedMsgDBKey (getDelayedMsgDBKey dt ch ts id) = some (.ok (UInt16.ofInt dt, ts, id, ch)) := by
  have hk := getDelayedMsgDBKey_eq dt ch ts id
  obtain ⟨hdt, hlen, hch'⟩ := reads_prefix dt ch _ hch
  rw [← hk] at hdt hlen hch'
  have hts : uintAt? (getDelayedMsgDBKey dt ch ts id) (5 + ch.length) 8 = some ts.toUInt64.toNat :=
    uintAt?_at hk (by simp) (uint64_lt _)
  have hid : uintAt? (getDelayedMsgDBKey dt ch ts id) (5 + ch.length + 8) 8 = some id.toNat :=
    uintAt?_at (p := getDelayedMsgDBPrefixKey dt ch ++ BigEndian.encode 8 ts.toUInt64.toNat) (q := [])
      (by simp [hk]) (by simp) (uint64_lt _)
  have hL : (getDelayedMsgDBKey dt ch ts id).length = 21 + ch.length := by simp [hk]; omega
  simp only [decodeDelayedMsgDBKey, hL, hdt, hlen, hch', hts, hid, Option.bind_eq_bind,
    Option.bind_some]
  rw [if_neg (by omega), if_neg (by omega)]
  simp

theorem decodeDelayedMsgDBIndexKey_getDelayedMsgDBIndexKey (dt : Int) (ch : List UInt8)
    (id : UInt64) (hch : ch.length < 2 ^ 16) :
    decodeDelayedMsgDBIndexKey (getDelayedMsgDBIndexKey dt ch id) =
      some (.ok (UInt16.ofInt dt, id, ch)) := by
  have hk := getDelayedMsgDBIndexKey_eq dt ch id
  obtain ⟨hdt, hlen, hch'⟩ := reads_prefix dt ch _ hch
  rw [← hk] at hdt hlen hch'
  have hid : uintAt? (getDelayedMsgDBIndexKey dt ch id) (5 + ch.length) 8 = some id.toNat :=
    uintAt?_at (p := getDelayedMsgDBPrefixKey dt ch) (q := []) (by simp [hk]) (by simp) (uint64_lt _)
  have hL : (getDelayedMsgDBIndexKey dt ch id).length = 13 + ch.length := by simp [hk]; omega
  simp only [decodeDelayedMsgDBIndexKey, hL, hdt, hlen, hch', hid, Option.bind_eq_bind,
    Option.bind_some]
  rw [if_neg (by omega), if_neg (by omega)]
  simp

/-! ## Prefixes and order -/

/-- The type as a key writes it: the two bytes of its `uint16`. -/
theorem encodeInt_two (v : Int) : BigEndian.encodeInt 2 v = BigEndian.encode 2 (UInt16.ofInt v).toNat := by
  have h : (UInt16.ofInt v).toNat = (v % 65536).toNat := by
    simp [UInt16.ofInt]
    omega
  rw [h]
  rfl

theorem mod_of_encode_two_eq {a b : Nat} (h : BigEndian.encode 2 a = BigEndian.encode 2 b) :
    a % 65536 = b % 65536 := by
  simpa [BigEndian.decode_encode] using congrArg BigEndian.decode h

theorem encode_two_of_mod_eq {a b : Nat} (h : a % 65536 = b % 65536) :
    BigEndian.encode 2 a = BigEndian.encode 2 b := by
  have hbyte : ∀ x y : Nat, x % 256 = y % 256 → UInt8.ofNat x = UInt8.ofNat y := fun x y hxy =>
    UInt8.toNat_inj.mp (by rw [UInt8.toNat_ofNat', UInt8.toNat_ofNat']; exact hxy)
  simp only [BigEndian.encode, List.nil_append, List.cons_append]
  rw [hbyte (a / 256) (b / 256) (by omega), hbyte a b (by omega)]

/-- The five bytes a prefix starts with, before the channel. -/
def prefixHead (dt : Int) (n : Nat) : List UInt8 :=
  BigEndian.encodeInt 2 dt ++ [sep] ++ BigEndian.encode 2 n

@[simp] theorem length_prefixHead (dt : Int) (n : Nat) : (prefixHead dt n).length = 5 := by
  simp [prefixHead]

theorem getDelayedMsgDBPrefixKey_eq_head (dt : Int) (ch : List UInt8) :
    getDelayedMsgDBPrefixKey dt ch = prefixHead dt ch.length ++ ch := rfl

/-- Two heads agree exactly when the types agree as `uint16` and the lengths modulo `2 ^ 16`. -/
theorem prefixHead_eq_iff {dt dt' : Int} {n n' : Nat} :
    prefixHead dt n = prefixHead dt' n' ↔ UInt16.ofInt dt = UInt16.ofInt dt' ∧ n % 65536 = n' % 65536 := by
  constructor
  · intro h
    obtain ⟨h₁, h₂⟩ := List.append_inj h (by simp)
    obtain ⟨h₃, -⟩ := List.append_inj h₁ (by simp)
    rw [encodeInt_two, encodeInt_two] at h₃
    have hdt := mod_of_encode_two_eq h₃
    rw [Nat.mod_eq_of_lt (UInt16.toNat_lt _), Nat.mod_eq_of_lt (UInt16.toNat_lt _)] at hdt
    exact ⟨UInt16.toNat_inj.mp hdt, mod_of_encode_two_eq h₂⟩
  · rintro ⟨hdt, hn⟩
    simp only [prefixHead, encodeInt_two, hdt, encode_two_of_mod_eq hn]

/-- Two prefixes are equal exactly when the types agree as `uint16` and the channels agree. -/
theorem getDelayedMsgDBPrefixKey_eq_iff {dt dt' : Int} {ch ch' : List UInt8} :
    getDelayedMsgDBPrefixKey dt ch = getDelayedMsgDBPrefixKey dt' ch' ↔
      UInt16.ofInt dt = UInt16.ofInt dt' ∧ ch = ch' := by
  rw [getDelayedMsgDBPrefixKey_eq_head, getDelayedMsgDBPrefixKey_eq_head]
  constructor
  · intro h
    obtain ⟨hh, hc⟩ := List.append_inj h (by simp)
    exact ⟨(prefixHead_eq_iff.mp hh).1, hc⟩
  · rintro ⟨hdt, rfl⟩
    rw [prefixHead_eq_iff.mpr ⟨hdt, rfl⟩]

/-- A prefix starts a key whose channel is shorter than `2 ^ 16` and that has fewer than `2 ^ 16`
bytes after its own prefix exactly when it is that key's prefix: the channel's length precedes
the channel, so no channel is taken for a longer one. -/
theorem prefix_append_iff {dt dt' : Int} {ch ch' extra : List UInt8} (hch' : ch'.length < 2 ^ 16)
    (hextra : extra.length < 2 ^ 16) :
    getDelayedMsgDBPrefixKey dt ch <+: getDelayedMsgDBPrefixKey dt' ch' ++ extra ↔
      getDelayedMsgDBPrefixKey dt ch = getDelayedMsgDBPrefixKey dt' ch' := by
  constructor
  · intro h
    rw [getDelayedMsgDBPrefixKey_eq_head, getDelayedMsgDBPrefixKey_eq_head, List.append_assoc,
      OrderedMap.append_prefix_append_iff (by simp)] at h
    obtain ⟨hh, hc⟩ := h
    have hn := (prefixHead_eq_iff.mp hh).2
    have hle := hc.length_le
    rw [List.length_append] at hle
    -- the lengths agree modulo `2 ^ 16` and differ by at most the extra bytes, so they agree
    have hlen : ch.length = ch'.length := by omega
    have hcc : ch = ch' := by
      rw [List.prefix_iff_eq_take, hlen, List.take_left] at hc
      exact hc
    rw [getDelayedMsgDBPrefixKey_eq_head, getDelayedMsgDBPrefixKey_eq_head, hh, hcc]
  · intro h
    rw [h]
    exact List.prefix_append _ _

/-- Two message keys of one type and channel compare as the `uint64` of their timestamps, then
their IDs: the byte order of the store is this lexicographic order. -/
theorem compare_getDelayedMsgDBKey (dt : Int) (ch : List UInt8) (ts ts' : Int64) (id id' : UInt64) :
    compare (getDelayedMsgDBKey dt ch ts id) (getDelayedMsgDBKey dt ch ts' id') =
      (compare ts.toUInt64 ts'.toUInt64).then (compare id id') := by
  rw [getDelayedMsgDBKey_eq, getDelayedMsgDBKey_eq, OrderedMap.compare_append_left,
    OrderedMap.compare_append_of_length_eq (by simp),
    BigEndian.compare_encode 8 (uint64_lt _) (uint64_lt _),
    BigEndian.compare_encode 8 (uint64_lt _) (uint64_lt _),
    ← UInt64.compare_eq_toNat_compare_toNat, ← UInt64.compare_eq_toNat_compare_toNat]

/-- A non-negative timestamp is its own `uint64`. -/
theorem toNat_toUInt64_of_nonneg {x : Int64} (h : 0 ≤ x.toInt) : (x.toUInt64.toNat : Int) = x.toInt := by
  have hlt : x.toUInt64.toNat < 2 ^ 64 := x.toUInt64.toNat_lt
  rw [← Int64.toInt_toBitVec, BitVec.toInt_eq_toNat_cond] at h ⊢
  rw [← UInt64.toNat_toBitVec, Int64.toBitVec_toUInt64] at hlt ⊢
  split_ifs at h ⊢ <;> omega

/-- For non-negative timestamps the key order is the order of the timestamps, then the IDs. -/
theorem compare_getDelayedMsgDBKey_of_nonneg (dt : Int) (ch : List UInt8) {ts ts' : Int64}
    (h : 0 ≤ ts.toInt) (h' : 0 ≤ ts'.toInt) (id id' : UInt64) :
    compare (getDelayedMsgDBKey dt ch ts id) (getDelayedMsgDBKey dt ch ts' id') =
      (compare ts.toInt ts'.toInt).then (compare id id') := by
  rw [compare_getDelayedMsgDBKey, UInt64.compare_eq_toNat_compare_toNat, ← toNat_toUInt64_of_nonneg h,
    ← toNat_toUInt64_of_nonneg h', Nat.compare_eq_ite_lt, Int.compare_eq_ite_lt]
  simp

/-- A message key of 21 bytes whose channel length is 9, and an index key of 13 bytes whose
channel length is 1: both pass the decoders' length checks, and their last field is read past
their end. -/
theorem decodeDelayedMsgDBKey_reads_past_end :
    ([0, 1, 45, 0, 9] ++ List.replicate 16 0 : List UInt8).length = 21 ∧
      decodeDelayedMsgDBKey ([0, 1, 45, 0, 9] ++ List.replicate 16 0) = none ∧
      ([0, 1, 45, 0, 1] ++ List.replicate 8 0 : List UInt8).length = 13 ∧
      decodeDelayedMsgDBIndexKey ([0, 1, 45, 0, 1] ++ List.replicate 8 0) = none := by
  decide

end Nsq.DelayQueue
