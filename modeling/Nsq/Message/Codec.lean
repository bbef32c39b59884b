import Nsq.Lib.ByteSlice

/-!
# The message codec of `message.go`

A message is persisted (`WriteTo`, `WriteDelayedTo`) and read back (`decodeMessage`,
`DecodeDelayedMessage`) as big-endian fields at fixed and length-prefixed positions. The
`Attempts` field doubles as a version marker: a writer that appends ext data adds
`extMsgHighBits` to it, and a decoder that sees `Attempts` above `maxAttempts` takes its high four
bits as the version. Writers clamp `Attempts` to `maxAttempts` first, in place.

The writers are modelled writing into a buffer that takes every write (`bytes.Buffer`), so they
return the message as they leave it, the bytes written and the error they stop at. The decoders
read with `Nsq.Lib.ByteSlice`, so `none` is a read outside the input and `some (.error e)` the
error they return. The fields of `Message` are those the codec reads and writes, with Go's widths;
the namespace keeps this view of the struct apart from the channel's.
-/

namespace Nsq.Codec

open ByteSlice

/-- `minValidMsgLength`: `MsgIDLength` (ID and trace ID) with the timestamp and the attempts. -/
def minValidMsgLength : Nat := 16 + 8 + 2

def maxAttempts : UInt16 := 4000

def extMsgHighBits : UInt16 := 0xa000

/-- `ext.MaxExtLen` -/
def maxExtLen : Nat := 65535

/-- `ext.NO_EXT_VER` -/
def noExtVer : UInt8 := 0

/-- `ChannelDelayed` -/
def channelDelayed : Int32 := 1

/-- `PubDelayed` -/
def pubDelayed : Int32 := 2

/-- The fields of a `Message` that the codec writes and reads. -/
structure Message where
  id : UInt64
  traceID : UInt64
  body : List UInt8
  timestamp : Int64
  attempts : UInt16
  extBytes : List UInt8
  extVer : UInt8
  offset : Int64
  rawMoveSize : Int64
  delayedType : Int32
  delayedTs : Int64
  delayedOrigID : UInt64
  /-- the bytes of the `DelayedChannel` string -/
  delayedChannel : List UInt8
  delayedData : List UInt8
  deriving DecidableEq, Repr

/-- `var msg Message`: every field zero. -/
def Message.empty : Message where
  id := 0
  traceID := 0
  body := []
  timestamp := 0
  attempts := 0
  extBytes := []
  extVer := 0
  offset := 0
  rawMoveSize := 0
  delayedType := 0
  delayedTs := 0
  delayedOrigID := 0
  delayedChannel := []
  delayedData := []

/-- The errors of the codec. -/
inductive CodecError where
  | invalidBufferSize (size : Nat)
  | invalidDelayedBufferSize (size : Nat)
  | extBitsNotExt (b : List UInt8)
  | extTooLong
  deriving DecidableEq, Repr

/-- `%v` of a byte slice: the bytes in decimal, between brackets. -/
def goBytes (b : List UInt8) : String :=
  "[" ++ " ".intercalate (b.map fun x => toString x.toNat) ++ "]"

/-- The texts of the errors, as `message.go` has them. -/
def CodecError.text : CodecError → String
  | .invalidBufferSize n => "invalid message buffer size (" ++ toString n ++ ")"
  | .invalidDelayedBufferSize n => "invalid delayed message buffer size (" ++ toString n ++ ")"
  | .extBitsNotExt b =>
    "invalid message, has the ext high bits but not decode as ext data: " ++ goBytes b
  | .extTooLong => "extend data exceed the limit"

namespace Message

/-! ## The writers -/

/-- Both writers first write `Attempts` back as at most `maxAttempts`. -/
def clampAttempts (m : Message) : Message :=
  if m.attempts > maxAttempts then { m with attempts := maxAttempts } else m

/-- The attempts field as written: with the version bits when ext data follows. -/
def combined (m : Message) (withExtBits : Bool) : UInt16 :=
  if withExtBits then m.attempts + extMsgHighBits else m.attempts

/-- The 26 bytes both writers start with: timestamp, attempts field, ID and trace ID. -/
def header (m : Message) (combined : UInt16) : List UInt8 :=
  BigEndian.encode 8 m.timestamp.toUInt64.toNat ++ BigEndian.encode 2 combined.toNat ++
    BigEndian.encode 8 m.id.toNat ++ BigEndian.encode 8 m.traceID.toNat

/-- The ext section: the version, then, unless it is `NO_EXT_VER`, the length and the bytes,
which must be shorter than `MaxExtLen`. -/
def extSection (m : Message) : List UInt8 × Option CodecError :=
  if m.extVer ≠ noExtVer then
    if m.extBytes.length ≥ maxExtLen then ([m.extVer], some .extTooLong)
    else ([m.extVer] ++ BigEndian.encode 2 m.extBytes.length ++ m.extBytes, none)
  else ([m.extVer], none)

/-- The queue position a detailed or channel-delayed message carries: `Offset`, and the low
32 bits of `RawMoveSize`. -/
def queueInfo (m : Message) : List UInt8 :=
  BigEndian.encode 8 m.offset.toUInt64.toNat ++ BigEndian.encode 4 m.rawMoveSize.toUInt64.toNat

/-- `internalWriteTo`: the message as it leaves it, the bytes written, and the error it stops
at. -/
def internalWriteTo (m : Message) (writeExt writeCompatible writeDetail : Bool) :
    Message × List UInt8 × Option CodecError :=
  let m := m.clampAttempts
  let head := m.header (m.combined (writeExt && writeCompatible))
  let ext := if writeExt then m.extSection else ([], none)
  match ext.2 with
  | some e => (m, head ++ ext.1, some e)
  | none => (m, head ++ ext.1 ++ (if writeDetail then m.queueInfo else []) ++ m.body, none)

/-- `WriteTo`: what the queues persist. -/
def writeTo (m : Message) (writeExt : Bool) : Message × List UInt8 × Option CodecError :=
  m.internalWriteTo writeExt true false

/-- The delayed fields `WriteDelayedTo` writes after the header: type, time, original ID and the
channel with its length. -/
def delayedFields (m : Message) : List UInt8 :=
  BigEndian.encode 4 m.delayedType.toUInt32.toNat ++ BigEndian.encode 8 m.delayedTs.toUInt64.toNat ++
    BigEndian.encode 8 m.delayedOrigID.toNat ++ BigEndian.encode 4 m.delayedChannel.length ++
    m.delayedChannel

/-- A delayed publish's data with its length, written after the delayed fields. -/
def pubSection (m : Message) : List UInt8 :=
  BigEndian.encode 4 m.delayedData.length ++ m.delayedData

/-- `WriteDelayedTo`: what the delayed queue persists. -/
def writeDelayedTo (m : Message) (writeExt : Bool) : Message × List UInt8 × Option CodecError :=
  let m := m.clampAttempts
  let head := m.header (m.combined writeExt) ++ m.delayedFields ++
    (if m.delayedType = pubDelayed then m.pubSection else [])
  let ext := if writeExt then m.extSection else ([], none)
  match ext.2 with
  | some e => (m, head ++ ext.1, some e)
  | none =>
    (m, head ++ ext.1 ++ (if m.delayedType = channelDelayed then m.queueInfo else []) ++ m.body,
      none)

end Message

/-! ## The decoders -/

/-- The attempts field read back: above `maxAttempts` its high four bits are a version and the
low twelve the attempts. -/
def splitCombined (combined : UInt16) : UInt16 × UInt16 :=
  if combined > maxAttempts then (combined &&& 0xF000, combined &&& 0x0FFF) else (0, combined)

/-- The ext section read at `pos`, with the error a short buffer gives: the version, the bytes,
and where the section ends. -/
def decodeExt? (b : List UInt8) (pos : Nat) (short : Nat → CodecError) :
    Option (Except CodecError ((UInt8 × List UInt8) × Nat)) := do
  if b.length < pos + 1 then return .error (short b.length)
  let extVer ← b[pos]?
  if extVer = noExtVer then return .ok ((noExtVer, []), pos + 1)
  if b.length < pos + 1 + 2 then return .error (short b.length)
  let extLen ← uintAt? b (pos + 1) 2
  if b.length < pos + 1 + 2 + extLen then return .error (short b.length)
  let extBytes ← slice? b (pos + 3) (pos + 3 + extLen)
  return .ok ((extVer, extBytes), pos + 3 + extLen)

/-- The header both decoders read first, into an empty message: timestamp, ID, trace ID, and
the attempts with the version bits they carry. -/
def decodeHeader? (b : List UInt8) : Option (Message × UInt16) := do
  let timestamp ← uintAt? b 0 8
  let combined ← uintAt? b 8 2
  let id ← uintAt? b 10 8
  let traceID ← uintAt? b 18 8
  let (highBits, attempts) := splitCombined (UInt16.ofNat combined)
  let msg : Message := { Message.empty with
    timestamp := (UInt64.ofNat timestamp).toInt64, attempts, id := UInt64.ofNat id,
    traceID := UInt64.ofNat traceID }
  return (msg, highBits)

/-- `decodeMessage` -/
def decodeMessage (b : List UInt8) (isExt : Bool) : Option (Except CodecError Message) := do
  if b.length < minValidMsgLength then return .error (.invalidBufferSize b.length)
  let (msg, highBits) ← decodeHeader? b
  if highBits == extMsgHighBits && !isExt then return .error (.extBitsNotExt b)
  if isExt && highBits == extMsgHighBits then
    match ← decodeExt? b 26 .invalidBufferSize with
    | .error e => return .error e
    | .ok ((extVer, extBytes), bodyStart) =>
      let body ← sliceFrom? b bodyStart
      return .ok { msg with extVer, extBytes, body }
  else
    let body ← sliceFrom? b 26
    return .ok { msg with body }

/-- A delayed publish's data, read at `pos`: the bytes, and where they end. -/
def decodePubData? (b : List UInt8) (pos : Nat) :
    Option (Except CodecError (List UInt8 × Nat)) := do
  if b.length < pos + 4 then return .error (.invalidDelayedBufferSize b.length)
  let dlen ← uintAt? b pos 4
  if b.length < pos + 4 + dlen then return .error (.invalidDelayedBufferSize b.length)
  let data ← slice? b (pos + 4) (pos + 4 + dlen)
  return .ok (data, pos + 4 + dlen)

/-- A channel-delayed message's queue position, read at `pos`, and where it ends. -/
def decodeQueueInfo? (b : List UInt8) (pos : Nat) :
    Option (Except CodecError ((Int64 × Int64) × Nat)) := do
  if b.length < pos + 8 + 4 then return .error (.invalidDelayedBufferSize b.length)
  let offset ← uintAt? b pos 8
  let rawMoveSize ← uintAt? b (pos + 8) 4
  return .ok (((UInt64.ofNat offset).toInt64, (UInt64.ofNat rawMoveSize).toInt64), pos + 12)

/-- The delayed fields read after the header, into `msg`: type, time, original ID and channel;
and where they end. -/
def decodeDelayedFields? (b : List UInt8) (msg : Message) :
    Option (Except CodecError (Message × Nat)) := do
  if b.length < minValidMsgLength + 4 + 8 + 8 + 4 then
    return .error (.invalidDelayedBufferSize b.length)
  let delayedType ← uintAt? b 26 4
  let delayedTs ← uintAt? b 30 8
  let delayedOrigID ← uintAt? b 38 8
  let nameLen ← uintAt? b 46 4
  if b.length < 50 + nameLen then return .error (.invalidDelayedBufferSize b.length)
  let delayedChannel ← slice? b 50 (50 + nameLen)
  return .ok ({ msg with
    delayedType := (UInt32.ofNat delayedType).toInt32, delayedTs := (UInt64.ofNat delayedTs).toInt64,
    delayedOrigID := UInt64.ofNat delayedOrigID, delayedChannel }, 50 + nameLen)

/-- `DecodeDelayedMessage` -/
def decodeDelayedMessage (b : List UInt8) (isExt : Bool) : Option (Except CodecError Message) := do
  if b.length < minValidMsgLength then return .error (.invalidBufferSize b.length)
  let (msg, highBits) ← decodeHeader? b
  match ← decodeDelayedFields? b msg with
  | .error e => return .error e
  | .ok (msg, pos) =>
  let pub ← (if msg.delayedType = pubDelayed then decodePubData? b pos else pure (.ok ([], pos)))
  match pub with
  | .error e => return .error e
  | .ok (delayedData, pos) =>
  if highBits == extMsgHighBits && !isExt then return .error (.extBitsNotExt b)
  let ext ← (if isExt && highBits == extMsgHighBits then decodeExt? b pos .invalidDelayedBufferSize
    else pure (.ok ((0, []), pos)))
  match ext with
  | .error e => return .error e
  | .ok ((extVer, extBytes), pos) =>
  let orig ← (if msg.delayedType = channelDelayed then decodeQueueInfo? b pos
    else pure (.ok ((0, 0), pos)))
  match orig with
  | .error e => return .error e
  | .ok ((offset, rawMoveSize), pos) =>
  let body ← sliceFrom? b pos
  return .ok { msg with delayedData, extVer, extBytes, offset, rawMoveSize, body }

end Nsq.Codec

namespace Nsq.Codec

open ByteSlice

/-! ## Reading back what was written -/

theorem uint64_lt (x : UInt64) : x.toNat < 256 ^ 8 := x.toNat_lt

/-- A signed value written as `uint64` and read back through `uint64` is itself. -/
@[simp] theorem int64_ofNat_toNat (x : Int64) : Int64.ofNat x.toUInt64.toNat = x := by
  rw [← UInt64.toInt64_ofNat', UInt64.ofNat_toNat, Int64.toInt64_toUInt64]

@[simp] theorem length_header (m : Message) (c : UInt16) : (m.header c).length = 26 := by
  simp [Message.header]

/-- The header reads back as the fields it was written from, and the attempts field split. -/
theorem decodeHeader?_header (m : Message) (c : UInt16) (rest : List UInt8) :
    decodeHeader? (m.header c ++ rest) = some ({ Message.empty with
      timestamp := m.timestamp, attempts := (splitCombined c).2, id := m.id,
      traceID := m.traceID }, (splitCombined c).1) := by
  simp [decodeHeader?, Message.header, uintAt?_append_right]

/-- Below `2 ^ 12`, the version bits `0xa000` added on top are the high four bits. -/
theorem high_bits_of_lt {a : Nat} (h : a < 4096) : (a + 0xa000) &&& 0xF000 = 0xa000 := by
  apply Nat.eq_of_testBit_eq
  intro i
  have e₁ : a + 0xa000 = 2 ^ 12 * 10 + a := by omega
  have e₂ : (0xF000 : Nat) = 2 ^ 12 * (2 ^ 4 - 1) + 0 := rfl
  have e₃ : (0xa000 : Nat) = 2 ^ 12 * 10 + 0 := rfl
  rw [Nat.testBit_and, e₁, e₂, e₃, Nat.testBit_two_pow_mul_add _ h,
    Nat.testBit_two_pow_mul_add _ (by decide), Nat.testBit_two_pow_mul_add _ (by decide),
    Nat.testBit_two_pow_sub_one]
  split
  · simp
  · -- above bit 12 the nibbles are `10` and `15`, and `10` has no bit from the fourth on
    by_cases h4 : i - 12 < 4
    · simp [h4]
    · have h10 : 10 < 2 ^ (i - 12) :=
        Nat.lt_of_lt_of_le (by decide) (Nat.pow_le_pow_right (by decide) (show 4 ≤ i - 12 by omega))
      simp [h4, Nat.testBit_lt_two_pow h10]

/-- Below `2 ^ 12`, the low twelve bits are the attempts under the version bits. -/
theorem low_bits_of_lt {a : Nat} (h : a < 4096) : (a + 0xa000) &&& 0x0FFF = a := by
  rw [show (0x0FFF : Nat) = 2 ^ 12 - 1 from rfl, Nat.and_two_pow_sub_one_eq_mod]
  omega

theorem clampAttempts_attempts (m : Message) :
    m.clampAttempts.attempts.toNat = min m.attempts.toNat 4000 := by
  unfold Message.clampAttempts
  split
  · rename_i h
    have h' := UInt16.lt_iff_toNat_lt.mp h
    simp only [maxAttempts, UInt16.reduceToNat] at h' ⊢
    omega
  · rename_i h
    have h' := UInt16.le_iff_toNat_le.mp (UInt16.not_lt.mp h)
    simp only [maxAttempts, UInt16.reduceToNat] at h'
    omega

/-- A written attempts field splits back into the clamped attempts, and the version bits exactly
when they were written. -/
theorem splitCombined_combined (m : Message) (withExtBits : Bool) :
    splitCombined (m.clampAttempts.combined withExtBits) =
      (if withExtBits then extMsgHighBits else 0, m.clampAttempts.attempts) := by
  have hle : m.clampAttempts.attempts.toNat ≤ 4000 := by
    rw [clampAttempts_attempts]
    exact Nat.min_le_right _ _
  unfold Message.combined splitCombined
  cases withExtBits with
  | false =>
    simp only [Bool.false_eq_true, if_false]
    rw [if_neg (UInt16.not_lt.mpr (UInt16.le_iff_toNat_le.mpr hle))]
  | true =>
    have hsum : (m.clampAttempts.attempts + extMsgHighBits).toNat =
        m.clampAttempts.attempts.toNat + 0xa000 := by
      rw [UInt16.toNat_add]
      simp only [extMsgHighBits, UInt16.reduceToNat]
      omega
    simp only [if_true]
    rw [if_pos (UInt16.lt_iff_toNat_lt.mpr (by simp only [hsum, maxAttempts, UInt16.reduceToNat]; omega))]
    refine Prod.ext (UInt16.toNat_inj.mp ?_) (UInt16.toNat_inj.mp ?_)
    · simp only [UInt16.toNat_and, hsum]
      exact high_bits_of_lt (by omega)
    · simp only [UInt16.toNat_and, hsum]
      exact low_bits_of_lt (by omega)

/-- An ext section with bytes shorter than `MaxExtLen` is written whole, and reads back where it
was written: the version, the bytes unless the version is `NO_EXT_VER`, and its end. -/
theorem decodeExt?_extSection (m : Message) (hext : m.extBytes.length < maxExtLen)
    (p rest : List UInt8) (short : Nat → CodecError) :
    m.extSection.2 = none ∧
      decodeExt? (p ++ (m.extSection.1 ++ rest)) p.length short =
        some (.ok ((m.extVer, if m.extVer = noExtVer then [] else m.extBytes),
          p.length + m.extSection.1.length)) := by
  unfold Message.extSection
  by_cases hv : m.extVer = noExtVer
  · simp [hv, decodeExt?]
  · have hlen : ¬ m.extBytes.length ≥ maxExtLen := by omega
    have h2 : m.extBytes.length < 256 ^ 2 := by simp only [maxExtLen] at hext; omega
    simp [hv, hlen, decodeExt?, uintAt?_append_right, slice?_append_right, uintAt?_cons, slice?_cons,
      uintAt?_encode_of_lt h2, Nat.add_assoc]
    -- both length checks pass, and the section ends after its version, length and bytes
    rw [if_neg (by omega), if_neg (by omega), show p.length + (2 + (m.extBytes.length + 1)) =
      p.length + (3 + m.extBytes.length) by omega]

/-- Clamping changes the attempts only. -/
theorem clampAttempts_eq (m : Message) :
    m.clampAttempts = { m with attempts := if m.attempts > maxAttempts then maxAttempts
                                            else m.attempts } := by
  unfold Message.clampAttempts
  split <;> rfl

/-- The ID is a fixed-width field: setting it changes neither whether `WriteTo` fails nor how many
bytes it writes. -/
theorem writeTo_setID (m : Message) (id : UInt64) (ext : Bool) :
    ({ m with id := id }.writeTo ext).2.2 = (m.writeTo ext).2.2 ∧
      ({ m with id := id }.writeTo ext).2.1.length = (m.writeTo ext).2.1.length := by
  simp only [Message.writeTo, Message.internalWriteTo, clampAttempts_eq]
  cases ext <;> simp only [Bool.false_eq_true, if_false, if_true] <;>
    split <;> simp_all [Message.extSection]

/-- Nor whether `WriteDelayedTo` fails. -/
theorem writeDelayedTo_setID (m : Message) (id : UInt64) (ext : Bool) :
    ({ m with id := id }.writeDelayedTo ext).2.2 = (m.writeDelayedTo ext).2.2 := by
  simp only [Message.writeDelayedTo, clampAttempts_eq]
  cases ext with
  | false => rfl
  | true =>
    -- the ext section reads the ext fields only
    simp only [if_true]
    split <;> simp_all [Message.extSection]

/-- What `WriteTo` writes, `decodeMessage` reads back: the fields it wrote, with the attempts
clamped, and the other fields empty. -/
theorem decodeMessage_writeTo (m : Message) (ext : Bool) (hext : m.extBytes.length < maxExtLen) :
    (m.writeTo ext).2.2 = none ∧
      decodeMessage (m.writeTo ext).2.1 ext = some (.ok { Message.empty with
        timestamp := m.timestamp, attempts := m.clampAttempts.attempts, id := m.id,
        traceID := m.traceID, body := m.body, extVer := if ext then m.extVer else 0,
        extBytes := if ext ∧ m.extVer ≠ noExtVer then m.extBytes else [] }) := by
  have hsplit := splitCombined_combined m ext
  cases ext with
  | false =>
    simp [Message.writeTo, Message.internalWriteTo, decodeMessage, decodeHeader?_header, hsplit,
      minValidMsgLength, extMsgHighBits, sliceFrom?_append_right]
    simp [clampAttempts_eq, Message.empty]
  | true =>
    obtain ⟨hnone, hdec⟩ := decodeExt?_extSection m.clampAttempts (by simpa [clampAttempts_eq])
      (m.clampAttempts.header (m.clampAttempts.combined true)) m.clampAttempts.body
      .invalidBufferSize
    rw [length_header] at hdec
    simp [Message.writeTo, Message.internalWriteTo, decodeMessage, decodeHeader?_header, hsplit,
      minValidMsgLength, hnone, hdec, sliceFrom?_append_right]
    simp [clampAttempts_eq]

/-- A signed 32-bit value written as `uint32` and read back through `uint32` is itself. -/
@[simp] theorem int32_ofNat_toNat (x : Int32) : Int32.ofNat x.toUInt32.toNat = x := by
  rw [← UInt32.toInt32_ofNat', UInt32.ofNat_toNat, Int32.toInt32_toUInt32]

/-- A delayed publish's data, written with its length below `2 ^ 32`, reads back where it was
written. -/
theorem decodePubData?_pubSection (m : Message) (p rest : List UInt8)
    (hd : m.delayedData.length < 2 ^ 32) :
    decodePubData? (p ++ (m.pubSection ++ rest)) p.length =
      some (.ok (m.delayedData, p.length + m.pubSection.length)) := by
  have h4 : m.delayedData.length < 256 ^ 4 := by simpa using hd
  simp [decodePubData?, Message.pubSection, uintAt?_append_right, slice?_append_right,
    uintAt?_encode_of_lt h4, Nat.add_assoc]

/-- The queue position reads back where it was written: the offset, and the low 32 bits of the
moved size. -/
theorem decodeQueueInfo?_queueInfo (m : Message) (p rest : List UInt8) :
    decodeQueueInfo? (p ++ (m.queueInfo ++ rest)) p.length =
      some (.ok ((m.offset, Int64.ofNat (m.rawMoveSize.toUInt64.toNat % 2 ^ 32)), p.length + 12)) := by
  simp [decodeQueueInfo?, Message.queueInfo, uintAt?_append_right]
  omega

/-- The delayed fields, written after 26 bytes with a channel shorter than `2 ^ 32`, read back
into the message, and end after the channel. -/
theorem decodeDelayedFields?_delayedFields (m msg : Message) (p rest : List UInt8)
    (hp : p.length = 26) (hch : m.delayedChannel.length < 2 ^ 32) :
    decodeDelayedFields? (p ++ (m.delayedFields ++ rest)) msg = some (.ok ({ msg with
      delayedType := m.delayedType, delayedTs := m.delayedTs, delayedOrigID := m.delayedOrigID,
      delayedChannel := m.delayedChannel }, 50 + m.delayedChannel.length)) := by
  have h4 : m.delayedChannel.length < 256 ^ 4 := by simpa using hch
  simp [decodeDelayedFields?, Message.delayedFields, hp, uintAt?_append_right, slice?_append_right,
    uintAt?_encode_of_lt h4, minValidMsgLength]
  -- both length checks pass; the channel is the slice after the 24 bytes of fixed fields
  rw [if_neg (by omega), if_neg (by omega), show 50 + m.delayedChannel.length - 26 =
    24 + m.delayedChannel.length by omega]
  simp +arith [slice?_append_right]

/-- What `WriteDelayedTo` writes, `DecodeDelayedMessage` reads back. -/
theorem decodeDelayedMessage_writeDelayedTo (m : Message) (ext : Bool)
    (hext : m.extBytes.length < maxExtLen) (hch : m.delayedChannel.length < 2 ^ 32)
    (hdata : m.delayedType = pubDelayed → m.delayedData.length < 2 ^ 32) :
    (m.writeDelayedTo ext).2.2 = none ∧
      decodeDelayedMessage (m.writeDelayedTo ext).2.1 ext = some (.ok { Message.empty with
        timestamp := m.timestamp, attempts := m.clampAttempts.attempts, id := m.id,
        traceID := m.traceID, delayedType := m.delayedType, delayedTs := m.delayedTs,
        delayedOrigID := m.delayedOrigID, delayedChannel := m.delayedChannel,
        delayedData := if m.delayedType = pubDelayed then m.delayedData else [],
        extVer := if ext then m.extVer else 0,
        extBytes := if ext ∧ m.extVer ≠ noExtVer then m.extBytes else [],
        offset := if m.delayedType = channelDelayed then m.offset else 0,
        rawMoveSize := if m.delayedType = channelDelayed then
          Int64.ofNat (m.rawMoveSize.toUInt64.toNat % 2 ^ 32) else 0,
        body := m.body }) := by
  set c := m.clampAttempts with hc
  have hcext : c.extBytes.length < maxExtLen := by simpa [hc, clampAttempts_eq] using hext
  have hch' : c.delayedChannel.length < 2 ^ 32 := by simpa [hc, clampAttempts_eq] using hch
  have hdata' : c.delayedType = pubDelayed → c.delayedData.length < 2 ^ 32 := by
    simpa [hc, clampAttempts_eq] using hdata
  have hnone := (decodeExt?_extSection c hcext [] [] .invalidBufferSize).1
  -- the bytes up to the end of each section: fields, publish data, ext data, queue position
  set p₁ := c.header (c.combined ext) ++ c.delayedFields with hp₁
  set p₂ := p₁ ++ (if c.delayedType = pubDelayed then c.pubSection else []) with hp₂
  set p₃ := p₂ ++ (if ext then c.extSection.1 else []) with hp₃
  set p₄ := p₃ ++ (if c.delayedType = channelDelayed then c.queueInfo else []) with hp₄
  have hw : m.writeDelayedTo ext = (c, p₄ ++ c.body, none) := by
    cases ext <;> simp [Message.writeDelayedTo, ← hc, hnone, p₁, p₂, p₃, p₄]
  rw [hw]
  refine ⟨rfl, ?_⟩
  have hl₁ : p₁.length = 50 + c.delayedChannel.length := by
    simp [hp₁, Message.delayedFields]; omega
  have hl₄ : p₁.length ≤ p₄.length := by simp [hp₄, hp₃, hp₂]
  -- each section reads back where the one before it ended
  set msg₀ : Message := { Message.empty with
    timestamp := c.timestamp, attempts := c.attempts, id := c.id, traceID := c.traceID } with hmsg₀
  have hH : decodeHeader? (p₄ ++ c.body) = some (msg₀, if ext then extMsgHighBits else 0) := by
    simp only [hp₄, hp₃, hp₂, hp₁, List.append_assoc]
    rw [decodeHeader?_header, splitCombined_combined]
  have hF : decodeDelayedFields? (p₄ ++ c.body) msg₀ = some (.ok ({ msg₀ with
      delayedType := c.delayedType, delayedTs := c.delayedTs, delayedOrigID := c.delayedOrigID,
      delayedChannel := c.delayedChannel }, p₁.length)) := by
    rw [hl₁]
    simp only [hp₄, hp₃, hp₂, hp₁, List.append_assoc]
    exact decodeDelayedFields?_delayedFields c msg₀ _ _ (length_header _ _) hch'
  have hP : (if c.delayedType = pubDelayed then decodePubData? (p₄ ++ c.body) p₁.length
      else pure (.ok ([], p₁.length))) =
      some (.ok (if c.delayedType = pubDelayed then c.delayedData else [], p₂.length)) := by
    by_cases h : c.delayedType = pubDelayed
    · have hb : p₄ ++ c.body = p₁ ++ (c.pubSection ++ ((if ext then c.extSection.1 else []) ++
          ((if c.delayedType = channelDelayed then c.queueInfo else []) ++ c.body))) := by
        simp only [hp₄, hp₃, hp₂, if_pos h, List.append_assoc]
      rw [if_pos h, if_pos h, hb, decodePubData?_pubSection c p₁ _ (hdata' h), hp₂, if_pos h]
      simp only [hp₁, List.length_append]
    · rw [if_neg h, if_neg h, hp₂, if_neg h, List.append_nil]
      rfl
  have hQ : (if c.delayedType = channelDelayed then decodeQueueInfo? (p₄ ++ c.body) p₃.length
      else pure (.ok ((0, 0), p₃.length))) =
      some (.ok ((if c.delayedType = channelDelayed then c.offset else 0,
        if c.delayedType = channelDelayed then Int64.ofNat (c.rawMoveSize.toUInt64.toNat % 2 ^ 32)
        else 0), p₄.length)) := by
    by_cases h : c.delayedType = channelDelayed
    · rw [if_pos h, if_pos h, if_pos h, hp₄, if_pos h, List.append_assoc, decodeQueueInfo?_queueInfo]
      simp [Message.queueInfo]
    · rw [if_neg h, if_neg h, if_neg h, hp₄, if_neg h, List.append_nil]
      rfl
  have hB : sliceFrom? (p₄ ++ c.body) p₄.length = some c.body := sliceFrom?_at rfl rfl
  have hE : (if (ext && (if ext then extMsgHighBits else 0) == extMsgHighBits) = true then
      decodeExt? (p₄ ++ c.body) p₂.length .invalidDelayedBufferSize
      else pure (.ok ((0, []), p₂.length))) =
      some (.ok ((if ext then c.extVer else 0, if ext ∧ c.extVer ≠ noExtVer then c.extBytes else []),
        p₃.length)) := by
    cases ext with
    | false => simp [hp₃]
    | true =>
      have hb : p₄ ++ c.body = p₂ ++ (c.extSection.1 ++
          ((if c.delayedType = channelDelayed then c.queueInfo else []) ++ c.body)) := by
        simp only [hp₄, hp₃, if_pos, List.append_assoc]
      rw [if_pos (by decide), hb, (decodeExt?_extSection c hcext p₂ _ _).2]
      simp [hp₃]
  -- the length and version checks pass
  have hL : ¬ (p₄ ++ c.body).length < minValidMsgLength := by
    simp only [List.length_append, minValidMsgLength]; omega
  have hX : ¬ (((if ext then extMsgHighBits else 0) == extMsgHighBits && !ext) = true) := by
    cases ext <;> decide
  simp only [decodeDelayedMessage, hH, hF, hP, if_neg hL, if_neg hX, hE, hQ, hB, Option.bind_eq_bind,
    Option.bind_some]
  -- what was read is the clamped message's fields, which are the message's own
  simp [hc, hmsg₀, clampAttempts_eq, Message.empty]

/-- The ext bytes are written only with ext data of a version other than `NO_EXT_VER`; otherwise
`WriteDelayedTo` writes the same bytes, and fails the same way, without them. -/
theorem writeDelayedTo_extBytes_nil (m : Message) (ext : Bool)
    (h : ¬ (ext = true ∧ m.extVer ≠ noExtVer)) :
    ({ m with extBytes := [] }.writeDelayedTo ext).2 = (m.writeDelayedTo ext).2 := by
  cases ext with
  | false =>
    simp only [Message.writeDelayedTo, clampAttempts_eq]
    rfl
  | true =>
    have hv : m.extVer = noExtVer := by simpa using h
    simp only [Message.writeDelayedTo, clampAttempts_eq, Message.extSection, hv]
    rfl

/-- A delayed publish's data is part of what `WriteDelayedTo` writes. -/
theorem delayedData_length_le (m : Message) (ext : Bool) (h : m.delayedType = pubDelayed) :
    m.delayedData.length ≤ (m.writeDelayedTo ext).2.1.length := by
  simp only [Message.writeDelayedTo, clampAttempts_eq, h, if_true]
  split <;> simp [Message.pubSection] <;> omega

/-- What `WriteDelayedTo` writes without an error reads back with the message's type, timestamp,
ID and channel, whatever its ext bytes, when the channel and a delayed publish's data fit their
`uint32` lengths. -/
theorem decodeDelayedMessage_of_write (m : Message) (ext : Bool)
    (hw : (m.writeDelayedTo ext).2.2 = none) (hch : m.delayedChannel.length < 2 ^ 32)
    (hdata : m.delayedType = pubDelayed → m.delayedData.length < 2 ^ 32) :
    ∃ d, decodeDelayedMessage (m.writeDelayedTo ext).2.1 ext = some (.ok d) ∧
      d.delayedType = m.delayedType ∧ d.delayedTs = m.delayedTs ∧ d.id = m.id ∧
      d.delayedChannel = m.delayedChannel := by
  by_cases hx : ext = true ∧ m.extVer ≠ noExtVer
  · -- the ext bytes are written, so the writer checked their length
    obtain ⟨rfl, hv⟩ := hx
    have hext : m.extBytes.length < maxExtLen := by
      by_contra hlong
      have herr : (m.writeDelayedTo true).2.2 = some .extTooLong := by
        simp [Message.writeDelayedTo, Message.extSection, clampAttempts_eq, hv, not_lt.mp hlong]
      rw [herr] at hw
      cases hw
    exact ⟨_, (decodeDelayedMessage_writeDelayedTo m true hext hch hdata).2, rfl, rfl, rfl, rfl⟩
  · -- the bytes are those of the message without ext bytes, which reads back
    rw [← writeDelayedTo_extBytes_nil m ext hx]
    exact ⟨_, (decodeDelayedMessage_writeDelayedTo { m with extBytes := [] } ext
      (by simp [maxExtLen]) hch hdata).2, rfl, rfl, rfl, rfl⟩

/-- A moved size in `[0, 2 ^ 32)` is its own `uint64` image below `2 ^ 32`. -/
theorem toNat_toUInt64_lt {x : Int64} (h0 : 0 ≤ x.toInt) (h1 : x.toInt < 2 ^ 32) :
    x.toUInt64.toNat < 2 ^ 32 := by
  have hlt : x.toUInt64.toNat < 2 ^ 64 := x.toUInt64.toNat_lt
  rw [← Int64.toInt_toBitVec, BitVec.toInt_eq_toNat_cond] at h0 h1
  rw [← UInt64.toNat_toBitVec, Int64.toBitVec_toUInt64] at hlt ⊢
  split_ifs at h0 h1 <;> omega

/-- The low 32 bits of a moved size in `[0, 2 ^ 32)` read back as the moved size. -/
theorem moveSize_of_lt {x : Int64} (h0 : 0 ≤ x.toInt) (h1 : x.toInt < 2 ^ 32) :
    Int64.ofNat (x.toUInt64.toNat % 2 ^ 32) = x := by
  rw [Nat.mod_eq_of_lt (toNat_toUInt64_lt h0 h1), int64_ofNat_toNat]

/-- A section read's answer: present, and on success ending within `len`. -/
def ReadWithin {α : Type} (len : Nat) (r : Option (Except CodecError (α × Nat))) : Prop :=
  ∃ e, r = some e ∧ ∀ a q, e = .ok (a, q) → q ≤ len

/-- Skipping an optional section keeps the position, which is within the input. -/
theorem readWithin_ite {α : Type} (c : Prop) [Decidable c] {len pos : Nat}
    {r : Option (Except CodecError (α × Nat))} (x : α) (hr : ReadWithin len r) (h : pos ≤ len) :
    ReadWithin len (if c then r else pure (.ok (x, pos))) := by
  split
  · exact hr
  · exact ⟨_, rfl, fun _ _ he => by cases he; exact h⟩

theorem decodeHeader?_of_le {b : List UInt8} (h : 26 ≤ b.length) : ∃ r, decodeHeader? b = some r := by
  unfold decodeHeader?
  rw [uintAt?_of_le (by omega), uintAt?_of_le (by omega), uintAt?_of_le (by omega),
    uintAt?_of_le (by omega)]
  simp

theorem decodeExt?_within (b : List UInt8) (pos : Nat) (short : Nat → CodecError) :
    ReadWithin b.length (decodeExt? b pos short) := by
  unfold ReadWithin decodeExt?
  by_cases h₁ : b.length < pos + 1
  · simp [h₁]
  have hv : b[pos]? = some b[pos] := List.getElem?_eq_getElem (by omega)
  by_cases hno : b[pos] = noExtVer
  · simp [h₁, hv, hno]
    omega
  by_cases h₂ : b.length < pos + 1 + 2
  · simp [h₁, hv, hno, h₂]
  rw [uintAt?_of_le (by omega)]
  generalize BigEndian.decode ((b.drop (pos + 1)).take 2) = n
  by_cases h₃ : b.length < pos + 1 + 2 + n
  · simp [h₁, hv, hno, h₂, h₃]
  · simp only [h₁, hv, hno, h₂, h₃, if_false, Option.bind_eq_bind, Option.bind_some]
    rw [slice?_of_le (by omega) (by omega)]
    simp
    omega

theorem decodePubData?_within (b : List UInt8) (pos : Nat) :
    ReadWithin b.length (decodePubData? b pos) := by
  unfold ReadWithin decodePubData?
  by_cases h₁ : b.length < pos + 4
  · simp [h₁]
  rw [uintAt?_of_le (by omega)]
  generalize BigEndian.decode ((b.drop pos).take 4) = n
  by_cases h₂ : b.length < pos + 4 + n
  · simp [h₁, h₂]
  · simp only [h₁, h₂, if_false, Option.bind_eq_bind, Option.bind_some]
    rw [slice?_of_le (by omega) (by omega)]
    simp
    omega

theorem decodeQueueInfo?_within (b : List UInt8) (pos : Nat) :
    ReadWithin b.length (decodeQueueInfo? b pos) := by
  unfold ReadWithin decodeQueueInfo?
  by_cases h₁ : b.length < pos + 8 + 4
  · simp [h₁]
  rw [uintAt?_of_le (by omega), uintAt?_of_le (by omega)]
  simp [h₁]
  omega

theorem decodeDelayedFields?_within (b : List UInt8) (msg : Message) :
    ReadWithin b.length (decodeDelayedFields? b msg) := by
  unfold ReadWithin decodeDelayedFields?
  by_cases h₁ : b.length < minValidMsgLength + 4 + 8 + 8 + 4
  · simp [h₁]
  simp only [minValidMsgLength] at h₁
  rw [uintAt?_of_le (by omega), uintAt?_of_le (by omega), uintAt?_of_le (by omega),
    uintAt?_of_le (by omega)]
  generalize BigEndian.decode ((b.drop 46).take 4) = n
  by_cases h₂ : b.length < 50 + n
  · simp [minValidMsgLength, h₁, h₂]
  · simp only [minValidMsgLength, h₁, h₂, if_false, Option.bind_eq_bind, Option.bind_some]
    rw [slice?_of_le (by omega) (by omega)]
    simp
    omega

theorem decodeMessage_ne_none (b : List UInt8) (isExt : Bool) : decodeMessage b isExt ≠ none := by
  unfold decodeMessage
  by_cases h₀ : b.length < minValidMsgLength
  · simp [h₀]
  obtain ⟨⟨msg, highBits⟩, hH⟩ := decodeHeader?_of_le
    (show 26 ≤ b.length by simp only [minValidMsgLength] at h₀; omega)
  obtain ⟨r, hE, hq⟩ := decodeExt?_within b 26 .invalidBufferSize
  simp only [h₀, hH, if_false, Option.bind_eq_bind, Option.bind_some]
  split_ifs
  · simp
  · rw [hE]
    rcases r with e | ⟨ext, q⟩
    · simp
    · simp [sliceFrom?, hq ext q rfl]
  · simp only [minValidMsgLength] at h₀
    simp [sliceFrom?]
    omega

theorem decodeDelayedMessage_ne_none (b : List UInt8) (isExt : Bool) :
    decodeDelayedMessage b isExt ≠ none := by
  unfold decodeDelayedMessage
  by_cases h₀ : b.length < minValidMsgLength
  · simp [h₀]
  obtain ⟨⟨msg, highBits⟩, hH⟩ := decodeHeader?_of_le
    (show 26 ≤ b.length by simp only [minValidMsgLength] at h₀; omega)
  obtain ⟨r₁, hF, hq₁⟩ := decodeDelayedFields?_within b msg
  simp only [h₀, hH, hF, if_false, Option.bind_eq_bind, Option.bind_some]
  rcases r₁ with e | ⟨msg₁, pos₁⟩
  · simp
  -- each optional section either is read within the input or keeps the position
  obtain ⟨r₂, hP, hq₂⟩ := readWithin_ite (msg₁.delayedType = pubDelayed) []
    (decodePubData?_within b pos₁) (hq₁ _ _ rfl)
  simp only [hP, Option.bind_some]
  rcases r₂ with e | ⟨data, pos₂⟩
  · simp
  by_cases hx : (highBits == extMsgHighBits && !isExt) = true
  · simp [hx]
  simp only [hx]
  obtain ⟨r₃, hE, hq₃⟩ := readWithin_ite (isExt && highBits == extMsgHighBits) (0, [])
    (decodeExt?_within b pos₂ .invalidDelayedBufferSize) (hq₂ _ _ rfl)
  simp only [hE, Option.bind_some]
  rcases r₃ with e | ⟨ext, pos₃⟩
  · simp
  obtain ⟨r₄, hQ, hq₄⟩ := readWithin_ite (msg₁.delayedType = channelDelayed) (0, 0)
    (decodeQueueInfo?_within b pos₃) (hq₃ _ _ rfl)
  simp only [hQ, Option.bind_some]
  rcases r₄ with e | ⟨queue, pos₄⟩
  · simp
  simp [sliceFrom?, hq₄ _ _ rfl]

end Nsq.Codec
