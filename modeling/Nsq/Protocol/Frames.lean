import Nsq.Lib.ByteStream
import Nsq.Lib.ByteSlice

/-!
# Reading a publish frame from a client

After the command line, `protocolV2` reads the rest of a publishing command from the client's
stream. `preparePub` reads the body length (`readLen`: four bytes, big-endian, as `int32`) and
checks it against the size limit. `internalPubExtAndTrace` then copies the body and splits it: a
`PUB_TRACE` body starts with an 8-byte trace ID, and a `PUB_EXT` body with a 2-byte header
length `h` and `h` bytes of JSON header. An `MPUB` body is read by `readMPUB`: a message count,
then for each message its length and bytes. `nsqlookupd`'s `IDENTIFY` reads a length and a body
of that length.

Go slicing panics outside `0 ≤ lo ≤ hi ≤ cap`, and `make` panics for a negative length; both
are errors of their own here (`GoPanic`), beside the client errors the handlers answer. A
`PUB_EXT` slice bound is the `uint16` sum `MsgJsonHeaderLength + extJsonLen`, which is kept
modulo `2 ^ 16` as the code computes it.

The stream is the list of bytes after the command line, and each handler answers what it read and
the stream after it. What the handlers do with a frame once it is read (the JSON header's
contents past its trace ID, the ext compatibility checks, the put to the topic and the response)
reads no more of the stream and is left out; so is the topic object, of which `preparePub` reads
only whether it is ordered.
-/

namespace Nsq.Protocol

open ByteStream ByteSlice

/-- The run-time panics the handlers can reach. -/
inductive GoPanic where
  /-- `slice bounds out of range [lo:hi]` -/
  | sliceBounds (lo hi : Nat)
  /-- `makeslice: len out of range` -/
  | makeSliceLen (n : Int)
  deriving DecidableEq, Repr

/-- How a command fails: a client error (`protocol.NewFatalClientErr` closes the connection,
`protocol.NewClientErr` does not) with its code and description, or a panic. -/
inductive ProtoErr where
  | fatal (code desc : String)
  | client (code desc : String)
  | panic (p : GoPanic)
  deriving DecidableEq, Repr

/-- `MsgTraceIDLength` -/
def msgTraceIDLength : Nat := 8

/-- `MsgJsonHeaderLength` -/
def msgJsonHeaderLength : Nat := 2

/-- `b[lo:hi]` of a slice whose capacity is its length. -/
def goSlice (b : List UInt8) (lo hi : Nat) : Except ProtoErr (List UInt8) :=
  match slice? b lo hi with
  | some s => .ok s
  | none => .error (.panic (.sliceBounds lo hi))

/-- `b[lo:]` -/
def goSliceFrom (b : List UInt8) (lo : Nat) : Except ProtoErr (List UInt8) :=
  match sliceFrom? b lo with
  | some s => .ok s
  | none => .error (.panic (.sliceBounds lo b.length))

/-- `readLen`: `io.ReadFull` of four bytes, read as a big-endian `int32`. -/
def readLen (r : List UInt8) : Except ReadError (Int × List UInt8) :=
  (readFull r 4).map fun (b, rest) => (BigEndian.decodeInt 4 b, rest)

/-- `strconv.Atoi`: an optional sign and decimal digits, within the 64-bit range; `none` is its
error. The value Go answers with an error (`0`, or the range's bound) is never read here. -/
def strconvAtoi (s : String) : Option Int :=
  let (neg, digits) := match s.toList with
    | '-' :: rest => (true, rest)
    | '+' :: rest => (false, rest)
    | cs => (false, cs)
  if digits.isEmpty || !digits.all Char.isDigit then none
  else
    let n : Nat := digits.foldl (fun acc c => acc * 10 + (c.toNat - '0'.toNat)) 0
    let v : Int := if neg then -(n : Int) else n
    if v < -2 ^ 63 ∨ v ≥ 2 ^ 63 then none else some v

example : strconvAtoi "+05" = some 5 ∧ strconvAtoi "-11" = some (-11) ∧ strconvAtoi "5a" = none :=
  by decide

/-- What the publish handlers read of the server beside the stream: the topic lookup and the
authorisation, the JSON header's parse, and the size limits. -/
structure PubCtx (τ : Type) where
  /-- the text of the error `strconv.Atoi` answers for a string it refuses -/
  atoiErr : String → String
  /-- `ctx.getDefaultPartition` -/
  getDefaultPartition : String → Int
  /-- `ctx.getExistingTopic` -/
  getExistingTopic : String → Int → Option τ
  /-- `topic.IsOrdered()` -/
  isOrdered : τ → Bool
  /-- `CheckAuth(client, "PUB", topicName, "")`: the code and text of its fatal error, if any -/
  checkAuth : String → Option (String × String)
  /-- `simpleJson.NewJson` of the header and the trace ID it names under `##trace_id`, if any;
  its errors are the code and text of a client error -/
  parseJsonHeader : List UInt8 → Except (String × String) (Option UInt64)
  /-- `MaxMsgSize` -/
  maxMsgSize : Int
  /-- `MaxBodySize` -/
  maxBodySize : Int

variable {τ : Type} (ctx : PubCtx τ)

/-- The parameters of `preparePub`: the topic name, the partition given (`-1` for none) and the
partition to publish to. -/
def pubPartition (params : List String) : Except ProtoErr (String × Int × Int) := do
  if params.length < 2 then
    throw (.fatal "E_INVALID" "insufficient number of parameters")
  let topicName := params[1]!
  let partition ← if params.length = 3 then
      match strconvAtoi params[2]! with
      | some p => pure p
      | none =>
        let e := ctx.atoiErr params[2]!
        throw (.fatal "E_BAD_PARTITION" s!"topic partition is not valid: {e}")
    else pure (-1)
  let origPart := partition
  let partition := if partition = -1 then ctx.getDefaultPartition topicName else partition
  return (topicName, origPart, partition)

/-- The checks of the body length in `preparePub`. -/
def checkBodyLen (bodyLen maxBody : Int) (isMpub : Bool) : Except ProtoErr Unit := do
  if bodyLen ≤ 0 then
    throw (.fatal "E_BAD_BODY" s!"invalid body size {bodyLen}")
  if bodyLen > maxBody then
    if isMpub then throw (.fatal "E_BAD_BODY" s!"body too big {bodyLen} > {maxBody}")
    else throw (.fatal "E_BAD_MESSAGE" s!"message too big {bodyLen} > {maxBody}")

/-- The topic of `preparePub`: an existing one, not ordered when no partition was given, that
the client may publish to. -/
def pubTopic (topicName : String) (origPart partition : Int) : Except ProtoErr τ := do
  let some topic := ctx.getExistingTopic topicName partition
    | throw (.fatal "E_TOPIC_NOT_EXIST" "")
  if origPart = -1 ∧ ctx.isOrdered topic then
    throw (.fatal "E_BAD_PARTITION"
      s!"topic partition is not valid for multi partition: {origPart}")
  if let some (code, desc) := ctx.checkAuth topicName then throw (.fatal code desc)
  return topic

/-- `preparePub`: check the parameters, read the body length and check it against `maxBody`,
find the topic. It answers the body length, the topic and the stream after the length. -/
def preparePub (params : List String) (maxBody : Int) (isMpub : Bool) (r : List UInt8) :
    Except ProtoErr (Int × τ × List UInt8) := do
  let (topicName, origPart, partition) ← pubPartition ctx params
  let (bodyLen, r) ← (readLen r).mapError fun _ =>
    .fatal "E_BAD_BODY" "failed to read body size"
  checkBodyLen bodyLen maxBody isMpub
  let topic ← pubTopic ctx topicName origPart partition
  return (bodyLen, topic, r)

/-- A publish body as `internalPubExtAndTrace` splits it: the trace ID, the JSON header of a
`PUB_EXT`, and the message body. -/
structure PubFrame where
  traceID : UInt64
  extJsonBytes : Option (List UInt8)
  realBody : List UInt8
  deriving DecidableEq, Repr

/-- The split of a publish body of `bodyLen` bytes in `internalPubExtAndTrace`. -/
def splitPubBody (pubExt traceEnable : Bool) (bodyLen : Int) (messageBody : List UInt8) :
    Except ProtoErr PubFrame := do
  if traceEnable ∧ ¬pubExt then
    let traceID ← goSlice messageBody 0 msgTraceIDLength
    let realBody ← goSliceFrom messageBody msgTraceIDLength
    return ⟨UInt64.ofNat (BigEndian.decode traceID), none, realBody⟩
  else if pubExt then
    let lenBytes ← goSlice messageBody 0 msgJsonHeaderLength
    let extJsonLen := BigEndian.decode lenBytes
    -- the check is made in `int32`, the slice bounds in `uint16`
    if bodyLen ≤ msgJsonHeaderLength + extJsonLen then
      throw (.fatal "E_BAD_BODY"
        s!"invalid body size {bodyLen} in ext json header content length")
    let extJsonBytes ← goSlice messageBody msgJsonHeaderLength
      ((msgJsonHeaderLength + extJsonLen) % 2 ^ 16)
    let traceID ← (ctx.parseJsonHeader extJsonBytes).mapError fun (code, desc) =>
      .client code desc
    let realBody ← goSliceFrom messageBody ((msgJsonHeaderLength + extJsonLen) % 2 ^ 16)
    return ⟨traceID.getD 0, some extJsonBytes, realBody⟩
  else
    return ⟨0, none, messageBody⟩

/-- `internalPubExtAndTrace` up to the message it puts: read and check the body, then split it.
It answers the frame and the stream after the body. -/
def internalPubExtAndTrace (params : List String) (pubExt traceEnable : Bool)
    (r : List UInt8) : Except ProtoErr (PubFrame × List UInt8) := do
  let (bodyLen, _, r) ← preparePub ctx params ctx.maxMsgSize false r
  if traceEnable ∧ bodyLen ≤ msgTraceIDLength then
    throw (.fatal "E_BAD_BODY" s!"invalid body size {bodyLen} with trace id enabled")
  if pubExt ∧ bodyLen ≤ msgJsonHeaderLength then
    throw (.fatal "E_BAD_BODY" s!"invalid body size {bodyLen} with ext json header enabled")
  let (messageBody, r) ← (copyN r bodyLen.toNat).mapError fun _ =>
    .fatal "E_BAD_MESSAGE" "failed to read message body"
  let frame ← splitPubBody ctx pubExt traceEnable bodyLen messageBody
  return (frame, r)

/-- One message of `readMPUB`'s loop, the `i`-th: its length, checked, and its bytes, split into
the trace ID and the body. It answers them and the stream after the message. -/
def readMPUBMessage (maxMessageSize : Int) (traceEnable : Bool) (i : Nat) (r : List UInt8) :
    Except ProtoErr ((UInt64 × List UInt8) × List UInt8) := do
  let (messageSize, r) ← (readLen r).mapError fun _ =>
    .fatal "E_BAD_MESSAGE" s!"MPUB failed to read message({i}) body size"
  if messageSize ≤ 0 then
    throw (.fatal "E_BAD_MESSAGE" s!"MPUB invalid message({i}) body size {messageSize}")
  if messageSize > maxMessageSize then
    throw (.fatal "E_BAD_MESSAGE" s!"MPUB message too big {messageSize} > {maxMessageSize}")
  let (msgBody, r) ← (copyN r messageSize.toNat).mapError fun _ =>
    .fatal "E_BAD_MESSAGE" "MPUB failed to read message body"
  if traceEnable then
    if messageSize ≤ msgTraceIDLength then
      throw (.fatal "E_BAD_MESSAGE"
        s!"MPUB invalid message({i}) body size {messageSize} for tracing")
    let traceID ← goSlice msgBody 0 msgTraceIDLength
    let realBody ← goSliceFrom msgBody msgTraceIDLength
    return ((UInt64.ofNat (BigEndian.decode traceID), realBody), r)
  else return ((0, msgBody), r)

/-- The loop of `readMPUB` over messages `i` to `i + n - 1`, with the messages read so far. -/
def readMPUBLoop (maxMessageSize : Int) (traceEnable : Bool) :
    Nat → Nat → List (UInt64 × List UInt8) → List UInt8 →
      Except ProtoErr (List (UInt64 × List UInt8) × List UInt8)
  | 0, _, messages, r => .ok (messages, r)
  | n + 1, i, messages, r => do
    let (msg, r) ← readMPUBMessage maxMessageSize traceEnable i r
    readMPUBLoop maxMessageSize traceEnable n (i + 1) (messages ++ [msg]) r

/-- `readMPUB`: the message count, checked against what `maxBodySize` can hold at five bytes a
message, then the messages. It answers them and the stream after the last. -/
def readMPUB (r : List UInt8) (maxMessageSize maxBodySize : Int) (traceEnable : Bool) :
    Except ProtoErr (List (UInt64 × List UInt8) × List UInt8) := do
  let (numMessages, r) ← (readLen r).mapError fun _ =>
    .fatal "E_BAD_BODY" "MPUB failed to read message count"
  -- 4 == total num, 5 == length + min 1
  let maxMessages := (maxBodySize - 4).tdiv 5
  if numMessages ≤ 0 ∨ numMessages > maxMessages then
    throw (.fatal "E_BAD_BODY" s!"MPUB invalid message count {numMessages}")
  readMPUBLoop maxMessageSize traceEnable numMessages.toNat 0 [] r

/-- `internalMPUBAndTrace` up to the messages it puts. The body length `preparePub` reads is
dropped (`_`). -/
def internalMPUBAndTrace (params : List String) (traceEnable : Bool) (r : List UInt8) :
    Except ProtoErr (List (UInt64 × List UInt8) × List UInt8) := do
  let (_, _, r) ← preparePub ctx params ctx.maxBodySize true r
  readMPUB r ctx.maxMsgSize ctx.maxBodySize traceEnable

/-- `LookupProtocolV1.IDENTIFY` up to the JSON body: refused once identified, then the body length
(`binary.Read` of an `int32`) and `make([]byte, bodyLen)` filled by `io.ReadFull`. -/
def identify (identified : Bool) (r : List UInt8) :
    Except ProtoErr (List UInt8 × List UInt8) := do
  if identified then throw (.fatal "E_INVALID" "cannot IDENTIFY again")
  let (bodyLen, r) ← (readLen r).mapError fun _ =>
    .fatal "E_BAD_BODY" "IDENTIFY failed to read body size"
  if bodyLen < 0 then throw (.panic (.makeSliceLen bodyLen))
  (readFull r bodyLen.toNat).mapError fun _ =>
    .fatal "E_BAD_BODY" "IDENTIFY failed to read body"

end Nsq.Protocol
