import Nsq.Protocol.Frames
import Nsq.Lib.SliceEdit
import Mathlib.Data.List.Infix

/-!
# The registration database of `nsqlookupd`

`nsqlookupd` keeps, for each topic, the `nsqd` peers that produce it (`registrationTopicMap`) and
the channels they hold (`registrationChannelMap`), both Go maps from the topic name to a slice of
registrations. An `nsqd` connection identifies itself once and then sends `REGISTER` and
`UNREGISTER` commands for its topics and channels; when the connection ends, every registration of
its peer is removed (`RemoveAllByPeerId`).

A Go map is a function from the key to the slice stored under it, `none` for a key it does not
hold: `RemoveAllByPeerId` leaves empty slices behind, which are `some []`, while
`RemoveChannelReg` and `RemoveTopicProducer` delete a key they empty. A producer registration
holds a pointer to its producer, of which the database reads only the peer's id: it is that id
here. The slice loops are the library's `cleanLoop` and `swapRemove`.
-/

namespace Nsq.Lookup

open SliceEdit Nsq.Protocol

/-- `OLD_VERSION_PID` -/
def oldVersionPid : Int := -11

/-- `MAX_PARTITION_NUM` -/
def maxPartitionNum : Int := 255

/-- `ChannelReg` -/
structure ChannelReg where
  partitionID : String
  peerId : String
  channel : String
  deriving DecidableEq, Repr, Inhabited

/-- `TopicProducerReg`, with its producer as its peer's id. -/
structure TopicProducerReg where
  partitionID : String
  peerId : String
  deriving DecidableEq, Repr, Inhabited

/-- `RegistrationDB`: the channel and topic maps. -/
structure RegistrationDB where
  registrationChannelMap : String → Option (List ChannelReg)
  registrationTopicMap : String → Option (List TopicProducerReg)

/-- `NewRegistrationDB` -/
def newRegistrationDB : RegistrationDB := ⟨fun _ => none, fun _ => none⟩

/-- `ChannelReg.IsMatch`: each of the three arguments matches its field, `"*"` every value. -/
def ChannelReg.isMatch (k : ChannelReg) (pid peerId ch : String) : Bool :=
  if pid ≠ "*" ∧ k.partitionID ≠ pid then false
  else if peerId ≠ "*" ∧ k.peerId ≠ peerId then false
  else if ch ≠ "*" ∧ k.channel ≠ ch then false
  else true

section Channels

variable (db : RegistrationDB)

/-- The database with the channel slice of `topic` set (`none` deletes the key). -/
def RegistrationDB.setChannels (topic : String) (v : Option (List ChannelReg)) :
    RegistrationDB :=
  { db with registrationChannelMap := Function.update db.registrationChannelMap topic v }

/-- The database with the producer slice of `topic` set (`none` deletes the key). -/
def RegistrationDB.setProducers (topic : String) (v : Option (List TopicProducerReg)) :
    RegistrationDB :=
  { db with registrationTopicMap := Function.update db.registrationTopicMap topic v }

/-- `AddChannelReg`: add `k` unless the topic holds it already; the answer says whether it was
added. A topic the map does not hold is created first. -/
def addChannelReg (topic : String) (k : ChannelReg) : RegistrationDB × Bool :=
  let (db, channels) := match db.registrationChannelMap topic with
    | some channels => (db, channels)
    | none => (db.setChannels topic (some []), [])
  if channels.any (fun ch => ch == k) then (db, false)
  else (db.setChannels topic (some (channels ++ [k])), true)

/-- `FindChannelRegs`: the channel registrations of `topic` in partition `pid`. -/
def findChannelRegs (topic pid : String) : List ChannelReg :=
  match db.registrationChannelMap topic with
  | none => []
  | some channels => channels.filter (fun ch => ch.isMatch pid "*" "*")

/-- `RemoveChannelReg`: remove every registration of `topic` that `k` matches, deleting the key
when none is left; the answer says whether any was removed. -/
def removeChannelReg (topic : String) (k : ChannelReg) : RegistrationDB × Bool :=
  match db.registrationChannelMap topic with
  | none => (db, false)
  | some channels =>
    let (cleaned, removed) :=
      cleanLoop (fun ch => ch.isMatch k.partitionID k.peerId k.channel) channels
    if removed then
      if cleaned.length = 0 then (db.setChannels topic none, true)
      else (db.setChannels topic (some cleaned), true)
    else (db, removed)

end Channels

section Producers

variable (db : RegistrationDB)

/-- The check of `AddTopicProducer` on the partition: not empty, and a number that is not
negative or is `OLD_VERSION_PID`. -/
def producerPidOk (pidStr : String) : Bool :=
  if pidStr = "" then false
  else match strconvAtoi pidStr with
    | none => false
    | some pid => if pid < 0 then pid = oldVersionPid else true

/-- `AddTopicProducer`: add the producer of peer `peerId` for partition `pidStr` unless the topic
holds one already; the answer says whether it was added. -/
def addTopicProducer (topic pidStr peerId : String) : RegistrationDB × Bool :=
  if !producerPidOk pidStr then (db, false)
  else
    let (db, producers) := match db.registrationTopicMap topic with
      | some producers => (db, producers)
      | none => (db.setProducers topic (some []), [])
    let exist := producers.any (fun producerReg =>
      producerReg.partitionID == pidStr && producerReg.peerId == peerId)
    if !exist then (db.setProducers topic (some (producers ++ [⟨pidStr, peerId⟩])), !exist)
    else (db, !exist)

/-- `RemoveAllByPeerId`: drop every producer and channel registration of peer `id`, leaving the
emptied slices in the maps. -/
def removeAllByPeerId (id : String) : RegistrationDB where
  registrationTopicMap topic := match db.registrationTopicMap topic with
    | none => none
    | some producers =>
      let (cleaned, removed) := cleanLoop (fun producer => producer.peerId == id) producers
      if removed then some cleaned else some producers
  registrationChannelMap topic := match db.registrationChannelMap topic with
    | none => none
    | some chRegs =>
      let (cleaned, removed) := cleanLoop (fun reg => reg.peerId == id) chRegs
      if removed then some cleaned else some chRegs

/-- `RemoveTopicProducer`: swap-remove the first producer of peer `id` for partition `pid`,
deleting the key when none is left; the answer says whether one was removed. -/
def removeTopicProducer (topic pid id : String) : RegistrationDB × Bool :=
  match db.registrationTopicMap topic with
  | none => (db, false)
  | some producers =>
    match producers.findIdx? (fun producerReg =>
        producerReg.partitionID == pid && producerReg.peerId == id) with
    | none => (db, false)
    | some idx =>
      let producers := swapRemove producers idx
      if producers.length = 0 then (db.setProducers topic none, true)
      else (db.setProducers topic (some producers), true)

/-- `FindPeerTopics`: for each topic, the producer registrations of peer `id`, for the topics
that have one. -/
def findPeerTopics (id : String) (topic : String) : Option (List TopicProducerReg) :=
  match db.registrationTopicMap topic with
  | none => none
  | some regs =>
    let ret := regs.filter (fun reg => reg.peerId == id)
    if ret.length > 0 then some ret else none

/-- `FindTopicProducers`: the producer registrations of `topic` in partition `pid`, all of them
for `"*"`. -/
def findTopicProducers (topic pid : String) : List TopicProducerReg :=
  match db.registrationTopicMap topic with
  | none => []
  | some producers => producers.filter (fun producerReg =>
      !(pid != "*" && pid != producerReg.partitionID))

end Producers

/-! ## The protocol -/

/-- `PeerInfo`, with the fields the registration commands read. -/
structure PeerInfo where
  id : String
  version : String
  distributedID : String
  deriving DecidableEq, Repr

/-- `strings.Contains` -/
def stringsContains (s substr : String) : Bool := decide (substr.toList <:+: s.toList)

/-- `PeerInfo.IsOldPeer`: an `nsqd` outside the HA cluster, of a version without `HA`. -/
def PeerInfo.isOldPeer (p : PeerInfo) : Bool :=
  p.distributedID = "" && !stringsContains p.version "HA"

/-- A character of `[\.a-zA-Z0-9_-]` -/
def isNameChar (c : Char) : Bool := c = '.' || c.isAlphanum || c = '_' || c = '-'

/-- `validTopicChannelNameRegex.MatchString`: `^[\.a-zA-Z0-9_-]+(#ephemeral)?$`. -/
def matchesNameRegex (name : String) : Bool :=
  let cs := name.toList
  let nameChars (l : List Char) : Bool := !l.isEmpty && l.all isNameChar
  nameChars cs || ("#ephemeral".toList <:+ cs && nameChars (cs.take (cs.length - 10)))

/-- `isValidName`: one to 64 bytes, matching the name pattern. -/
def isValidName (name : String) : Bool :=
  !(name.utf8ByteSize > 64 || name.utf8ByteSize < 1) && matchesNameRegex name

example : isValidName "orders#ephemeral" = true ∧ isValidName "#ephemeral" = false ∧
    isValidName "*" = false := by decide

/-- `protocol.IsValidTopicName` -/
def isValidTopicName (name : String) : Bool := isValidName name

/-- `protocol.IsValidChannelName` -/
def isValidChannelName (name : String) : Bool := isValidName name

/-- `GetValidPartitionID`: a partition number below `MAX_PARTITION_NUM`, or `OLD_VERSION_PID`;
`none` is its error. -/
def getValidPartitionID (numStr : String) : Option Int :=
  match strconvAtoi numStr with
  | none => none
  | some num =>
    if num ≥ 0 ∧ num < maxPartitionNum then some num
    else if num = oldVersionPid then some num
    else none

/-- `getTopicChanFromOld`: the topic and the channel (`""` for none) of an old `nsqd`'s command.
Each check returns its error at once, as the source's early returns do. -/
def getTopicChanFromOld (command : String) (params : List String) :
    Except ProtoErr (String × String) :=
  if params.length ≤ 0 then
    throw (.fatal "E_INVALID" s!"{command} insufficient number of params")
  else
    let topicName := params[0]!
    let channelName := if params.length ≥ 2 then params[1]! else ""
    if !isValidTopicName topicName then
      throw (.fatal "E_BAD_TOPIC" s!"{command} topic name \x27{topicName}\x27 is not valid")
    else if channelName ≠ "" ∧ !isValidChannelName channelName then
      throw (.fatal "E_BAD_CHANNEL" s!"{command} channel name \x27{channelName}\x27 is not valid")
    else return (topicName, channelName)

/-- `getTopicChan`: the topic, the channel (`""` for none) and the partition of a command. -/
def getTopicChan (command : String) (params : List String) :
    Except ProtoErr (String × String × String) :=
  if params.length ≤ 1 then
    throw (.fatal "E_INVALID" s!"{command} insufficient number of params")
  else
    let topicName := params[0]!
    let partitionID := params[1]!
    let channelName := if params.length ≥ 3 then params[2]! else ""
    if !isValidTopicName topicName then
      throw (.fatal "E_BAD_TOPIC" s!"{command} topic name \x27{topicName}\x27 is not valid")
    else if channelName ≠ "" ∧ !isValidChannelName channelName then
      throw (.fatal "E_BAD_CHANNEL" s!"{command} channel name \x27{channelName}\x27 is not valid")
    else if (getValidPartitionID partitionID).isNone then
      throw (.fatal "E_BAD_PARTITIONID"
        s!"{command} partition id \x27{partitionID}\x27 is not valid")
    else return (topicName, channelName, partitionID)

/-- The start `REGISTER` and `UNREGISTER` share: the topic, channel and partition by
`getTopicChan`, or for an old `nsqd` by `getTopicChanFromOld` under `OLD_VERSION_PID`. -/
def topicChanOf (command : String) (peer : PeerInfo) (params : List String) :
    Except ProtoErr (String × String × String) :=
  match getTopicChan command params with
  | .ok r => .ok r
  | .error err =>
    if peer.isOldPeer then
      match getTopicChanFromOld command params with
      | .ok (topic, channel) => .ok (topic, channel, toString oldVersionPid)
      | .error err => .error err
    else .error err

/-- `LookupProtocolV1.REGISTER` on the database: the channel first, then the producer. -/
def register (db : RegistrationDB) (peerInfo : Option PeerInfo) (params : List String) :
    Except ProtoErr RegistrationDB := do
  let some peer := peerInfo | throw (.fatal "E_INVALID" "client must IDENTIFY")
  let (topic, channel, pid) ← topicChanOf "REGISTER" peer params
  let db := if channel ≠ "" then (addChannelReg db topic ⟨pid, peer.id, channel⟩).1 else db
  return (addTopicProducer db topic pid peer.id).1

/-- `LookupProtocolV1.UNREGISTER` on the database: a channel, or a topic with all its channels
(the channel `"*"`). -/
def unregister (db : RegistrationDB) (peerInfo : Option PeerInfo) (params : List String) :
    Except ProtoErr RegistrationDB := do
  let some peer := peerInfo | throw (.fatal "E_INVALID" "client must IDENTIFY")
  let (topic, channel, pid) ← topicChanOf "UNREGISTER" peer params
  if channel ≠ "" then
    return (removeChannelReg db topic ⟨pid, peer.id, channel⟩).1
  else
    let db := (removeChannelReg db topic ⟨pid, peer.id, "*"⟩).1
    return (removeTopicProducer db topic pid peer.id).1

/-- The end of `LookupProtocolV1.IOLoop`: an identified peer's registrations are removed. -/
def closeConnection (db : RegistrationDB) (peerInfo : Option PeerInfo) : RegistrationDB :=
  match peerInfo with
  | some peer => removeAllByPeerId db peer.id
  | none => db

/-- What a connection does to the database: a command, with the connection's peer (`none`
before `IDENTIFY`), or its end. -/
inductive Event where
  | register (peerInfo : Option PeerInfo) (params : List String)
  | unregister (peerInfo : Option PeerInfo) (params : List String)
  | close (peerInfo : Option PeerInfo)

/-- One event; a command that fails leaves the database as it was. -/
def step (db : RegistrationDB) : Event → RegistrationDB
  | .register peerInfo params =>
    match register db peerInfo params with
    | .ok db' => db'
    | .error _ => db
  | .unregister peerInfo params =>
    match unregister db peerInfo params with
    | .ok db' => db'
    | .error _ => db
  | .close peerInfo => closeConnection db peerInfo

/-- The events one after another. -/
def run (db : RegistrationDB) (events : List Event) : RegistrationDB := events.foldl step db

end Nsq.Lookup
