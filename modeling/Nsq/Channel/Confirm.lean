import Nsq.Lib.SortedList

/-!
# Confirming consumed messages: `IntervalSkipList` and `ConfirmBackendQueue`

A channel reads messages from its disk queue in order, but its consumers finish them in any
order. `ConfirmBackendQueue` keeps the channel's confirmed position on the queue at the end of the
longest finished prefix, and holds every finished message above it in `confirmedMsgs`, an
`IntervalSkipList`: disjoint intervals of virtual offsets, each with the message count at its
end, kept in a skip list keyed by the interval's start.

The skip list is the library `goskiplist`, which is not part of the repository. It is a
parameter, `SkipList`, over the list of its values in key order, with what its `IntMap` is
documented to do as hypotheses: `Seek` positions an iterator at the first key at or above its
argument, `Previous` and `Next` step it, `SeekToLast` positions it at the last key, `Set` and
`Delete` put and remove under a key. What follows holds for every such skip list; concrete runs
use `QueueInterval.skipList`, the one by `SortedList`'s functions. `Query` is translated from its
iterator walk, branch by branch.

The backend's `ConfirmRead` is the disk queue reader's, which moves the reader's confirmed
position; here the channel keeps that position as `confirmed` and `ConfirmRead` is taken to
succeed, so that it sets it.
-/

namespace Nsq

/-- `queueInterval`: a range of virtual offsets, and the message count at its end. -/
@[ext]
structure QueueInterval where
  start : Int
  «end» : Int
  endCnt : Int
  deriving DecidableEq, Repr

/-- The fields of a channel message that confirming reads. -/
structure Message where
  offset : Int
  rawMoveSize : Int
  queueCntIndex : Int
  delayedType : Int
  deriving DecidableEq, Repr

/-- `ChannelDelayed`: the delayed type of a message the channel delayed itself. -/
def channelDelayed : Int := 1

/-- `IntervalSkipList`: the intervals, in the order of their starts, the skip list's keys. -/
abbrev IntervalSkipList := List QueueInterval

/-- The skip list of concrete runs. -/
instance QueueInterval.skipList : SkipList QueueInterval QueueInterval.start :=
  SortedList.skipList QueueInterval.start

variable [SkipList QueueInterval QueueInterval.start]

namespace IntervalSkipList

/-- `Query`: the intervals that meet `inter`, touching at the ends unless `excludeBoard`. The
walk seeks the first start at or above the query's start, steps back once to check the interval
before it, and then steps forward while the starts stay below the query's end. -/
def query (s : IntervalSkipList) (inter : QueueInterval) (excludeBoard : Bool) :
    List QueueInterval :=
  let queryEnd := if excludeBoard then inter.«end» else inter.«end» + 1
  let queryStart := if excludeBoard then inter.start + 1 else inter.start
  -- the interval behind the seek position meets `inter` when it reaches its start
  let fromPrev (p : QueueInterval) : List QueueInterval :=
    if p.«end» < inter.start then []
    else if excludeBoard ∧ p.«end» = inter.start then []
    else [p]
  match SkipList.seek s queryStart with
  | [] =>
    -- `SeekToLast`
    match s.getLast? with
    | none => []
    | some p => fromPrev p
  | first :: rest =>
    match (SkipList.before s queryStart).getLast? with
    | some p => fromPrev p ++ (first :: rest).takeWhile fun v => v.start < queryEnd
    | none =>
      (if first.start < queryEnd then [first] else []) ++
        rest.takeWhile fun v => v.start < queryEnd

/-- `AddOrMerge`: put `inter` in, merged with every interval it meets or touches, and answer the
interval that now holds it. -/
def addOrMerge (s : IntervalSkipList) (inter : QueueInterval) :
    IntervalSkipList × QueueInterval :=
  match query s inter false with
  | [] => (SkipList.set s inter, inter)
  | first :: more =>
    let last := (first :: more).getLast (List.cons_ne_nil _ _)
    let minStart := if first.start < inter.start then first.start else inter.start
    let (maxEnd, maxEndCnt) :=
      if last.«end» > inter.«end» then (last.«end», last.endCnt) else (inter.«end», inter.endCnt)
    let s' := (first :: more).foldl (fun s v => SkipList.delete s v.start) s
    let n : QueueInterval := ⟨minStart, maxEnd, maxEndCnt⟩
    (SkipList.set s' n, n)

/-- `DeleteLower`: remove every interval that ends at or below `low`, among those `Query` finds
from 0 to `low`; answer how many. -/
def deleteLower (s : IntervalSkipList) (low : Int) : IntervalSkipList × Nat :=
  let overlaps := query s ⟨0, low, 0⟩ false
  let removed := overlaps.filter fun v => v.«end» ≤ low
  (removed.foldl (fun s v => SkipList.delete s v.start) s, removed.length)

/-- `IsCompleteOverlap`: some interval meets `inter` in more than an end point. -/
def isCompleteOverlap (s : IntervalSkipList) (inter : QueueInterval) : Bool :=
  !(query s inter true).isEmpty

/-- `ToIntervalList`: the intervals as the skip list's iterator visits them, in key order. -/
def toIntervalList (s : IntervalSkipList) : List QueueInterval := s

/-- `UpdateConfirmedInterval`: a new list, with each interval added by `AddOrMerge` in turn. -/
def updateConfirmedInterval (intervals : List QueueInterval) : IntervalSkipList :=
  intervals.foldl (fun s qi => (addOrMerge s qi).1) []

end IntervalSkipList

/-- The part of a channel `ConfirmBackendQueue` reads and writes: the backend's confirmed
offset and count, and the finished messages above it. -/
structure ConfirmState where
  confirmed : Int
  confirmedCnt : Int
  confirmedMsgs : IntervalSkipList
  deriving DecidableEq, Repr

/-- `ConfirmBackendQueue` with a `ConfirmRead` that succeeds: add the message's interval; when
the merged interval reaches the confirmed offset, confirm to its end and drop what lies below.
It answers the new state, the confirmed offset and count, and whether they moved. -/
def confirmBackendQueue (c : ConfirmState) (msg : Message) :
    ConfirmState × Int × Int × Bool :=
  if msg.delayedType = channelDelayed then (c, c.confirmed, c.confirmedCnt, false)
  else if msg.offset < c.confirmed then (c, c.confirmed, c.confirmedCnt, false)
  else
    let (msgs, merged) := IntervalSkipList.addOrMerge c.confirmedMsgs
      ⟨msg.offset, msg.offset + msg.rawMoveSize, msg.queueCntIndex⟩
    if merged.«end» ≤ c.confirmed then
      let c' := { c with confirmedMsgs := (IntervalSkipList.deleteLower msgs c.confirmed).1 }
      (c', c.confirmed, c.confirmedCnt, false)
    else if merged.start ≤ c.confirmed then
      -- `ConfirmRead(newConfirmed, confirmedCnt)` succeeds, then `DeleteLower(newConfirmed)`
      let c' : ConfirmState :=
        ⟨merged.«end», merged.endCnt, (IntervalSkipList.deleteLower msgs merged.«end»).1⟩
      (c', merged.«end», merged.endCnt, true)
    else ({ c with confirmedMsgs := msgs }, c.confirmed, c.confirmedCnt, false)

section Branches

variable {c : ConfirmState} {msg : Message} {inter : QueueInterval}

/-- A message below the confirmed offset changes nothing. -/
theorem confirmBackendQueue_of_lt (h : msg.offset < c.confirmed) :
    (confirmBackendQueue c msg).1 = c := by
  by_cases hd : msg.delayedType = channelDelayed <;> simp [confirmBackendQueue, hd, h]

/-- A merged interval that reaches the confirmed offset from at or below it moves the confirmed
offset to its end, with its count, and what ends by there is dropped. -/
theorem confirmBackendQueue_of_reach
    (hinter : (⟨msg.offset, msg.offset + msg.rawMoveSize, msg.queueCntIndex⟩ : QueueInterval) =
      inter)
    (hd : msg.delayedType ≠ channelDelayed) (hge : c.confirmed ≤ msg.offset)
    (hstart : (IntervalSkipList.addOrMerge c.confirmedMsgs inter).2.start ≤ c.confirmed)
    (hend : c.confirmed < (IntervalSkipList.addOrMerge c.confirmedMsgs inter).2.«end») :
    (confirmBackendQueue c msg).1 =
      ⟨(IntervalSkipList.addOrMerge c.confirmedMsgs inter).2.«end»,
        (IntervalSkipList.addOrMerge c.confirmedMsgs inter).2.endCnt,
        (IntervalSkipList.deleteLower (IntervalSkipList.addOrMerge c.confirmedMsgs inter).1
          (IntervalSkipList.addOrMerge c.confirmedMsgs inter).2.«end»).1⟩ := by
  have hlt : ¬ msg.offset < c.confirmed := by omega
  have hle : ¬ (IntervalSkipList.addOrMerge c.confirmedMsgs inter).2.«end» ≤ c.confirmed := by
    omega
  simp only [confirmBackendQueue, hd, hlt, hinter, hle, hstart, if_false, if_true]

/-- A merged interval that lies above the confirmed offset is only stored. -/
theorem confirmBackendQueue_of_above
    (hinter : (⟨msg.offset, msg.offset + msg.rawMoveSize, msg.queueCntIndex⟩ : QueueInterval) =
      inter)
    (hd : msg.delayedType ≠ channelDelayed) (hge : c.confirmed ≤ msg.offset)
    (hstart : c.confirmed < (IntervalSkipList.addOrMerge c.confirmedMsgs inter).2.start)
    (hend : c.confirmed < (IntervalSkipList.addOrMerge c.confirmedMsgs inter).2.«end») :
    (confirmBackendQueue c msg).1 =
      { c with confirmedMsgs := (IntervalSkipList.addOrMerge c.confirmedMsgs inter).1 } := by
  have hlt : ¬ msg.offset < c.confirmed := by omega
  have hle : ¬ (IntervalSkipList.addOrMerge c.confirmedMsgs inter).2.«end» ≤ c.confirmed := by
    omega
  have hgt : ¬ (IntervalSkipList.addOrMerge c.confirmedMsgs inter).2.start ≤ c.confirmed := by
    omega
  simp only [confirmBackendQueue, hd, hlt, hinter, hle, hgt, if_false]

end Branches

end Nsq
