import Nsq.Channel.ConfirmSpec
import Nsq.DiskQueue.Delivery

/-!
# Confirming on the disk queue reader

`confirmBackendQueue` of `Nsq.Channel.Confirm` keeps the channel's confirmed position itself and
takes the backend's `ConfirmRead` to succeed. Here the backend is the disk queue reader: the
channel's `GetConfirmed` is the reader's confirmed position, and `Channel.confirmBackendQueue`
asks the reader's `ConfirmRead` to move it, keeping the merged interval and answering the old
position when that fails, as the code does.

The channel reads its messages with `TryReadOne`; `messagePump` takes each message's offset, moved
size and count from the read (`Message.ofRead`), so the messages read from a boundary on
(`readMessages`) follow one another as `Consecutive` asks.

`Mirrors a c` relates the two channels: the same intervals, and the abstract confirmed position
and count are the reader's. One finish of a message read, with the reader in a session whose
confirmed position is the first unfinished message, takes the abstract step: the position stays,
or it moves forward to a boundary at or before the read position, where the reader's `ConfirmRead`
succeeds (`confirmBackendQueue_session`). Over a run of finishes (`confirmAll_session`) and on the
queue's reader (`confirmAll_on_reader`), every `ConfirmRead` succeeds, so what
`Nsq.Channel.ConfirmSpec` proves of the abstract channel holds of the channel over its reader,
whose confirmed position is the first unfinished message.
-/

namespace Nsq

open FrameLog DiskQueueReader

/-- The fields of a channel message `messagePump` takes from the read that answered it: its
offset, its moved size and its count. A message the topic wrote is not channel-delayed. -/
def Message.ofRead (r : ReadResult) : Message := ⟨r.offset, r.movedSize, r.curCnt, 0⟩

/-- The messages a channel reads from the `j`-th message of `ds` on, `n` of them. -/
def readMessages (ds : List (List UInt8)) (j n : Nat) : List Message :=
  (List.range n).map fun k => Message.ofRead (messageAt ds (j + k))

@[simp] theorem length_readMessages (ds : List (List UInt8)) (j n : Nat) :
    (readMessages ds j n).length = n := by
  simp [readMessages]

theorem getElem_readMessages (ds : List (List UInt8)) (j n : Nat) {k : Nat}
    (hk : k < (readMessages ds j n).length) :
    (readMessages ds j n)[k] = Message.ofRead (messageAt ds (j + k)) := by
  simp [readMessages]

/-- The channel's offsets of the messages read are the log's frame offsets. -/
theorem msgOffset_readMessages {ds : List (List UInt8)} {j n : Nat} (hn : j + n ≤ ds.length) :
    ∀ b, b ≤ n → msgOffset (frameOffset ds j) (readMessages ds j n) b = frameOffset ds (j + b)
  | 0, _ => by simp [msgOffset]
  | b + 1, hb => by
    have hlt : b < (readMessages ds j n).length := by simp; omega
    rw [msgOffset_succ hlt, msgOffset_readMessages hn b (by omega), getElem_readMessages,
      ← Nat.add_assoc, frameOffset_succ ds (by omega)]
    simp only [Message.ofRead, messageAt, List.getD_eq_getElem _ _ (show j + b < ds.length by omega)]
    omega

/-- The messages read from a boundary on follow one another as the channel expects. -/
theorem consecutive_readMessages {ds : List (List UInt8)} {j n : Nat} (hn : j + n ≤ ds.length) :
    Consecutive (frameOffset ds j) j (readMessages ds j n) := by
  intro i hi
  rw [getElem_readMessages, msgOffset_readMessages hn i (by simp at hi; omega)]
  refine ⟨rfl, ?_, ?_, ?_⟩
  · simp only [Message.ofRead, messageAt]
    push_cast
    omega
  · simp only [Message.ofRead, messageAt]
    omega
  · simp [Message.ofRead, channelDelayed]

/-- With nothing finished the first unfinished message is the first. -/
theorem firstGap_nil (n : Nat) : firstGap [] n = 0 :=
  firstGap_eq (Nat.zero_le _) (fun _ h => absurd h (Nat.not_lt_zero _)) fun _ => List.not_mem_nil

section Confirming

variable [SkipList QueueInterval QueueInterval.start]

/-- What `confirmBackendQueue` answers, finish after finish, over the messages `is` in turn. -/
def confirmAllAnswers (msgs : List Message) :
    List (Fin msgs.length) → ConfirmState → List (Int × Int × Bool)
  | [], _ => []
  | i :: is, a =>
    (confirmBackendQueue a (msgs.get i)).2 :: confirmAllAnswers msgs is (confirmBackendQueue a (msgs.get i)).1

/-- The part of a channel that `ConfirmBackendQueue` reads and writes over its disk queue: the
finished messages above the confirmed position, and the reader, which holds that position. -/
structure Channel where
  confirmedMsgs : IntervalSkipList
  backend : DiskQueueReader

namespace Channel

/-- `ConfirmBackendQueue` over the disk queue reader: the confirmed position is the reader's
(`GetConfirmed`), and `ConfirmRead` is the reader's. A failed `ConfirmRead` keeps the merged
interval and answers the position it could not move. -/
def confirmBackendQueue (disk : Disk) (c : Channel) (msg : Message) : Channel × Int × Int × Bool :=
  let curConfirm := c.backend.confirmedQueueInfo
  if msg.delayedType = channelDelayed then (c, curConfirm.offset, curConfirm.totalMsgCnt, false)
  else if msg.offset < curConfirm.offset then (c, curConfirm.offset, curConfirm.totalMsgCnt, false)
  else
    let (msgs, merged) := IntervalSkipList.addOrMerge c.confirmedMsgs
      ⟨msg.offset, msg.offset + msg.rawMoveSize, msg.queueCntIndex⟩
    if merged.«end» ≤ curConfirm.offset then
      ({ c with confirmedMsgs := (IntervalSkipList.deleteLower msgs curConfirm.offset).1 },
        curConfirm.offset, curConfirm.totalMsgCnt, false)
    else if merged.start ≤ curConfirm.offset then
      let (d', err) := confirmRead disk c.backend merged.«end» merged.endCnt
      match err with
      | some _ => (⟨msgs, d'⟩, curConfirm.offset, curConfirm.totalMsgCnt, true)
      | none => (⟨(IntervalSkipList.deleteLower msgs merged.«end»).1, d'⟩, merged.«end», merged.endCnt, true)
    else ({ c with confirmedMsgs := msgs }, curConfirm.offset, curConfirm.totalMsgCnt, false)

/-- The channel over its reader agrees with the channel of `Nsq.confirmBackendQueue`, which keeps
the confirmed position itself. -/
structure Mirrors (a : ConfirmState) (c : Channel) : Prop where
  intervals : a.confirmedMsgs = c.confirmedMsgs
  confirmed : a.confirmed = c.backend.confirmedQueueInfo.offset
  confirmedCnt : a.confirmedCnt = c.backend.confirmedQueueInfo.totalMsgCnt

/-- The channel finishing the messages `is` in turn, each through `ConfirmBackendQueue` on its
reader, with what each finish answered. -/
def confirmAll (disk : Disk) (msgs : List Message) :
    List (Fin msgs.length) → Channel → Channel × List (Int × Int × Bool)
  | [], c => (c, [])
  | i :: is, c =>
    let (c₁, r) := confirmBackendQueue disk c (msgs.get i)
    let (c₂, rs) := confirmAll disk msgs is c₁
    (c₂, r :: rs)

variable {disk : Disk} {a : ConfirmState} {c : Channel} {msg : Message}

/-- What `ConfirmBackendQueue` answers is the confirmed position it leaves. -/
theorem answer_eq_confirmed (a : ConfirmState) (msg : Message) :
    (Nsq.confirmBackendQueue a msg).2.1 = (Nsq.confirmBackendQueue a msg).1.confirmed ∧
      (Nsq.confirmBackendQueue a msg).2.2.1 = (Nsq.confirmBackendQueue a msg).1.confirmedCnt := by
  unfold Nsq.confirmBackendQueue
  rcases hM : IntervalSkipList.addOrMerge a.confirmedMsgs
    ⟨msg.offset, msg.offset + msg.rawMoveSize, msg.queueCntIndex⟩ with ⟨s, M⟩
  dsimp only
  split_ifs <;> exact ⟨rfl, rfl⟩

/-- A finish that does not move the confirmed position leaves it where it was. -/
theorem confirmed_of_stay (h : (Nsq.confirmBackendQueue a msg).2.2.2 = false) :
    (Nsq.confirmBackendQueue a msg).1.confirmed = a.confirmed ∧
      (Nsq.confirmBackendQueue a msg).1.confirmedCnt = a.confirmedCnt := by
  unfold Nsq.confirmBackendQueue at h ⊢
  rcases hM : IntervalSkipList.addOrMerge a.confirmedMsgs
    ⟨msg.offset, msg.offset + msg.rawMoveSize, msg.queueCntIndex⟩ with ⟨s, M⟩
  rw [hM] at h
  dsimp only at h ⊢
  split_ifs at h ⊢ <;> exact ⟨rfl, rfl⟩

/-- A finish that moves the confirmed position moves it forward. -/
theorem confirmed_lt_of_move (h : (Nsq.confirmBackendQueue a msg).2.2.2 = true) :
    a.confirmed < (Nsq.confirmBackendQueue a msg).1.confirmed := by
  unfold Nsq.confirmBackendQueue at h ⊢
  rcases hM : IntervalSkipList.addOrMerge a.confirmedMsgs
    ⟨msg.offset, msg.offset + msg.rawMoveSize, msg.queueCntIndex⟩ with ⟨s, M⟩
  rw [hM] at h
  dsimp only at h ⊢
  split_ifs at h ⊢ with h₁ h₂ h₃ h₄
  exact Int.lt_of_not_ge h₃

/-- Where the position does not move, the reader is not asked, and the two channels take the
same step. -/
theorem confirmBackendQueue_of_stay (hm : Mirrors a c)
    (h : (Nsq.confirmBackendQueue a msg).2.2.2 = false) :
    confirmBackendQueue disk c msg =
      (⟨(Nsq.confirmBackendQueue a msg).1.confirmedMsgs, c.backend⟩, (Nsq.confirmBackendQueue a msg).2) := by
  obtain ⟨s₀, d⟩ := c
  obtain ⟨conf, cnt, ms⟩ := a
  obtain ⟨hi, hc, hk⟩ := hm
  dsimp only at hi hc hk
  subst hi hc hk
  unfold Nsq.confirmBackendQueue at h ⊢
  unfold confirmBackendQueue
  rcases hM : IntervalSkipList.addOrMerge ms
    ⟨msg.offset, msg.offset + msg.rawMoveSize, msg.queueCntIndex⟩ with ⟨s, M⟩
  rw [hM] at h
  dsimp only at h ⊢
  split_ifs at h ⊢ <;> rfl

/-- Where the position moves, the reader is asked to confirm there; when it does, the two channels
take the same step. -/
theorem confirmBackendQueue_of_move (hm : Mirrors a c)
    (h : (Nsq.confirmBackendQueue a msg).2.2.2 = true) {d' : DiskQueueReader}
    (hread : confirmRead disk c.backend (Nsq.confirmBackendQueue a msg).2.1
      (Nsq.confirmBackendQueue a msg).2.2.1 = (d', none)) :
    confirmBackendQueue disk c msg =
      (⟨(Nsq.confirmBackendQueue a msg).1.confirmedMsgs, d'⟩, (Nsq.confirmBackendQueue a msg).2) := by
  obtain ⟨s₀, d⟩ := c
  obtain ⟨conf, cnt, ms⟩ := a
  obtain ⟨hi, hc, hk⟩ := hm
  dsimp only at hi hc hk
  subst hi hc hk
  unfold Nsq.confirmBackendQueue at h hread ⊢
  unfold confirmBackendQueue
  rcases hM : IntervalSkipList.addOrMerge ms
    ⟨msg.offset, msg.offset + msg.rawMoveSize, msg.queueCntIndex⟩ with ⟨s, M⟩
  rw [hM] at h hread
  dsimp only at h hread ⊢
  split_ifs at h hread ⊢
  dsimp only at hread
  simp only [hread]

/-! ## Over a session of the reader -/

section Session

variable {maxBytesPerFile : Int} {ds : List (List UInt8)}
  (hcont : ∀ f, disk.contents f = (empty.appendAll maxBytesPerFile ds).files f)
  (hpres : ∀ f, (empty.appendAll maxBytesPerFile ds).files f ≠ [] → disk.dataFile f ≠ none)
include hcont hpres

/-- One finish of a message the channel read, with the reader in a session whose confirmed
position is at the first unfinished message: the reader's `ConfirmRead` succeeds, the channel
takes the step that `Nsq.confirmBackendQueue` takes, and the session moves to the new first
unfinished message. -/
theorem confirmBackendQueue_session {j n : Nat} (hn : j + n ≤ ds.length) {acked : List Nat}
    (hS : Summarizes (frameOffset ds j) j (readMessages ds j n) acked a) (hm : Mirrors a c)
    (hs : SessionAt maxBytesPerFile ds disk (j + n) (j + firstGap acked n) c.backend)
    {k : Nat} (hk : k < (readMessages ds j n).length) :
    ∃ c', confirmBackendQueue disk c (readMessages ds j n)[k] =
        (c', (Nsq.confirmBackendQueue a (readMessages ds j n)[k]).2) ∧
      Mirrors (Nsq.confirmBackendQueue a (readMessages ds j n)[k]).1 c' ∧
      SessionAt maxBytesPerFile ds disk (j + n) (j + firstGap (k :: acked) n) c'.backend := by
  have hc := consecutive_readMessages hn
  have hS' := summarizes_step hc hS hk (frameOffset_nonneg ds (by omega))
  obtain ⟨hans, hcnt⟩ := answer_eq_confirmed a (readMessages ds j n)[k]
  -- both confirmed positions are boundaries of the log: the first unfinished messages'
  have hg : a.confirmed = frameOffset ds (j + firstGap acked n) := by
    rw [hS.confirmed_eq, length_readMessages, msgOffset_readMessages hn _ firstGap_le]
  have hg' : (Nsq.confirmBackendQueue a (readMessages ds j n)[k]).1.confirmed =
      frameOffset ds (j + firstGap (k :: acked) n) := by
    rw [hS'.confirmed_eq, length_readMessages, msgOffset_readMessages hn _ firstGap_le]
  have hle : firstGap (k :: acked) n ≤ n := firstGap_le
  cases hmove : (Nsq.confirmBackendQueue a (readMessages ds j n)[k]).2.2.2
  · -- the position stays, and so does the first unfinished message
    obtain ⟨hstay, hstayCnt⟩ := confirmed_of_stay hmove
    have heq : frameOffset ds (j + firstGap (k :: acked) n) = frameOffset ds (j + firstGap acked n) := by
      rw [← hg', ← hg, hstay]
    have hsame := frameOffset_inj (by omega) (by have := @firstGap_le acked n; omega) heq
    refine ⟨⟨(Nsq.confirmBackendQueue a (readMessages ds j n)[k]).1.confirmedMsgs, c.backend⟩,
      confirmBackendQueue_of_stay hm hmove, ⟨rfl, hstay.trans hm.confirmed, hstayCnt.trans hm.confirmedCnt⟩,
      ?_⟩
    rw [hsame]
    exact hs
  · -- the position moves forward to a boundary at or before the read position
    have hlt : j + firstGap acked n < j + firstGap (k :: acked) n := by
      by_contra hge
      have := frameOffset_le ds (Nat.le_of_not_lt hge) (by have := @firstGap_le acked n; omega)
      have := confirmed_lt_of_move hmove
      omega
    obtain ⟨d', hconf, hs', -⟩ := internalConfirm_session hcont hpres hs hlt (by omega)
    have hread : confirmRead disk c.backend (Nsq.confirmBackendQueue a (readMessages ds j n)[k]).2.1
        (Nsq.confirmBackendQueue a (readMessages ds j n)[k]).2.2.1 = (d', none) := by
      rw [hans, hcnt, hg', hS'.confirmedCnt_eq, length_readMessages, confirmRead, if_neg (by rw [hs.running]; decide)]
      exact hconf
    refine ⟨⟨(Nsq.confirmBackendQueue a (readMessages ds j n)[k]).1.confirmedMsgs, d'⟩,
      confirmBackendQueue_of_move hm hmove hread, ⟨rfl, ?_, ?_⟩, hs'⟩
    · rw [hg']
      exact hs'.confirmed.2.1.symm
    · rw [hS'.confirmedCnt_eq, length_readMessages, hs'.confirmed.2.2.1]
      push_cast
      rfl

/-- A run of finishes of the messages the channel read: every `ConfirmRead` succeeds, so the
channel answers what `Nsq.confirmBackendQueue` answers and holds its intervals, and the reader's
confirmed position follows the first unfinished message. The induction is on the finishes, each
step `confirmBackendQueue_session`. -/
theorem confirmAll_session {j n : Nat} (hn : j + n ≤ ds.length)
    (is : List (Fin (readMessages ds j n).length)) {acked : List Nat} {a : ConfirmState} {c : Channel}
    (hS : Summarizes (frameOffset ds j) j (readMessages ds j n) acked a) (hm : Mirrors a c)
    (hs : SessionAt maxBytesPerFile ds disk (j + n) (j + firstGap acked n) c.backend) :
    (confirmAll disk (readMessages ds j n) is c).2 = confirmAllAnswers (readMessages ds j n) is a ∧
      Mirrors (is.foldl (fun a i => (Nsq.confirmBackendQueue a (readMessages ds j n)[i]).1) a)
        (confirmAll disk (readMessages ds j n) is c).1 ∧
      SessionAt maxBytesPerFile ds disk (j + n) (j + firstGap (acked ++ is.map Fin.val) n)
        (confirmAll disk (readMessages ds j n) is c).1.backend := by
  induction is generalizing acked a c with
  | nil => exact ⟨rfl, hm, by rw [List.map_nil, List.append_nil]; exact hs⟩
  | cons i is ih =>
    obtain ⟨c₁, hstep, hm₁, hs₁⟩ := confirmBackendQueue_session hcont hpres hn hS hm hs i.isLt
    -- the message is finished: first or last among the finished makes no difference
    have hmem : ∀ l, l ∈ i.val :: acked ↔ l ∈ acked ++ [i.val] := fun l => by
      simp only [List.mem_cons, List.mem_append, List.not_mem_nil, or_false]
      exact or_comm
    have hS₁ := (summarizes_step (consecutive_readMessages hn) hS i.isLt
      (frameOffset_nonneg ds (by omega))).congr hmem
    rw [firstGap_congr hmem] at hs₁
    obtain ⟨hans, hm', hs'⟩ := ih hS₁ hm₁ hs₁
    refine ⟨?_, ?_, ?_⟩
    · simp only [confirmAll, confirmAllAnswers, List.get_eq_getElem, hstep]
      rw [hans]
    · simp only [confirmAll, List.foldl_cons, List.get_eq_getElem, Fin.getElem_fin, hstep]
      exact hm'
    · simp only [confirmAll, List.map_cons, List.get_eq_getElem, hstep]
      rw [← List.singleton_append, ← List.append_assoc]
      exact hs'

end Session

/-! ## On the queue's reader -/

section Queue

open Delivery

/-- The channel over a queue in step with the acknowledged log, having read the messages from the
acknowledged index to the read index and finished none: every sequence of finishes through
`ConfirmBackendQueue` on the queue's reader has every `ConfirmRead` succeed, so the channel answers
what `Nsq.confirmBackendQueue`, which takes `ConfirmRead` to succeed, answers, holds the same
intervals, and leaves the reader in its session with confirmed on the first unfinished message. -/
theorem confirmAll_on_reader {maxBytesPerFile minMsgSize maxMsgSize : Int}
    {s : AckLog.State (List UInt8)} {q : Queue} (hq : QueueAt maxBytesPerFile minMsgSize maxMsgSize s q)
    (is : List (Fin (readMessages s.log s.confirmed (s.read - s.confirmed)).length)) :
    (confirmAll q.disk (readMessages s.log s.confirmed (s.read - s.confirmed)) is ⟨[], q.reader⟩).2 =
        confirmAllAnswers (readMessages s.log s.confirmed (s.read - s.confirmed)) is ⟨frameOffset s.log s.confirmed, s.confirmed, []⟩ ∧
      Mirrors (Nsq.confirmAll (frameOffset s.log s.confirmed) s.confirmed (readMessages s.log s.confirmed (s.read - s.confirmed)) is)
        (confirmAll q.disk (readMessages s.log s.confirmed (s.read - s.confirmed)) is ⟨[], q.reader⟩).1 ∧
      SessionAt maxBytesPerFile s.log q.disk s.read
        (s.confirmed + firstGap (is.map Fin.val) (s.read - s.confirmed))
        (confirmAll q.disk (readMessages s.log s.confirmed (s.read - s.confirmed)) is ⟨[], q.reader⟩).1.backend := by
  have hjn : s.confirmed + (s.read - s.confirmed) = s.read := by
    have := s.confirmed_le
    omega
  have hs : SessionAt maxBytesPerFile s.log q.disk (s.confirmed + (s.read - s.confirmed))
      (s.confirmed + firstGap [] (s.read - s.confirmed)) q.reader := by
    rw [hjn, firstGap_nil, Nat.add_zero]
    exact hq.reader
  have hm : Mirrors ⟨frameOffset s.log s.confirmed, s.confirmed, []⟩ ⟨[], q.reader⟩ :=
    ⟨rfl, hq.reader.confirmed.2.1.symm, hq.reader.confirmed.2.2.1.symm⟩
  obtain ⟨hans, hm', hs'⟩ := confirmAll_session hq.contents hq.present
    (by have := s.read_le; omega) is (summarizes_nil _ _ _) hm hs
  rw [List.nil_append, hjn] at hs'
  exact ⟨hans, hm', hs'⟩

end Queue

end Channel

end Confirming

open Delivery in
/-- Three messages read; the second finished, then the first. -/
theorem Channel.confirmAll_on_reader_outOfOrder :
    QueueAt 8 1 1024 (AckLog.run .empty [.append [[1], [2, 3], [4]], .read, .read, .read]).1
      (queueRun 1 (Queue.new 8 1 1024 false)
        (callsOf .empty [.append [[1], [2, 3], [4]], .read, .read, .read])).1 ∧
    (confirmAll (queueRun 1 (Queue.new 8 1 1024 false)
        (callsOf .empty [.append [[1], [2, 3], [4]], .read, .read, .read])).1.disk (readMessages (AckLog.run .empty [.append [[1], [2, 3], [4]], .read, .read, .read]).1.log (AckLog.run .empty [.append [[1], [2, 3], [4]], .read, .read, .read]).1.confirmed ((AckLog.run .empty [.append [[1], [2, 3], [4]], .read, .read, .read]).1.read - (AckLog.run .empty [.append [[1], [2, 3], [4]], .read, .read, .read]).1.confirmed)) [⟨1, by decide⟩, ⟨0, by decide⟩] ⟨[], (queueRun 1 (Queue.new 8 1 1024 false)
        (callsOf .empty [.append [[1], [2, 3], [4]], .read, .read, .read])).1.reader⟩).2 =
        confirmAllAnswers (readMessages (AckLog.run .empty [.append [[1], [2, 3], [4]], .read, .read, .read]).1.log (AckLog.run .empty [.append [[1], [2, 3], [4]], .read, .read, .read]).1.confirmed ((AckLog.run .empty [.append [[1], [2, 3], [4]], .read, .read, .read]).1.read - (AckLog.run .empty [.append [[1], [2, 3], [4]], .read, .read, .read]).1.confirmed)) [⟨1, by decide⟩, ⟨0, by decide⟩] ⟨frameOffset (AckLog.run .empty [.append [[1], [2, 3], [4]], .read, .read, .read]).1.log (AckLog.run .empty [.append [[1], [2, 3], [4]], .read, .read, .read]).1.confirmed, (AckLog.run .empty [.append [[1], [2, 3], [4]], .read, .read, .read]).1.confirmed, []⟩ ∧
      Mirrors (Nsq.confirmAll (frameOffset (AckLog.run .empty [.append [[1], [2, 3], [4]], .read, .read, .read]).1.log (AckLog.run .empty [.append [[1], [2, 3], [4]], .read, .read, .read]).1.confirmed) (AckLog.run .empty [.append [[1], [2, 3], [4]], .read, .read, .read]).1.confirmed (readMessages (AckLog.run .empty [.append [[1], [2, 3], [4]], .read, .read, .read]).1.log (AckLog.run .empty [.append [[1], [2, 3], [4]], .read, .read, .read]).1.confirmed ((AckLog.run .empty [.append [[1], [2, 3], [4]], .read, .read, .read]).1.read - (AckLog.run .empty [.append [[1], [2, 3], [4]], .read, .read, .read]).1.confirmed)) [⟨1, by decide⟩, ⟨0, by decide⟩])
        (confirmAll (queueRun 1 (Queue.new 8 1 1024 false)
        (callsOf .empty [.append [[1], [2, 3], [4]], .read, .read, .read])).1.disk (readMessages (AckLog.run .empty [.append [[1], [2, 3], [4]], .read, .read, .read]).1.log (AckLog.run .empty [.append [[1], [2, 3], [4]], .read, .read, .read]).1.confirmed ((AckLog.run .empty [.append [[1], [2, 3], [4]], .read, .read, .read]).1.read - (AckLog.run .empty [.append [[1], [2, 3], [4]], .read, .read, .read]).1.confirmed)) [⟨1, by decide⟩, ⟨0, by decide⟩] ⟨[], (queueRun 1 (Queue.new 8 1 1024 false)
        (callsOf .empty [.append [[1], [2, 3], [4]], .read, .read, .read])).1.reader⟩).1 ∧
      SessionAt 8 (AckLog.run .empty [.append [[1], [2, 3], [4]], .read, .read, .read]).1.log (queueRun 1 (Queue.new 8 1 1024 false)
        (callsOf .empty [.append [[1], [2, 3], [4]], .read, .read, .read])).1.disk (AckLog.run .empty [.append [[1], [2, 3], [4]], .read, .read, .read]).1.read
        ((AckLog.run .empty [.append [[1], [2, 3], [4]], .read, .read, .read]).1.confirmed + firstGap [1, 0] ((AckLog.run .empty [.append [[1], [2, 3], [4]], .read, .read, .read]).1.read - (AckLog.run .empty [.append [[1], [2, 3], [4]], .read, .read, .read]).1.confirmed))
        (confirmAll (queueRun 1 (Queue.new 8 1 1024 false)
        (callsOf .empty [.append [[1], [2, 3], [4]], .read, .read, .read])).1.disk (readMessages (AckLog.run .empty [.append [[1], [2, 3], [4]], .read, .read, .read]).1.log (AckLog.run .empty [.append [[1], [2, 3], [4]], .read, .read, .read]).1.confirmed ((AckLog.run .empty [.append [[1], [2, 3], [4]], .read, .read, .read]).1.read - (AckLog.run .empty [.append [[1], [2, 3], [4]], .read, .read, .read]).1.confirmed)) [⟨1, by decide⟩, ⟨0, by decide⟩] ⟨[], (queueRun 1 (Queue.new 8 1 1024 false)
        (callsOf .empty [.append [[1], [2, 3], [4]], .read, .read, .read])).1.reader⟩).1.backend := by
  have hq := (queueRun_inStep 0 (queueAt_new 8 1 1024 false)
    (show RunAdmits 1 1024 .empty [.append [[1], [2, 3], [4]], .read, .read, .read] by decide)).2
  exact ⟨hq, confirmAll_on_reader hq _⟩

end Nsq
