import Nsq.Channel.InFlightSpec

/-!
# Every operation keeps the in-flight bookkeeping consistent

Each operation of `Nsq.Channel.InFlight` either answers an error and leaves the channel as it was,
or moves it in one of the three ways of `Nsq.Channel.InFlightSpec`:

* `popInFlightMessage` (under `internalFinishMessage` and `RequeueMessage` with timeout 0) and a
  round of the timeout loop take a message out (`Consistent.leave_of_queue`);
* `StartInFlightTimeout` followed by `SendingMessage` puts one in (`Consistent.enter`);
* `TouchMessage` and the deferring `RequeueMessage` change a message in flight and put it back in
  its place (`Consistent.reinsert`).

`flightStep_consistent` is the step lemma and `consistent_of_reachable` the run lemma. The timeout
loop is then shown to take out exactly the messages due (`timeoutLoop_spec`).
-/

namespace Nsq

namespace FlightState

open BinaryHeap

/-! ## The small helpers -/

theorem SameView.trans {m m' m'' : MessageObj} (h : SameView m m') (h' : SameView m' m'') :
    SameView m m'' :=
  ⟨h'.id.trans h.id, h'.deferredCnt.trans h.deferredCnt,
    h'.belongedConsumer.trans h.belongedConsumer⟩

/-- `releaseConsumer` as one update: the message's consumer counts one fewer and is dropped. -/
theorem releaseConsumer_eq (s : FlightState) (msg : Nat) :
    s.releaseConsumer msg = { s with
      objs := Function.update s.objs msg { s.objs msg with belongedConsumer := none },
      inFlightCount := fun c =>
        s.inFlightCount c - if (s.objs msg).belongedConsumer = some c then 1 else 0 } := by
  unfold releaseConsumer
  split
  · rename_i h
    have hm : { s.objs msg with belongedConsumer := none } = s.objs msg := by rw [← h]
    simp only [hm, Function.update_eq_self, h, reduceCtorEq, if_false, Int.sub_zero]
  · rename_i c h
    simp only [h, Option.some.injEq]
    congr 1
    funext c'
    by_cases hc : c' = c
    · subst hc
      simp
    · simp [Function.update_of_ne hc, Ne.symm hc]

/-- The queue's invariant reads only the cells in use and the messages in them. -/
theorem QueueOk.of_objs {t s' : FlightState} (hq : QueueOk t)
    (hcells : s'.inFlightPQ = t.inFlightPQ) (hlen : s'.len = t.len)
    (hobjs : ∀ r ∈ t.inFlight, s'.objs r = t.objs r) : QueueOk s' := by
  have hat : ∀ k, k < t.len → s'.objs (t.inFlightPQ k) = t.objs (t.inFlightPQ k) :=
    fun k hk => hobjs _ (mem_inFlight.mpr ⟨k, hk, rfl⟩)
  refine ⟨⟨fun k k' hk hk' => ?_, fun k hk => ?_⟩, fun c hc hcn => ?_⟩
  · rw [hcells]
    rw [hlen] at hk hk'
    exact hq.indexed.inj k k' hk hk'
  · rw [hlen] at hk
    rw [hcells, hat k hk]
    exact hq.indexed.index_eq k hk
  · rw [hlen] at hcn
    have hp : parent c < t.len := Nat.lt_trans (parent_lt hc) hcn
    simp only [priOf, hcells, hat c hcn, hat _ hp]
    exact hq.heap c hc hcn

/-- A consistent channel with an object not in flight changed is consistent. -/
theorem Consistent.update_out {s : FlightState} (hs : Consistent s) {msg : Nat}
    (hout : msg ∉ s.inFlight) (m : MessageObj) :
    Consistent { s with objs := Function.update s.objs msg m } := by
  have hne : ∀ r ∈ s.inFlight, r ≠ msg := fun r hr e => hout (e ▸ hr)
  have hsame : ∀ r ∈ s.inFlight,
      (Function.update s.objs msg m) r = s.objs r := fun r hr =>
    Function.update_of_ne (hne r hr) _ _
  refine ⟨hs.queue.of_objs rfl rfl hsame, fun r hr => ?_, fun id r hm => ?_, ?_, fun c => ?_,
    hs.disabled⟩
  · change s.inFlightMessages (Function.update s.objs msg m r).id = some r
    rw [hsame r hr]
    exact hs.map_of_mem r hr
  · obtain ⟨hid, hr⟩ := hs.mem_of_map id r hm
    exact ⟨by change (Function.update s.objs msg m r).id = id; rw [hsame r hr, hid], hr⟩
  · change s.deferredCount = s.inFlight.countP _
    rw [hs.deferred, deferredIn]
    exact congrArg _ (List.countP_congr fun r hr => by simp only [hsame r hr])
  · change s.inFlightCount c = s.inFlight.countP _
    rw [hs.consumers, countOf]
    exact congrArg _ (List.countP_congr fun r hr => by simp only [hsame r hr])

/-! ## Taking a message out, and putting one back -/

/-- `removeAt` takes the message out of the cell it records. -/
theorem removeAt_spec {u : FlightState} (hidx : Indexed u u.len) {msg k : Nat} (hk : k < u.len)
    (hmsg : u.inFlightPQ k = msg) (hheap : HeapBut u.priOf u.inFlightPQ u.len k) :
    QueueOk (u.removeAt msg) ∧ (u.removeAt msg).len = u.len - 1 ∧ QueueFrame u (u.removeAt msg) ∧
      ((u.removeAt msg).inFlight ++ [msg]).Perm u.inFlight := by
  have hindex : (u.objs msg).index = k := hmsg ▸ hidx.index_eq k hk
  have hrem : u.removeAt msg = (u.remove k).1 := by
    rw [removeAt, hindex, if_pos (by omega), Int.toNat_natCast]
  obtain ⟨hans, hok, hlen, hfr, -, hperm⟩ := remove_spec hidx hheap hk
  rw [hans, hmsg] at hperm
  rw [hrem]
  refine ⟨hok, hlen, hfr, ?_⟩
  rw [inFlight, inFlight, hlen]
  exact hperm

/-- `removeAt` then `Push` of the same message: the heap holds the same messages, in order again. -/
theorem reinsert_spec {u : FlightState} (hidx : Indexed u u.len) {msg k : Nat} (hk : k < u.len)
    (hmsg : u.inFlightPQ k = msg) (hheap : HeapBut u.priOf u.inFlightPQ u.len k) :
    QueueOk ((u.removeAt msg).push msg) ∧ QueueFrame u ((u.removeAt msg).push msg) ∧
      ((u.removeAt msg).push msg).inFlight.Perm u.inFlight := by
  obtain ⟨hok, hlen, hfr, hperm⟩ := removeAt_spec hidx hk hmsg hheap
  have hout := not_mem_of_perm_append hidx.nodup hperm
  have hx : ∀ k', k' < (u.removeAt msg).len → (u.removeAt msg).inFlightPQ k' ≠ msg :=
    fun k' hk' e => hout (mem_inFlight.mpr ⟨k', hk', e⟩)
  obtain ⟨hok', hlen', hfr', hperm'⟩ := push_spec hok hx
  refine ⟨hok', hfr.trans hfr', ?_⟩
  rw [inFlight, hlen']
  exact hperm'.trans hperm

section Moves

variable {s : FlightState} (hs : Consistent s)
include hs

/-- The message a consistent channel files under `id` sits in a cell that it records. -/
theorem Consistent.cell_of_map {id msg : Nat} (hmap : s.inFlightMessages id = some msg) :
    ∃ k, k < s.len ∧ s.inFlightPQ k = msg := by
  obtain ⟨-, hmem⟩ := hs.mem_of_map id msg hmap
  exact mem_inFlight.mp hmem

/-- A message filed under `id` has left the heap (`t`), and then the map; after that only the
message itself and the counters changed. -/
theorem Consistent.leave_of_queue {id msg : Nat} (hmap : s.inFlightMessages id = some msg)
    {t s' : FlightState} (hq : QueueOk t) (hobjs : SameButIndex s.objs t.objs)
    (hperm : (t.inFlight ++ [msg]).Perm s.inFlight)
    (hcells : s'.inFlightPQ = t.inFlightPQ) (hlen : s'.len = t.len)
    (hother : ∀ r, r ≠ msg → s'.objs r = t.objs r)
    (hmap' : s'.inFlightMessages = Function.update s.inFlightMessages id none)
    (hdef : s'.deferredCount = s.deferredCount - if 0 < (s.objs msg).deferredCnt then 1 else 0)
    (hcnt : ∀ c, s'.inFlightCount c =
      s.inFlightCount c - if (s.objs msg).belongedConsumer = some c then 1 else 0)
    (hdis : s'.consumeDisabled = s.consumeDisabled) : Consistent s' := by
  have hout := not_mem_of_perm_append hs.queue.indexed.nodup hperm
  have hsame : s'.inFlight = t.inFlight := by rw [inFlight, inFlight, hcells, hlen]
  have hat : ∀ r ∈ t.inFlight, s'.objs r = t.objs r := fun r hr =>
    hother r fun e => hout (e ▸ hr)
  have hmem : msg ∈ s.inFlight := (hs.mem_of_map id msg hmap).2
  refine hs.leave hmap (hq.of_objs hcells hlen hat) (hsame ▸ hperm) (fun r hr => ?_) hmap' hdef
    hcnt fun h => ?_
  · rw [hsame] at hr
    rw [hat r hr]
    exact hobjs.sameView r
  · -- a channel that does not consume holds nothing in flight, so nothing was found
    rw [hdis] at h
    have hnil : s.inFlight = [] := by simp [inFlight, elems, hs.disabled h]
    rw [hnil] at hmem
    cases hmem

/-- A message in flight is changed (`u`: its `pri`, its deferral, its consumer, with the counters
following) and goes back into the heap by `removeAt` and `Push`. -/
theorem Consistent.reinsert {msg : Nat} (hmem : msg ∈ s.inFlight) {u : FlightState}
    (hcells : u.inFlightPQ = s.inFlightPQ) (hlen : u.len = s.len)
    (hother : ∀ r, r ≠ msg → u.objs r = s.objs r)
    (hid : (u.objs msg).id = (s.objs msg).id) (hindex : (u.objs msg).index = (s.objs msg).index)
    (hmap : u.inFlightMessages = s.inFlightMessages)
    (hdef : u.deferredCount = s.deferredCount - (if 0 < (s.objs msg).deferredCnt then 1 else 0) +
      if 0 < (u.objs msg).deferredCnt then 1 else 0)
    (hcnt : ∀ c, u.inFlightCount c =
      s.inFlightCount c - (if (s.objs msg).belongedConsumer = some c then 1 else 0) +
        if (u.objs msg).belongedConsumer = some c then 1 else 0)
    (hdis : u.consumeDisabled = s.consumeDisabled) :
    Consistent ((u.removeAt msg).push msg) := by
  obtain ⟨k, hk, hmsg⟩ := mem_inFlight.mp hmem
  have hne : ∀ k', k' < s.len → k' ≠ k → s.inFlightPQ k' ≠ msg := fun k' hk' hne e =>
    hne (hs.queue.indexed.inj k' k hk' hk (e.trans hmsg.symm))
  -- `u` is `s` with the message's fields changed: a heap save at its cell, still indexed
  have hidx : Indexed u u.len := by
    rw [hlen]
    refine ⟨fun a b ha hb => ?_, fun a ha => ?_⟩
    · rw [hcells]
      exact hs.queue.indexed.inj a b ha hb
    · rw [hcells]
      by_cases hak : a = k
      · subst hak
        rw [hmsg, hindex, ← hmsg]
        exact hs.queue.indexed.index_eq a ha
      · rw [hother _ (hne a ha hak)]
        exact hs.queue.indexed.index_eq a ha
  have hheap : HeapBut u.priOf u.inFlightPQ u.len k := by
    rw [hcells, hlen]
    refine heapBut_of_key _ hs.queue.heap u.priOf fun a ha hak => ?_
    simp only [priOf, hother _ (hne a ha hak)]
  obtain ⟨hok, hfr, hperm⟩ := reinsert_spec hidx (hlen ▸ hk) (hcells ▸ hmsg) hheap
  have hsu : u.inFlight = s.inFlight := by rw [inFlight, inFlight, hcells, hlen]
  rw [hsu] at hperm
  refine hs.stay hmem hok hperm (fun r _ hr => ?_) ?_ ?_ ?_ ?_ ?_
  · rw [← hother r hr]
    exact hfr.objs.sameView r
  · rw [(hfr.objs.sameView msg).id, hid]
  · rw [hfr.map, hmap]
  · rw [hfr.deferredCount, hdef, (hfr.objs.sameView msg).deferredCnt]
  · intro c
    rw [hfr.inFlightCount, hcnt, (hfr.objs.sameView msg).belongedConsumer]
  · -- a channel that does not consume holds nothing in flight
    intro h
    rw [hfr.consumeDisabled, hdis] at h
    have hnil : s.inFlight = [] := by simp [inFlight, elems, hs.disabled h]
    rw [hnil] at hmem
    cases hmem

end Moves

/-! ## What each operation can do -/

theorem pushInFlightMessage_of_error {s s₁ : FlightState} {msg : Nat} {e : FlightError}
    (h : s.pushInFlightMessage msg = (s₁, .error e)) : s₁ = s := by
  unfold pushInFlightMessage at h
  split at h
  · exact (Prod.mk.inj h).1.symm
  · split at h
    · exact (Prod.mk.inj h).1.symm
    · cases h

theorem pushInFlightMessage_of_ok {s s₁ : FlightState} {msg : Nat} {u : Unit}
    (h : s.pushInFlightMessage msg = (s₁, .ok u)) :
    s.consumeDisabled = false ∧ s.inFlightMessages (s.objs msg).id = none ∧
      s₁ = { s with inFlightMessages :=
        Function.update s.inFlightMessages (s.objs msg).id (some msg) }.push msg := by
  unfold pushInFlightMessage at h
  split at h
  · cases h
  · rename_i hdis
    split at h
    · cases h
    · rename_i hfree
      exact ⟨by simpa using hdis, hfree, (Prod.mk.inj h).1.symm⟩

theorem popInFlightMessage_of_error {s s₁ : FlightState} {clientID : Int} {id : Nat}
    {force : Bool} {e : FlightError} (h : s.popInFlightMessage clientID id force = (s₁, .error e)) :
    s₁ = s := by
  unfold popInFlightMessage at h
  split at h
  · exact (Prod.mk.inj h).1.symm
  · split_ifs at h
    · exact (Prod.mk.inj h).1.symm
    · exact (Prod.mk.inj h).1.symm
    · cases (Prod.mk.inj h).2

theorem popInFlightMessage_of_ok {s s₁ : FlightState} {clientID : Int} {id : Nat}
    {force : Bool} {msg : Nat} (h : s.popInFlightMessage clientID id force = (s₁, .ok msg)) :
    s.inFlightMessages id = some msg ∧ (force = false → (s.objs msg).isDeferred = false) ∧
      s₁ = { s with inFlightMessages := Function.update s.inFlightMessages id none }.removeAt msg := by
  unfold popInFlightMessage at h
  split at h
  · cases h
  · rename_i msg' hmap
    split_ifs at h with hc hd
    · cases (Prod.mk.inj h).2
    · cases (Prod.mk.inj h).2
    obtain ⟨rfl, he⟩ := Prod.mk.inj h
    obtain rfl := Except.ok.inj he
    refine ⟨hmap, fun hf => ?_, rfl⟩
    simpa [hf] using hd

/-- `PeekAndShift` answers nothing when the heap is empty or its root is not due. -/
theorem peekAndShift_of_none {s s₁ : FlightState} {max d : Int}
    (h : s.peekAndShift max = (s₁, none, d)) :
    s₁ = s ∧ (s.len = 0 ∨ max < s.priOf (s.inFlightPQ 0)) := by
  by_cases h0 : s.len = 0
  · simp only [peekAndShift, h0, if_true] at h
    exact ⟨(Prod.mk.inj h).1.symm, .inl h0⟩
  · by_cases hpri : (s.objs (s.inFlightPQ 0)).pri > max
    · simp only [peekAndShift, h0, hpri, if_true, if_false] at h
      exact ⟨(Prod.mk.inj h).1.symm, .inr hpri⟩
    · simp only [peekAndShift, h0, hpri, if_false] at h
      cases (Prod.mk.inj (Prod.mk.inj h).2).1

/-- `PeekAndShift` answers the root, popped, when it is due. -/
theorem peekAndShift_of_some {s s₁ : FlightState} {max d : Int} {x : Nat}
    (h : s.peekAndShift max = (s₁, some x, d)) :
    0 < s.len ∧ s.priOf (s.inFlightPQ 0) ≤ max ∧ x = s.inFlightPQ 0 ∧ s₁ = s.pop.1 := by
  by_cases h0 : s.len = 0
  · simp only [peekAndShift, h0, if_true] at h
    cases (Prod.mk.inj (Prod.mk.inj h).2).1
  · by_cases hpri : (s.objs (s.inFlightPQ 0)).pri > max
    · simp only [peekAndShift, h0, hpri, if_true, if_false] at h
      cases (Prod.mk.inj (Prod.mk.inj h).2).1
    · simp only [peekAndShift, h0, hpri, if_false] at h
      obtain ⟨rfl, he⟩ := Prod.mk.inj h
      exact ⟨Nat.pos_of_ne_zero h0, Int.not_lt.mp hpri,
        (Option.some.inj (Prod.mk.inj he).1).symm, rfl⟩

theorem startInFlightTimeout_eq (s : FlightState) (msg : Nat) (client now timeout : Int) :
    s.startInFlightTimeout msg client now timeout = pushInFlightMessage { s with
      objs := Function.update s.objs msg
        { s.objs msg with belongedConsumer := some client, deliveryTS := now, pri := now + timeout } }
      msg := rfl

/-- The message `msg`, due by `tnow`, has timed out of `s`, which leaves `s'`. -/
structure TimedOut (s s' : FlightState) (tnow : Int) (msg : Nat) : Prop where
  consistent : Consistent s'
  due : s.priOf msg ≤ tnow
  perm : (s'.inFlight ++ [msg]).Perm s.inFlight
  pri : ∀ r ∈ s'.inFlight, s'.priOf r = s.priOf r
  map : s'.inFlightMessages = Function.update s.inFlightMessages (s.objs msg).id none

section Operations

variable {s : FlightState} (hs : Consistent s)
include hs

/-- A message filed under `id`, in a state `u` that differs from `s` at most outside the heap's
cells and messages, leaves the heap by `removeAt`. -/
theorem Consistent.take {id msg : Nat} (hmap : s.inFlightMessages id = some msg) {u : FlightState}
    (hcells : u.inFlightPQ = s.inFlightPQ) (hlen : u.len = s.len) (hobjs : u.objs = s.objs) :
    QueueOk (u.removeAt msg) ∧ QueueFrame u (u.removeAt msg) ∧
      ((u.removeAt msg).inFlight ++ [msg]).Perm s.inFlight := by
  have hq : QueueOk u := hs.queue.of_objs hcells hlen fun r _ => by rw [hobjs]
  obtain ⟨k, hk, hmsg⟩ := hs.cell_of_map hmap
  obtain ⟨hq', -, hfr, hperm⟩ :=
    removeAt_spec hq.indexed (hlen ▸ hk) (hcells ▸ hmsg) (hq.heap.heapBut _ k)
  have hsu : u.inFlight = s.inFlight := by rw [inFlight, inFlight, hcells, hlen]
  exact ⟨hq', hfr, hsu ▸ hperm⟩

/-- `internalFinishMessage`: the message leaves, and the deferred count and its consumer's count
lose it. -/
theorem Consistent.internalFinishMessage (clientID : Int) (id : Nat) (forceFin : Bool) :
    Consistent (s.internalFinishMessage clientID id forceFin).1 := by
  unfold FlightState.internalFinishMessage
  dsimp only
  -- the consumer the pop is made for does not matter here
  generalize (if forceFin = true then _ else clientID) = cid
  split
  · rename_i s₁ e hpop
    rw [popInFlightMessage_of_error hpop]
    exact hs
  · rename_i s₁ msg hpop
    obtain ⟨hmap, -, rfl⟩ := popInFlightMessage_of_ok hpop
    obtain ⟨hq, hfr, hperm⟩ := hs.take hmap
      (u := { s with inFlightMessages := Function.update s.inFlightMessages id none }) rfl rfl rfl
    set t := ({ s with inFlightMessages := Function.update s.inFlightMessages id none }).removeAt msg
    have hview : SameView (s.objs msg) (t.objs msg) := hfr.objs.sameView msg
    have hcount : t.inFlightCount = s.inFlightCount := hfr.inFlightCount
    have hdc : t.deferredCount = s.deferredCount := hfr.deferredCount
    rw [releaseConsumer_eq]
    split
    · rename_i hdefd
      have hpos : 0 < (s.objs msg).deferredCnt := by
        rw [← hview.deferredCnt]
        simpa [MessageObj.isDeferred] using hdefd
      refine hs.leave_of_queue hmap hq hfr.objs hperm rfl rfl (fun r hr => ?_) hfr.map ?_
        (fun c => ?_) hfr.consumeDisabled
      · simp [setDeferredCnt, Function.update_of_ne hr]
      · simp [hdc, hpos]
      · simp [setDeferredCnt, hcount, hview.belongedConsumer]
    · rename_i hdefd
      have hzero : ¬ 0 < (s.objs msg).deferredCnt := by
        rw [← hview.deferredCnt]
        simpa [MessageObj.isDeferred] using hdefd
      refine hs.leave_of_queue hmap hq hfr.objs hperm rfl rfl (fun r hr => ?_) hfr.map ?_
        (fun c => ?_) hfr.consumeDisabled
      · simp [Function.update_of_ne hr]
      · simp [hdc, hzero]
      · simp [hcount, hview.belongedConsumer]

/-- `RequeueMessage`: with timeout 0 the message leaves and its consumer's count loses it; with
another timeout it stays in flight, deferred, and belongs to no consumer. -/
theorem Consistent.requeueMessage (opts : ChannelOptions) (clientID : Int) (id : Nat)
    (timeout now waitingConfirmCnt waitingConfirm : Int) :
    Consistent
      (s.requeueMessage opts clientID id timeout now waitingConfirmCnt waitingConfirm).1 := by
  unfold FlightState.requeueMessage
  by_cases h0 : timeout = 0
  · rw [if_pos h0]
    split
    · rename_i s₁ e hpop
      rw [popInFlightMessage_of_error hpop]
      exact hs
    · rename_i s₁ msg hpop
      obtain ⟨hmap, hund, rfl⟩ := popInFlightMessage_of_ok hpop
      obtain ⟨hq, hfr, hperm⟩ := hs.take hmap
        (u := { s with inFlightMessages := Function.update s.inFlightMessages id none }) rfl rfl rfl
      set t := ({ s with inFlightMessages := Function.update s.inFlightMessages id none }).removeAt msg
      have hview : SameView (s.objs msg) (t.objs msg) := hfr.objs.sameView msg
      have hcount : t.inFlightCount = s.inFlightCount := hfr.inFlightCount
      have hdc : t.deferredCount = s.deferredCount := hfr.deferredCount
      -- a message that is deferred is not popped here, so the deferred count stays
      have hzero : ¬ 0 < (s.objs msg).deferredCnt := by
        simpa [MessageObj.isDeferred] using hund rfl
      dsimp only
      rw [releaseConsumer_eq]
      refine hs.leave_of_queue hmap hq hfr.objs hperm rfl rfl (fun r hr => ?_) hfr.map ?_
        (fun c => ?_) hfr.consumeDisabled
      · simp [Function.update_of_ne hr]
      · simp [hdc, hzero]
      · simp [hcount, hview.belongedConsumer]
  · rw [if_neg h0]
    split
    · exact hs
    · rename_i msg hmap
      split_ifs with hd hc htoo hwin
      · exact hs
      · exact hs
      · exact hs
      · exact hs
      · have hzero : (s.objs msg).deferredCnt = 0 := by
          simpa [MessageObj.isDeferred] using hd
        dsimp only
        rw [releaseConsumer_eq]
        refine hs.reinsert (hs.mem_of_map id msg hmap).2 rfl rfl (fun r hr => ?_) (by simp)
          (by simp) rfl ?_ (fun c => ?_) rfl
        · simp [Function.update_of_ne hr]
        · simp [hzero]
        · simp

/-- `TouchMessage`: the message stays in flight with its new timeout. -/
theorem Consistent.touchMessage (opts : ChannelOptions) (clientID : Int) (id : Nat)
    (clientMsgTimeout now : Int) :
    Consistent (s.touchMessage opts clientID id clientMsgTimeout now).1 := by
  unfold FlightState.touchMessage
  split
  · exact hs
  · rename_i msg hmap
    split_ifs with hc
    · exact hs
    · dsimp only
      refine hs.reinsert (hs.mem_of_map id msg hmap).2 rfl rfl (fun r hr => ?_) (by simp)
        (by simp) rfl ?_ (fun c => ?_) rfl
      · simp [Function.update_of_ne hr]
      · simp
      · simp

/-- `pushInFlightMessage` of a message not in flight and not deferred, followed by the consumer's
`SendingMessage`: the message enters under its ID, counted for its consumer. -/
theorem Consistent.push_send {msg : Nat} (hout : ∀ k, k < s.len → s.inFlightPQ k ≠ msg)
    (hund : (s.objs msg).deferredCnt = 0) {client : Int}
    (hbc : (s.objs msg).belongedConsumer = some client) {s₁ : FlightState} {u : Unit}
    (hpush : s.pushInFlightMessage msg = (s₁, .ok u)) :
    Consistent { s₁ with
      inFlightCount := Function.update s₁.inFlightCount client (s₁.inFlightCount client + 1) } := by
  obtain ⟨hdis, hfree, rfl⟩ := pushInFlightMessage_of_ok hpush
  obtain ⟨hq, hlen, hfr, hperm⟩ := push_spec (s := { s with
      inFlightMessages := Function.update s.inFlightMessages (s.objs msg).id (some msg) })
    (hs.queue.of_objs rfl rfl fun _ _ => rfl) hout
  set t := ({ s with
      inFlightMessages := Function.update s.inFlightMessages (s.objs msg).id (some msg) }).push msg
  have hview : ∀ r, SameView (s.objs r) (t.objs r) := hfr.objs.sameView
  have hfree' : s.inFlightMessages (t.objs msg).id = none := by
    rw [(hview msg).id]
    exact hfree
  refine hs.enter hfree' (hq.of_objs rfl rfl fun _ _ => rfl) ?_ (fun r _ => hview r) ?_ ?_
    (fun c => ?_) (hfr.consumeDisabled.trans hdis)
  · change (s.inFlight ++ [msg]).Perm (elems t.inFlightPQ t.len)
    rw [hlen]
    exact hperm.symm
  · change t.inFlightMessages = Function.update s.inFlightMessages (t.objs msg).id (some msg)
    rw [(hview msg).id]
    exact hfr.map
  · change t.deferredCount = s.deferredCount + if 0 < (t.objs msg).deferredCnt then 1 else 0
    simp [(hview msg).deferredCnt, hund, hfr.deferredCount]
  · change Function.update t.inFlightCount client (t.inFlightCount client + 1) c =
      s.inFlightCount c + if (t.objs msg).belongedConsumer = some c then 1 else 0
    rw [(hview msg).belongedConsumer, hbc, hfr.inFlightCount]
    by_cases hc : c = client
    · subst hc
      simp
    · simp [Function.update_of_ne hc, Ne.symm hc]

/-- A consumer's pump delivering a message that is not in flight and not deferred. -/
theorem Consistent.startInFlightAndSend {msg : Nat} (hout : ∀ k, k < s.len → s.inFlightPQ k ≠ msg)
    (hund : (s.objs msg).deferredCnt = 0) (client now timeout : Int) :
    Consistent (s.startInFlightAndSend msg client now timeout) := by
  have hnot : msg ∉ s.inFlight := fun h => by
    obtain ⟨k, hk, e⟩ := mem_inFlight.mp h
    exact hout k hk e
  -- the message object is written before the push, whether or not the push succeeds
  have hs₀ := hs.update_out hnot
    { s.objs msg with belongedConsumer := some client, deliveryTS := now, pri := now + timeout }
  unfold FlightState.startInFlightAndSend
  rw [startInFlightTimeout_eq]
  split
  · rename_i s₁ hpush
    exact hs₀.push_send hout (by simp [hund]) (by simp) hpush
  · rename_i s₁ e hpush
    rw [pushInFlightMessage_of_error hpush]
    exact hs₀

/-- `initPQ` empties the structures, and the consumers that counted messages in flight count none:
the others counted none already. -/
theorem Consistent.initPQ : Consistent s.initPQ := by
  have hnil : s.initPQ.inFlight = [] := rfl
  refine ⟨?_, fun r hr => ?_, fun id r hm => ?_, ?_, fun c => ?_, fun _ => rfl⟩
  · exact ⟨⟨fun k _ hk => absurd hk (Nat.not_lt_zero k), fun k hk => absurd hk (Nat.not_lt_zero k)⟩,
      fun c _ hc => absurd hc (Nat.not_lt_zero c)⟩
  · rw [hnil] at hr
    cases hr
  · cases hm
  · rw [deferredIn, hnil]
    rfl
  · rw [countOf, hnil, List.countP_nil]
    change (if (elems s.inFlightPQ s.len).any _ then 0 else s.inFlightCount c) = ((0 : Nat) : Int)
    split_ifs with hany
    · rfl
    · rw [hs.consumers, countOf, List.countP_eq_zero.mpr]
      intro r hr
      simpa using List.any_eq_false.mp (Bool.eq_false_iff.mpr hany) r hr

/-- A due message that left the heap (`t`) and the map, with only itself and the counters
changed after that, has timed out. -/
theorem Consistent.timedOut_of_queue {tnow : Int} {msg : Nat} (hmem : msg ∈ s.inFlight)
    (hdue : s.priOf msg ≤ tnow) {t s' : FlightState} (hq : QueueOk t)
    (hobjs : SameButIndex s.objs t.objs) (hperm : (t.inFlight ++ [msg]).Perm s.inFlight)
    (hcells : s'.inFlightPQ = t.inFlightPQ) (hlen : s'.len = t.len)
    (hother : ∀ r, r ≠ msg → s'.objs r = t.objs r)
    (hmap' : s'.inFlightMessages = Function.update s.inFlightMessages (s.objs msg).id none)
    (hdef : s'.deferredCount = s.deferredCount - if 0 < (s.objs msg).deferredCnt then 1 else 0)
    (hcnt : ∀ c, s'.inFlightCount c =
      s.inFlightCount c - if (s.objs msg).belongedConsumer = some c then 1 else 0)
    (hdis : s'.consumeDisabled = s.consumeDisabled) : TimedOut s s' tnow msg := by
  have hout := not_mem_of_perm_append hs.queue.indexed.nodup hperm
  have hsame : s'.inFlight = t.inFlight := by rw [inFlight, inFlight, hcells, hlen]
  refine ⟨hs.leave_of_queue (hs.map_of_mem msg hmem) hq hobjs hperm hcells hlen hother hmap' hdef
    hcnt hdis, hdue, hsame ▸ hperm, fun r hr => ?_, hmap'⟩
  rw [hsame] at hr
  have hne : r ≠ msg := fun e => hout (e ▸ hr)
  simp only [priOf, hother r hne]
  exact hobjs.pri r

/-- A round of the timeout loop either stops, with no message due, or takes the earliest message
out. -/
theorem Consistent.processInFlightOne (tnow : Int) :
    (s.processInFlightOne tnow = (s, false) ∧ ∀ r ∈ s.inFlight, tnow < s.priOf r) ∨
      (s.processInFlightOne tnow).2 = true ∧
        ∃ msg, TimedOut s (s.processInFlightOne tnow).1 tnow msg := by
  unfold FlightState.processInFlightOne
  by_cases hdis : s.consumeDisabled = true
  · -- a channel that does not consume holds nothing in flight
    left
    have hnil : s.inFlight = [] := by simp [inFlight, elems, hs.disabled hdis]
    refine ⟨by rw [if_pos hdis], fun r hr => ?_⟩
    rw [hnil] at hr
    cases hr
  rw [if_neg hdis]
  split
  · rename_i s₁ d hpeek
    obtain ⟨rfl, hstop⟩ := peekAndShift_of_none hpeek
    refine .inl ⟨rfl, fun r hr => ?_⟩
    obtain ⟨k, hk, rfl⟩ := mem_inFlight.mp hr
    rcases hstop with h0 | hlt
    · rw [h0] at hk
      exact absurd hk (Nat.not_lt_zero k)
    · exact Int.lt_of_lt_of_le hlt (hs.queue.heap.root_le _ k hk)
  rename_i s₁ msg d hpeek
  obtain ⟨hpos, hdue, rfl, rfl⟩ := peekAndShift_of_some hpeek
  obtain ⟨hans, hq, hlen, hfr, -, hperm⟩ := pop_spec hs.queue hpos
  have hmem : s.inFlightPQ 0 ∈ s.inFlight := mem_inFlight.mpr ⟨0, hpos, rfl⟩
  have hview := hfr.objs.sameView (s.inFlightPQ 0)
  have hperm' : (s.pop.1.inFlight ++ [s.inFlightPQ 0]).Perm s.inFlight := by
    rw [inFlight, hlen, ← hans]
    exact hperm
  have hmap : s.pop.1.inFlightMessages (s.pop.1.objs (s.inFlightPQ 0)).id = some (s.inFlightPQ 0) := by
    rw [hfr.map, hview.id]
    exact hs.map_of_mem _ hmem
  split
  · rename_i hnone
    rw [hmap] at hnone
    cases hnone
  refine .inr ⟨rfl, s.inFlightPQ 0, ?_⟩
  dsimp only
  split_ifs with hd
  · -- a deferred message ends its deferral, and leaves the deferred count
    have hpos' : 0 < (s.objs (s.inFlightPQ 0)).deferredCnt := by
      rw [← hview.deferredCnt]
      simpa [MessageObj.isDeferred] using hd
    rw [releaseConsumer_eq]
    refine hs.timedOut_of_queue hmem hdue hq hfr.objs hperm' rfl rfl (fun r hr => ?_) ?_ ?_
      (fun c => ?_) hfr.consumeDisabled
    · simp [setDeferredCnt, Function.update_of_ne hr]
    · simp [setDeferredCnt, hfr.map, hview.id]
    · simp [setDeferredCnt, hfr.deferredCount, hpos']
    · simp [setDeferredCnt, hfr.inFlightCount, hview.belongedConsumer]
  · have hzero : ¬ 0 < (s.objs (s.inFlightPQ 0)).deferredCnt := by
      rw [← hview.deferredCnt]
      simpa [MessageObj.isDeferred] using hd
    rw [releaseConsumer_eq]
    refine hs.timedOut_of_queue hmem hdue hq hfr.objs hperm' rfl rfl (fun r hr => ?_) ?_ ?_
      (fun c => ?_) hfr.consumeDisabled
    · simp [setDeferredCnt, Function.update_of_ne hr]
    · simp [setDeferredCnt, hfr.map, hview.id]
    · simp [setDeferredCnt, hfr.deferredCount, hzero]
    · simp [setDeferredCnt, hfr.inFlightCount, hview.belongedConsumer]

/-- With more rounds than messages in flight, the timeout loop takes out exactly the messages due by
`tnow`, from the heap and from the map, and leaves the others as they were. -/
theorem Consistent.timeoutLoop (tnow : Int) {fuel : Nat} (hfuel : s.len < fuel) :
    Consistent (s.timeoutLoop tnow fuel) ∧
      (s.timeoutLoop tnow fuel).inFlight.Perm (s.inFlight.filter fun r => tnow < s.priOf r) ∧
      (∀ r ∈ (s.timeoutLoop tnow fuel).inFlight, (s.timeoutLoop tnow fuel).priOf r = s.priOf r) ∧
      ∀ id, (s.timeoutLoop tnow fuel).inFlightMessages id =
        (s.inFlightMessages id).filter fun r => tnow < s.priOf r := by
  -- induction on the rounds left; each round takes out one message, the earliest one due
  induction fuel generalizing s with
  | zero => exact absurd hfuel (Nat.not_lt_zero _)
  | succ fuel ih =>
    rcases hs.processInFlightOne tnow with ⟨hstop, hlate⟩ | ⟨hgo, msg, hto⟩
    · have hloop : s.timeoutLoop tnow (fuel + 1) = s := by simp only [timeoutLoop, hstop]
      rw [hloop]
      refine ⟨hs, ?_, fun _ _ => rfl, fun id => ?_⟩
      · rw [List.filter_eq_self.mpr fun r hr => decide_eq_true (hlate r hr)]
      · cases hm : s.inFlightMessages id with
        | none => rfl
        | some r => simp [Option.filter_some, hlate r (hs.mem_of_map id r hm).2]
    · set s₁ := (s.processInFlightOne tnow).1
      have hloop : s.timeoutLoop tnow (fuel + 1) = s₁.timeoutLoop tnow fuel := by
        rw [timeoutLoop]
        rcases hp : s.processInFlightOne tnow with ⟨s', b⟩
        rw [hp] at hgo
        obtain rfl : b = true := hgo
        simp only [s₁, hp]
      have hlen : s₁.len + 1 = s.len := by
        have := hto.perm.length_eq
        simpa [inFlight, elems] using this
      have hmem : msg ∈ s.inFlight := hto.perm.subset (List.mem_append_right _ (List.mem_singleton_self _))
      obtain ⟨hc, hperm, hpri, hmap⟩ := ih hto.consistent (by omega)
      rw [hloop]
      refine ⟨hc, hperm.trans ?_, fun r hr => ?_, fun id => ?_⟩
      · -- the message taken out is due, so the filter drops it as well
        have hdrop : decide (tnow < s.priOf msg) = false := decide_eq_false (Int.not_lt.mpr hto.due)
        rw [List.filter_congr fun r hr => by rw [hto.pri r hr]]
        refine List.Perm.trans ?_ (hto.perm.filter _)
        rw [List.filter_append, List.filter_singleton, hdrop, cond_false, List.append_nil]
      · have hr₁ : r ∈ s₁.inFlight := (List.mem_filter.mp (hperm.subset hr)).1
        rw [hpri r hr, hto.pri r hr₁]
      · rw [hmap, hto.map]
        by_cases hid : id = (s.objs msg).id
        · subst hid
          rw [Function.update_self, hs.map_of_mem msg hmem]
          simp [Option.filter_some, Int.not_lt.mpr hto.due]
        · rw [Function.update_of_ne hid]
          cases hm : s.inFlightMessages id with
          | none => rfl
          | some r =>
            have hr₁ : r ∈ s₁.inFlight :=
              (hto.consistent.mem_of_map id r (by rw [hto.map, Function.update_of_ne hid, hm])).2
            simp [Option.filter_some, hto.pri r hr₁]

end Operations

end FlightState

open FlightState

/-- The step lemma: every operation keeps the in-flight bookkeeping consistent. -/
theorem flightStep_consistent {opts : ChannelOptions} {s s' : FlightState}
    (h : FlightStep opts s s') (hs : Consistent s) : Consistent s' := by
  cases h with
  | startAndSend msg client now timeout hout hund =>
    exact hs.startInFlightAndSend hout hund client now timeout
  | finish clientID id forceFin => exact hs.internalFinishMessage clientID id forceFin
  | requeue clientID id timeout now waitingConfirmCnt waitingConfirm =>
    exact hs.requeueMessage opts clientID id timeout now waitingConfirmCnt waitingConfirm
  | touch clientID id clientMsgTimeout now =>
    exact hs.touchMessage opts clientID id clientMsgTimeout now
  | timeout tnow =>
    rcases hs.processInFlightOne tnow with ⟨hstop, -⟩ | ⟨-, msg, hto⟩
    · rw [hstop]
      exact hs
    · exact hto.consistent
  | initPQ => exact hs.initPQ

/-- The run lemma: every channel reachable from a new one is consistent. -/
theorem consistent_of_reachable {opts : ChannelOptions} {s₀ s : FlightState} (h₀ : s₀.Fresh)
    (hrun : Relation.ReflTransGen (FlightStep opts) s₀ s) : Consistent s := by
  induction hrun with
  | refl => exact h₀.consistent
  | tail _ hstep ih => exact flightStep_consistent hstep ih

/-- Every channel reachable from a new one by the in-flight operations keeps its map and its heap in
lockstep: the heap holds exactly the messages the map files, each under its own ID and recording
its own cell, no ID twice, in heap order of `pri`; the deferred count and each consumer's
`InFlightCount` count the messages in flight; and `processInFlightQueue`, given rounds enough,
takes out of both exactly the messages due. -/
theorem inFlight_bookkeeping (opts : ChannelOptions) {s₀ s : FlightState} (h₀ : s₀.Fresh)
    (hrun : Relation.ReflTransGen (FlightStep opts) s₀ s) :
    (∀ r ∈ s.inFlight, s.inFlightMessages (s.objs r).id = some r) ∧
    (∀ id r, s.inFlightMessages id = some r → r ∈ s.inFlight ∧ (s.objs r).id = id) ∧
    (∀ k, k < s.len → (s.objs (s.inFlightPQ k)).index = k) ∧
    (∀ k k', k < s.len → k' < s.len →
      (s.objs (s.inFlightPQ k)).id = (s.objs (s.inFlightPQ k')).id → k = k') ∧
    BinaryHeap.IsHeap s.priOf s.inFlightPQ s.len ∧
    s.deferredCount = s.deferredIn ∧
    (∀ c, s.inFlightCount c = s.countOf c) ∧
    ∀ tnow fuel, s.exitFlag = false → s.len < fuel →
      (s.processInFlightQueue tnow fuel).inFlight.Perm
          (s.inFlight.filter fun r => tnow < s.priOf r) ∧
        ∀ id, (s.processInFlightQueue tnow fuel).inFlightMessages id =
          (s.inFlightMessages id).filter fun r => tnow < s.priOf r := by
  have hs := consistent_of_reachable h₀ hrun
  refine ⟨hs.map_of_mem, fun id r hm => ?_, hs.queue.indexed.index_eq, fun k k' hk hk' hid => ?_,
    hs.queue.heap, hs.deferred, hs.consumers, fun tnow fuel hexit hfuel => ?_⟩
  · obtain ⟨hid, hr⟩ := hs.mem_of_map id r hm
    exact ⟨hr, hid⟩
  · -- the map files each message in flight under its ID, so one ID names one message
    have h₁ := hs.map_of_mem _ (mem_inFlight.mpr ⟨k, hk, rfl⟩)
    have h₂ := hs.map_of_mem _ (mem_inFlight.mpr ⟨k', hk', rfl⟩)
    rw [hid, h₂] at h₁
    exact hs.queue.indexed.inj k k' hk hk' (Option.some.inj h₁).symm
  · have hloop : s.processInFlightQueue tnow fuel = s.timeoutLoop tnow fuel := by
      simp [processInFlightQueue, hexit]
    obtain ⟨-, hperm, -, hmap⟩ := hs.timeoutLoop tnow hfuel
    rw [hloop]
    exact ⟨hperm, hmap⟩

/-- A new channel over a store in which every message object carries its reference as its ID and
is neither delivered nor deferred. -/
def newChannel : FlightState where
  objs r := { id := r, belongedConsumer := none, deliveryTS := 0, pri := 0, index := -1,
              deferredCnt := 0 }
  inFlightMessages _ := none
  inFlightPQ _ := 0
  len := 0
  deferredCount := 0
  inFlightCount _ := 0
  consumeDisabled := false
  exitFlag := false

/-- A new channel that delivered messages 7, 8 and 9 to consumer 3, with timeouts 50, 60 and 10
at time 100. -/
def threeDelivered : FlightState :=
  ((newChannel.startInFlightAndSend 7 3 100 50).startInFlightAndSend 8 3 100 60).startInFlightAndSend
    9 3 100 10

/-- Then the consumer finishes 7, requeues 8 at once, and 9 times out at 1000. -/
def afterFinishRequeueTimeout : FlightState :=
  ((((threeDelivered.internalFinishMessage 3 7 false).1).requeueMessage ⟨100, 10⟩ 3 8 0 100 0 0).1.processInFlightOne
    1000).1

/-- Three deliveries, a finish, a requeue and a timeout: nothing is left in flight, and the
consumer's count is what it holds. -/
theorem inFlight_bookkeeping_finish_requeue_timeout :
    newChannel.Fresh ∧
      Relation.ReflTransGen (FlightStep ⟨100, 10⟩) newChannel afterFinishRequeueTimeout ∧
      afterFinishRequeueTimeout.len = 0 ∧
      afterFinishRequeueTimeout.inFlightCount 3 = afterFinishRequeueTimeout.countOf 3 := by
  have h₀ : newChannel.Fresh := ⟨rfl, fun _ => rfl, rfl, fun _ => rfl⟩
  -- each delivery is of a message object that is neither in flight nor deferred
  have hrun : Relation.ReflTransGen (FlightStep ⟨100, 10⟩) newChannel afterFinishRequeueTimeout :=
    (((((Relation.ReflTransGen.single
      (FlightStep.startAndSend _ 7 3 100 50 (fun k hk => absurd hk (Nat.not_lt_zero k)) rfl)).tail
      (FlightStep.startAndSend _ 8 3 100 60 (by decide +kernel) (by decide +kernel))).tail
      (FlightStep.startAndSend _ 9 3 100 10 (by decide +kernel) (by decide +kernel))).tail
      (FlightStep.finish _ 3 7 false)).tail
      (FlightStep.requeue _ 3 8 0 100 0 0)).tail (FlightStep.timeout _ 1000)
  exact ⟨h₀, hrun, by decide +kernel, (inFlight_bookkeeping _ h₀ hrun).2.2.2.2.2.2.1 3⟩

end Nsq
