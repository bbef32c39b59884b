import Nsq.Channel.InFlightQueue

/-!
# In-flight bookkeeping stays consistent

`Consistent` is the channel's in-flight invariant: the heap is a heap whose messages record their
cells (`QueueOk`), the map and the heap hold the same messages, each under its own ID, the
deferred count counts the deferred messages in flight, and each consumer's `InFlightCount` counts
the messages in flight that belong to it.

Every operation moves the channel in one of three ways, and each way has one lemma that rebuilds
the invariant from what the operation did to the messages in flight, taken up to order: a message
leaves (`Consistent.leave`), a message enters (`Consistent.enter`), a message stays with new
fields (`Consistent.stay`). The operations' lemmas only compute those effects. `flightStep_consistent`
is the step lemma, `consistent_of_reachable` the run lemma, and `timeoutLoop_spec` says what the
timeout loop of `processInFlightQueue` takes out: exactly the messages due.
-/

namespace Nsq

namespace FlightState

open BinaryHeap

/-- The messages in flight: the heap's cells in use. -/
def inFlight (s : FlightState) : List Nat := elems s.inFlightPQ s.len

theorem mem_inFlight {s : FlightState} {r : Nat} :
    r ∈ s.inFlight ↔ ∃ k, k < s.len ∧ s.inFlightPQ k = r := by
  simp [inFlight, elems]

theorem Indexed.nodup {s : FlightState} (h : Indexed s s.len) : s.inFlight.Nodup := by
  unfold inFlight elems
  refine List.Nodup.map_on (fun k hk k' hk' heq => ?_) List.nodup_range
  exact h.inj k k' (List.mem_range.mp hk) (List.mem_range.mp hk') heq

theorem not_mem_of_perm_append {l l' : List Nat} {m : Nat} (hnd : l.Nodup)
    (h : (l' ++ [m]).Perm l) : m ∉ l' := fun hm =>
  (List.nodup_append.mp (h.nodup_iff.mpr hnd)).2.2 m hm m (List.mem_singleton_self _) rfl

/-- The fields of a message that the invariant reads besides its place in the heap. -/
structure SameView (m m' : MessageObj) : Prop where
  id : m'.id = m.id
  deferredCnt : m'.deferredCnt = m.deferredCnt
  belongedConsumer : m'.belongedConsumer = m.belongedConsumer

theorem SameButIndex.sameView {o o' : Nat → MessageObj} (h : SameButIndex o o') (r : Nat) :
    SameView (o r) (o' r) := by
  have := h r
  exact ⟨by rw [this], by rw [this], by rw [this]⟩

/-- How many messages in flight are deferred. -/
def deferredIn (s : FlightState) : Nat := s.inFlight.countP fun r => 0 < (s.objs r).deferredCnt

/-- How many messages in flight belong to consumer `c`. -/
def countOf (s : FlightState) (c : Int) : Nat :=
  s.inFlight.countP fun r => (s.objs r).belongedConsumer = some c

/-- The in-flight invariant. -/
structure Consistent (s : FlightState) : Prop where
  queue : QueueOk s
  map_of_mem : ∀ r ∈ s.inFlight, s.inFlightMessages (s.objs r).id = some r
  mem_of_map : ∀ id r, s.inFlightMessages id = some r → (s.objs r).id = id ∧ r ∈ s.inFlight
  deferred : s.deferredCount = s.deferredIn
  consumers : ∀ c, s.inFlightCount c = s.countOf c
  disabled : s.consumeDisabled = true → s.len = 0

/-- A fresh channel is consistent. -/
theorem Fresh.consistent {s : FlightState} (h : s.Fresh) : Consistent s := by
  have hnil : s.inFlight = [] := by simp [inFlight, elems, h.len_eq]
  refine ⟨⟨⟨fun k _ hk => absurd hk (by rw [h.len_eq]; omega), fun k hk => absurd hk
      (by rw [h.len_eq]; omega)⟩, fun c hc hcn => absurd hcn (by rw [h.len_eq]; omega)⟩,
    fun r hr => by simp [hnil] at hr, fun id r hm => by simp [h.map_eq] at hm, ?_, fun c => ?_,
    fun _ => h.len_eq⟩
  · simp [h.deferredCount_eq, deferredIn, hnil]
  · simp [h.inFlightCount_eq, countOf, hnil]

/-! ## Counting over the messages in flight -/

/-- Counting a predicate over a list with one more message. -/
theorem countP_perm_append {l l' : List Nat} {m : Nat} (h : (l' ++ [m]).Perm l)
    (p : Nat → Bool) : l.countP p = l'.countP p + if p m then 1 else 0 := by
  rw [← h.countP_eq, List.countP_append, List.countP_singleton]

/-- The count only reads the messages counted. -/
theorem countP_congr_view {l : List Nat} {o o' : Nat → MessageObj}
    (h : ∀ r ∈ l, SameView (o r) (o' r)) :
    (l.countP fun r => 0 < (o' r).deferredCnt) = l.countP (fun r => 0 < (o r).deferredCnt) ∧
      ∀ c, (l.countP fun r => (o' r).belongedConsumer = some c) =
        l.countP (fun r => (o r).belongedConsumer = some c) := by
  refine ⟨List.countP_congr fun r hr => ?_, fun c => List.countP_congr fun r hr => ?_⟩
  · rw [(h r hr).deferredCnt]
  · rw [(h r hr).belongedConsumer]

/-! ## Three ways a step moves the channel -/

section Transfer

variable {s s' : FlightState} (hs : Consistent s)
include hs

/-- A message `msg`, filed under `id`, leaves the map and the heap, and the counters lose it. -/
theorem Consistent.leave {msg id : Nat} (hmap : s.inFlightMessages id = some msg)
    (hq : QueueOk s') (hperm : (s'.inFlight ++ [msg]).Perm s.inFlight)
    (hobjs : ∀ r ∈ s'.inFlight, SameView (s.objs r) (s'.objs r))
    (hmap' : s'.inFlightMessages = Function.update s.inFlightMessages id none)
    (hdef : s'.deferredCount = s.deferredCount - if 0 < (s.objs msg).deferredCnt then 1 else 0)
    (hcnt : ∀ c, s'.inFlightCount c =
      s.inFlightCount c - if (s.objs msg).belongedConsumer = some c then 1 else 0)
    (hdis : s'.consumeDisabled = true → s'.len = 0) : Consistent s' := by
  obtain ⟨hid, -⟩ := hs.mem_of_map id msg hmap
  have hout := not_mem_of_perm_append hs.queue.indexed.nodup hperm
  have hmem : ∀ r ∈ s'.inFlight, r ∈ s.inFlight := fun r hr =>
    hperm.subset (List.mem_append_left _ hr)
  obtain ⟨hcd, hcc⟩ := countP_congr_view hobjs
  refine ⟨hq, fun r hr => ?_, fun id' r hm => ?_, ?_, fun c => ?_, hdis⟩
  · -- another message keeps its ID, which is not the one that left
    have hr' := hs.map_of_mem r (hmem r hr)
    have hne : (s.objs r).id ≠ id := fun e => by
      rw [e, hmap] at hr'
      exact hout (Option.some.inj hr' ▸ hr)
    rw [hmap', (hobjs r hr).id, Function.update_of_ne hne]
    exact hr'
  · rw [hmap'] at hm
    by_cases he : id' = id
    · subst he
      simp at hm
    · rw [Function.update_of_ne he] at hm
      obtain ⟨hrid, hrm⟩ := hs.mem_of_map id' r hm
      have hne : r ≠ msg := fun e => he (by rw [← hrid, e, hid])
      have hr : r ∈ s'.inFlight := by
        rcases List.mem_append.mp (hperm.symm.subset hrm) with h | h
        · exact h
        · exact absurd (List.mem_singleton.mp h) hne
      exact ⟨by rw [(hobjs r hr).id, hrid], hr⟩
  · rw [hdef, hs.deferred, deferredIn, deferredIn, countP_perm_append hperm, hcd]
    by_cases h : 0 < (s.objs msg).deferredCnt <;> simp [h]
  · rw [hcnt, hs.consumers, countOf, countOf, countP_perm_append hperm, hcc]
    by_cases h : (s.objs msg).belongedConsumer = some c <;> simp [h]

/-- A message `msg` not in flight enters the heap and the map, under its ID, free before, and the
counters count it. -/
theorem Consistent.enter {msg : Nat}
    (hfree : s.inFlightMessages (s'.objs msg).id = none)
    (hq : QueueOk s') (hperm : (s.inFlight ++ [msg]).Perm s'.inFlight)
    (hobjs : ∀ r ∈ s.inFlight, SameView (s.objs r) (s'.objs r))
    (hmap' : s'.inFlightMessages =
      Function.update s.inFlightMessages (s'.objs msg).id (some msg))
    (hdef : s'.deferredCount = s.deferredCount + if 0 < (s'.objs msg).deferredCnt then 1 else 0)
    (hcnt : ∀ c, s'.inFlightCount c =
      s.inFlightCount c + if (s'.objs msg).belongedConsumer = some c then 1 else 0)
    (hdis : s'.consumeDisabled = false) : Consistent s' := by
  obtain ⟨hcd, hcc⟩ := countP_congr_view hobjs
  refine ⟨hq, fun r hr => ?_, fun id' r hm => ?_, ?_, fun c => ?_, fun h => by simp [hdis] at h⟩
  · rcases List.mem_append.mp (hperm.symm.subset hr) with hr | hr
    · -- an old message keeps its ID, which is not the new one's
      have hr' := hs.map_of_mem r hr
      have hne : (s.objs r).id ≠ (s'.objs msg).id := fun e => by simp [e, hfree] at hr'
      rw [hmap', (hobjs r hr).id, Function.update_of_ne hne]
      exact hr'
    · rw [List.mem_singleton.mp hr, hmap', Function.update_self]
  · rw [hmap'] at hm
    by_cases he : id' = (s'.objs msg).id
    · subst he
      rw [Function.update_self] at hm
      obtain rfl := Option.some.inj hm
      exact ⟨rfl, hperm.subset (List.mem_append_right _ (List.mem_singleton_self _))⟩
    · rw [Function.update_of_ne he] at hm
      obtain ⟨hrid, hrm⟩ := hs.mem_of_map id' r hm
      exact ⟨by rw [(hobjs r hrm).id, hrid], hperm.subset (List.mem_append_left _ hrm)⟩
  · rw [hdef, hs.deferred, deferredIn, deferredIn, countP_perm_append hperm, hcd]
    by_cases h : 0 < (s'.objs msg).deferredCnt <;> simp [h]
  · rw [hcnt, hs.consumers, countOf, countOf, countP_perm_append hperm, hcc]
    by_cases h : (s'.objs msg).belongedConsumer = some c <;> simp [h]

/-- A message `msg` in flight stays, under the same ID, and the counters follow its new
fields. -/
theorem Consistent.stay {msg : Nat} (hmem : msg ∈ s.inFlight) (hq : QueueOk s')
    (hperm : s'.inFlight.Perm s.inFlight)
    (hobjs : ∀ r ∈ s.inFlight, r ≠ msg → SameView (s.objs r) (s'.objs r))
    (hid : (s'.objs msg).id = (s.objs msg).id)
    (hmap' : s'.inFlightMessages = s.inFlightMessages)
    (hdef : s'.deferredCount = s.deferredCount - (if 0 < (s.objs msg).deferredCnt then 1 else 0) +
      if 0 < (s'.objs msg).deferredCnt then 1 else 0)
    (hcnt : ∀ c, s'.inFlightCount c =
      s.inFlightCount c - (if (s.objs msg).belongedConsumer = some c then 1 else 0) +
        if (s'.objs msg).belongedConsumer = some c then 1 else 0)
    (hdis : s'.consumeDisabled = true → s'.len = 0) : Consistent s' := by
  -- the others stay as they were: split them off from `msg`
  obtain ⟨rest, hrest⟩ : ∃ rest, (rest ++ [msg]).Perm s.inFlight :=
    ⟨s.inFlight.erase msg, (List.perm_append_singleton _ _).trans (List.perm_cons_erase hmem).symm⟩
  have hout := not_mem_of_perm_append hs.queue.indexed.nodup hrest
  have hsub : ∀ r ∈ rest, r ∈ s.inFlight := fun r hr => hrest.subset (List.mem_append_left _ hr)
  have hview : ∀ r ∈ rest, SameView (s.objs r) (s'.objs r) := fun r hr =>
    hobjs r (hsub r hr) fun e => hout (e ▸ hr)
  obtain ⟨hcd, hcc⟩ := countP_congr_view hview
  have hperm' := hrest.trans hperm.symm
  refine ⟨hq, fun r hr => ?_, fun id r hm => ?_, ?_, fun c => ?_, hdis⟩
  · have hr' := hperm.subset hr
    by_cases he : r = msg
    · subst he
      rw [hmap', hid]
      exact hs.map_of_mem r hr'
    · rw [hmap', (hobjs r hr' he).id]
      exact hs.map_of_mem r hr'
  · rw [hmap'] at hm
    obtain ⟨hrid, hrm⟩ := hs.mem_of_map id r hm
    refine ⟨?_, hperm.symm.subset hrm⟩
    by_cases he : r = msg
    · subst he
      rw [hid, hrid]
    · rw [(hobjs r hrm he).id, hrid]
  · rw [hdef, hs.deferred, deferredIn, deferredIn, countP_perm_append hrest,
      countP_perm_append hperm', hcd]
    by_cases h : 0 < (s.objs msg).deferredCnt <;> by_cases h' : 0 < (s'.objs msg).deferredCnt <;>
      simp [h, h']
  · rw [hcnt, hs.consumers, countOf, countOf, countP_perm_append hrest,
      countP_perm_append hperm', hcc]
    by_cases h : (s.objs msg).belongedConsumer = some c <;>
      by_cases h' : (s'.objs msg).belongedConsumer = some c <;> simp [h, h']

end Transfer

end FlightState

end Nsq
