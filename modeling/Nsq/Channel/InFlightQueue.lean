import Mathlib.Logic.Relation
import Nsq.Channel.InFlight

/-!
# `inFlightPqueue` is a binary heap

The heap operations of the channel move references between cells and write each moved message's
`index`. Their cells follow the library's loops exactly (`up_inFlightPQ`, `down_inFlightPQ`), so
the heap order comes from `Nsq.Lib.BinaryHeap`; what the model adds is the messages' `index`
fields, which every exchange keeps equal to the cells (`Indexed`), and that nothing else changes
(`QueueFrame`).

Each of `Push`, `Pop` and `Remove` gets one spec lemma: what it leaves in the first cells, up to
order, what it answers, and that it keeps `QueueOk`, the queue's own invariant. `Remove` is stated
from a heap that is out of order at the removed cell only, since `TouchMessage` and the deferring
`RequeueMessage` change a message's `pri` before they remove it.
-/

namespace Nsq

namespace FlightState

open BinaryHeap

/-! ## What the heap operations leave alone -/

/-- `o'` is `o` with at most the messages' `index` fields changed. -/
def SameButIndex (o o' : Nat → MessageObj) : Prop :=
  ∀ r, o' r = { o r with index := (o' r).index }

theorem SameButIndex.refl (o : Nat → MessageObj) : SameButIndex o o := fun _ => rfl

theorem SameButIndex.trans {o o' o'' : Nat → MessageObj} (h : SameButIndex o o')
    (h' : SameButIndex o' o'') : SameButIndex o o'' := fun r => by
  rw [h' r, h r]

theorem SameButIndex.pri {o o' : Nat → MessageObj} (h : SameButIndex o o') (r : Nat) :
    (o' r).pri = (o r).pri := by
  have := congrArg MessageObj.pri (h r)
  exact this

theorem sameButIndex_setIndex (s : FlightState) (r : Nat) (i : Int) :
    SameButIndex s.objs (s.setIndex r i) := by
  intro r'
  by_cases h : r' = r
  · subst h
    simp [setIndex]
  · simp [setIndex, Function.update_of_ne h]

/-- `s'` is `s` with at most the heap's cells and the messages' `index` fields changed. -/
structure QueueFrame (s s' : FlightState) : Prop where
  objs : SameButIndex s.objs s'.objs
  map : s'.inFlightMessages = s.inFlightMessages
  deferredCount : s'.deferredCount = s.deferredCount
  inFlightCount : s'.inFlightCount = s.inFlightCount
  consumeDisabled : s'.consumeDisabled = s.consumeDisabled
  exitFlag : s'.exitFlag = s.exitFlag

theorem QueueFrame.refl (s : FlightState) : QueueFrame s s :=
  ⟨SameButIndex.refl _, rfl, rfl, rfl, rfl, rfl⟩

theorem QueueFrame.trans {s s' s'' : FlightState} (h : QueueFrame s s') (h' : QueueFrame s' s'') :
    QueueFrame s s'' :=
  ⟨h.objs.trans h'.objs, h'.map.trans h.map, h'.deferredCount.trans h.deferredCount,
    h'.inFlightCount.trans h.inFlightCount, h'.consumeDisabled.trans h.consumeDisabled,
    h'.exitFlag.trans h.exitFlag⟩

theorem QueueFrame.priOf {s s' : FlightState} (h : QueueFrame s s') : s'.priOf = s.priOf :=
  funext h.objs.pri

/-- The first `n` cells hold distinct messages, each recording its own cell. -/
structure Indexed (s : FlightState) (n : Nat) : Prop where
  inj : ∀ k k', k < n → k' < n → s.inFlightPQ k = s.inFlightPQ k' → k = k'
  index_eq : ∀ k, k < n → (s.objs (s.inFlightPQ k)).index = k

/-! ## `Swap`, `up` and `down` -/

@[simp] theorem swap_inFlightPQ (s : FlightState) (i j : Nat) :
    (s.swap i j).inFlightPQ = BinaryHeap.swap s.inFlightPQ i j := rfl

@[simp] theorem swap_len (s : FlightState) (i j : Nat) : (s.swap i j).len = s.len := rfl

theorem swap_frame (s : FlightState) (i j : Nat) : QueueFrame s (s.swap i j) :=
  ⟨(sameButIndex_setIndex _ _ _).trans (sameButIndex_setIndex _ _ _), rfl, rfl, rfl, rfl, rfl⟩

/-- An exchange of two of the first `n` cells keeps them `Indexed`: the two moved messages record
their new cells, the others keep theirs. -/
theorem Indexed.swap {s : FlightState} {n i j : Nat} (h : Indexed s n) (hi : i < n) (hj : j < n) :
    Indexed (s.swap i j) n := by
  have hinj : ∀ k k', k < n → k' < n →
      BinaryHeap.swap s.inFlightPQ i j k = BinaryHeap.swap s.inFlightPQ i j k' → k = k' := by
    intro k k' hk hk' heq
    have := h.inj _ _ (swap_lt i j hi hj hk) (swap_lt i j hi hj hk') heq
    exact (Equiv.swap i j).injective this
  refine ⟨hinj, fun k hk => ?_⟩
  simp only [FlightState.swap, setIndex]
  by_cases hkj : k = j
  · subst hkj
    simp
  · rw [Function.update_of_ne fun e => hkj (hinj k j hk hj e)]
    by_cases hki : k = i
    · subst hki
      simp
    · rw [Function.update_of_ne fun e => hki (hinj k i hk hi e),
        BinaryHeap.swap_apply_of_ne _ _ _ hki hkj]
      exact h.index_eq k hk

/-- `s'` comes from `s` by exchanges of cells below `n`. -/
def Swaps (n : Nat) : FlightState → FlightState → Prop :=
  Relation.ReflTransGen fun s s' => ∃ i j, i < n ∧ j < n ∧ s' = s.swap i j

theorem Swaps.frame {n : Nat} {s s' : FlightState} (h : Swaps n s s') :
    QueueFrame s s' ∧ s'.len = s.len := by
  induction h with
  | refl => exact ⟨QueueFrame.refl s, rfl⟩
  | tail _ hstep ih =>
    obtain ⟨i, j, -, -, rfl⟩ := hstep
    exact ⟨ih.1.trans (swap_frame _ i j), ih.2⟩

theorem Swaps.indexed {n : Nat} {s s' : FlightState} (h : Swaps n s s') (hs : Indexed s n) :
    Indexed s' n := by
  induction h with
  | refl => exact hs
  | tail _ hstep ih =>
    obtain ⟨i, j, hi, hj, rfl⟩ := hstep
    exact ih.swap hi hj

theorem Swaps.perm {n : Nat} {s s' : FlightState} (h : Swaps n s s') :
    (elems s'.inFlightPQ n).Perm (elems s.inFlightPQ n) := by
  induction h with
  | refl => exact List.Perm.refl _
  | tail _ hstep ih =>
    obtain ⟨i, j, hi, hj, rfl⟩ := hstep
    exact (perm_swap _ hi hj).trans ih

theorem Swaps.mono {m n : Nat} {s s' : FlightState} (h : Swaps m s s') (hmn : m ≤ n) :
    Swaps n s s' := by
  induction h with
  | refl => exact Relation.ReflTransGen.refl
  | tail _ hstep ih =>
    obtain ⟨i, j, hi, hj, he⟩ := hstep
    exact ih.tail ⟨i, j, by omega, by omega, he⟩

theorem up_swaps (s : FlightState) {j n : Nat} (hj : j < n) : Swaps n s (s.up j) := by
  induction s, j using up.induct with
  | case1 s j hstop =>
    rw [up, if_pos hstop]
    exact Relation.ReflTransGen.refl
  | case2 s j hgo ih =>
    rw [up, if_neg hgo]
    have hp := parent_lt (pos_of_parent_ne fun e => hgo (Or.inl e))
    exact Relation.ReflTransGen.head ⟨_, _, by omega, hj, rfl⟩ (ih (by omega))

theorem down_swaps (s : FlightState) (i n : Nat) : Swaps n s (s.down i n) := by
  induction s, i using down.induct n with
  | case1 s i hleaf =>
    rw [down, if_pos hleaf]
    exact Relation.ReflTransGen.refl
  | case2 s i hleaf hle =>
    rw [down, if_neg hleaf, if_pos hle]
    exact Relation.ReflTransGen.refl
  | case3 s i hleaf hgt ih =>
    rw [down, if_neg hleaf, if_neg hgt]
    exact Relation.ReflTransGen.head
      ⟨_, _, by omega, minChild_lt _ (Nat.lt_of_not_le hleaf), rfl⟩ ih

/-- `up` moves the cells as the library's `siftUp` does. -/
theorem up_inFlightPQ (s : FlightState) (j : Nat) :
    (s.up j).inFlightPQ = siftUp s.priOf s.inFlightPQ j := by
  induction s, j using up.induct with
  | case1 s j hstop =>
    rw [up, if_pos hstop, siftUp, if_pos hstop]
  | case2 s j hgo ih =>
    rw [up, if_neg hgo, siftUp, if_neg hgo, ih, (swap_frame s _ _).priOf, swap_inFlightPQ]

/-- `down` moves the cells as the library's `siftDown` does. -/
theorem down_inFlightPQ (s : FlightState) (i n : Nat) :
    (s.down i n).inFlightPQ = siftDown s.priOf s.inFlightPQ i n := by
  induction s, i using down.induct n with
  | case1 s i hleaf =>
    rw [down, if_pos hleaf, siftDown, if_pos hleaf]
  | case2 s i hleaf hle =>
    rw [down, if_neg hleaf, if_pos hle, siftDown, if_neg hleaf, if_pos hle]
  | case3 s i hleaf hgt ih =>
    rw [down, if_neg hleaf, if_neg hgt, siftDown, if_neg hleaf, if_neg hgt, ih,
      (swap_frame s _ _).priOf, swap_inFlightPQ]

/-! ## `Push`, `Pop` and `Remove` -/

/-- The queue's own invariant: its cells hold distinct messages that record their cells, in heap
order of `pri`. -/
structure QueueOk (s : FlightState) : Prop where
  indexed : Indexed s s.len
  heap : IsHeap s.priOf s.inFlightPQ s.len

@[simp] theorem cutLast_len (s : FlightState) : s.cutLast.1.len = s.len - 1 := rfl

@[simp] theorem cutLast_inFlightPQ (s : FlightState) : s.cutLast.1.inFlightPQ = s.inFlightPQ := rfl

@[simp] theorem cutLast_snd (s : FlightState) : s.cutLast.2 = s.inFlightPQ (s.len - 1) := rfl

theorem cutLast_frame (s : FlightState) : QueueFrame s s.cutLast.1 :=
  ⟨sameButIndex_setIndex _ _ _, rfl, rfl, rfl, rfl, rfl⟩

/-- After exchanges among its `n` cells and a heap order on the first `n - 1`, cutting the last
cell off leaves a queue with the other messages, and the cut message marked out of the heap. -/
theorem cutLast_spec {s u : FlightState} (hq : Indexed s s.len) (hsw : Swaps s.len s u)
    (hheap : IsHeap u.priOf u.inFlightPQ (s.len - 1)) (hn : 0 < s.len) :
    QueueOk u.cutLast.1 ∧ u.cutLast.1.len = s.len - 1 ∧ QueueFrame s u.cutLast.1 ∧
      (u.cutLast.1.objs u.cutLast.2).index = -1 ∧
      (elems u.cutLast.1.inFlightPQ (s.len - 1) ++ [u.cutLast.2]).Perm
        (elems s.inFlightPQ s.len) := by
  obtain ⟨hfr, hlen⟩ := hsw.frame
  have hidx := hsw.indexed hq
  rw [← hlen] at hidx
  have hlen' : u.cutLast.1.len = s.len - 1 := by rw [cutLast_len, hlen]
  refine ⟨⟨?_, ?_⟩, hlen', hfr.trans (cutLast_frame u), by simp [cutLast, setIndex], ?_⟩
  · -- the cut cell's message is none of the others
    rw [hlen']
    refine ⟨fun k k' hk hk' => hidx.inj k k' (by omega) (by omega), fun k hk => ?_⟩
    have hne : u.inFlightPQ k ≠ u.inFlightPQ (u.len - 1) :=
      fun e => by have := hidx.inj _ _ (by omega) (by omega) e; omega
    simp only [cutLast, setIndex, Function.update_of_ne hne]
    exact hidx.index_eq k (by omega)
  · rw [hlen', (cutLast_frame u).priOf]
    exact hheap
  · have hsucc : s.len - 1 + 1 = s.len := by omega
    rw [cutLast_inFlightPQ, cutLast_snd, hlen, ← elems_succ, hsucc]
    exact hsw.perm

/-- `Push` of a message not in the queue: it keeps the invariant and adds the message. -/
theorem push_spec {s : FlightState} (hq : QueueOk s) {x : Nat}
    (hx : ∀ k, k < s.len → s.inFlightPQ k ≠ x) :
    QueueOk (s.push x) ∧ (s.push x).len = s.len + 1 ∧ QueueFrame s (s.push x) ∧
      (elems (s.push x).inFlightPQ (s.len + 1)).Perm (elems s.inFlightPQ s.len ++ [x]) := by
  let t : FlightState := { s with len := s.len + 1, objs := s.setIndex x s.len,
                                  inFlightPQ := Function.update s.inFlightPQ s.len x }
  have hpush : s.push x = t.up s.len := rfl
  have hframe : QueueFrame s t := ⟨sameButIndex_setIndex _ _ _, rfl, rfl, rfl, rfl, rfl⟩
  -- the new cell holds the new message, which records it; the old cells are as they were
  have hidx : Indexed t (s.len + 1) := by
    refine ⟨fun k k' hk hk' heq => ?_, fun k hk => ?_⟩
    · simp only [t] at heq
      rcases Nat.lt_or_ge k s.len with h₁ | h₁ <;> rcases Nat.lt_or_ge k' s.len with h₂ | h₂
      · rw [Function.update_of_ne (show k ≠ s.len by omega),
          Function.update_of_ne (show k' ≠ s.len by omega)] at heq
        exact hq.indexed.inj k k' h₁ h₂ heq
      · rw [Function.update_of_ne (show k ≠ s.len by omega), show k' = s.len by omega,
          Function.update_self] at heq
        exact absurd heq (hx k h₁)
      · rw [Function.update_of_ne (show k' ≠ s.len by omega), show k = s.len by omega,
          Function.update_self] at heq
        exact absurd heq.symm (hx k' h₂)
      · omega
    · simp only [t, setIndex]
      rcases Nat.lt_or_ge k s.len with h₁ | h₁
      · rw [Function.update_of_ne (show k ≠ s.len by omega), Function.update_of_ne (hx k h₁)]
        exact hq.indexed.index_eq k h₁
      · rw [show k = s.len by omega]
        simp
  have hheap : HeapBut t.priOf t.inFlightPQ (s.len + 1) s.len := by
    rw [hframe.priOf]
    exact heapBut_update_last _ hq.heap x
  have hsw := up_swaps t (Nat.lt_succ_self s.len)
  obtain ⟨hfr, hlen⟩ := hsw.frame
  replace hlen : (t.up s.len).len = s.len + 1 := hlen
  rw [hpush]
  refine ⟨⟨?_, ?_⟩, hlen, hframe.trans hfr, ?_⟩
  · rw [hlen]
    exact hsw.indexed hidx
  · rw [hlen, hfr.priOf, up_inFlightPQ]
    exact siftUp_isHeap _ hheap (Nat.lt_succ_self _) fun c hc hcn =>
      absurd hcn (by have := hc.eq_or_eq; omega)
  · refine hsw.perm.trans ?_
    simp only [t]
    rw [elems_succ, elems_update_of_le _ (Nat.le_refl _), Function.update_self]

/-- `Pop` of a nonempty queue answers the root, and keeps the invariant with the others. -/
theorem pop_spec {s : FlightState} (hq : QueueOk s) (hn : 0 < s.len) :
    s.pop.2 = s.inFlightPQ 0 ∧ QueueOk s.pop.1 ∧ s.pop.1.len = s.len - 1 ∧
      QueueFrame s s.pop.1 ∧ (s.pop.1.objs s.pop.2).index = -1 ∧
      (elems s.pop.1.inFlightPQ (s.len - 1) ++ [s.pop.2]).Perm (elems s.inFlightPQ s.len) := by
  let t := s.swap 0 (s.len - 1)
  have hsw : Swaps s.len s (t.down 0 (s.len - 1)) :=
    Relation.ReflTransGen.head ⟨0, s.len - 1, hn, by omega, rfl⟩
      ((down_swaps t 0 (s.len - 1)).mono (by omega))
  have hcells : (t.down 0 (s.len - 1)).inFlightPQ =
      siftDown s.priOf (BinaryHeap.swap s.inFlightPQ 0 (s.len - 1)) 0 (s.len - 1) := by
    rw [down_inFlightPQ, (swap_frame s _ _).priOf, swap_inFlightPQ]
  -- the root went to the last cell, which `down` does not reach
  have hroot : (t.down 0 (s.len - 1)).inFlightPQ (s.len - 1) = s.inFlightPQ 0 := by
    rw [hcells, siftDown_apply_of_le _ _ _ (Nat.le_refl _), swap_apply_right]
  have hheap : IsHeap (t.down 0 (s.len - 1)).priOf (t.down 0 (s.len - 1)).inFlightPQ
      (s.len - 1) := by
    rw [hsw.frame.1.priOf, hcells]
    exact siftDown_isHeap _ ((hq.heap.heapBut _ 0).swap_last _ hn) fun h0 => absurd h0 (by omega)
  have hlen : (t.down 0 (s.len - 1)).len = s.len := hsw.frame.2
  obtain ⟨hok, hlen', hfr, hidx, hperm⟩ := cutLast_spec hq.indexed hsw hheap hn
  exact ⟨by rw [pop, cutLast_snd, hlen, hroot], hok, hlen', hfr, hidx, hperm⟩

/-- `Remove` of cell `i`, from a heap that may be out of order at `i` only: it answers the
message there, and keeps the invariant with the others. -/
theorem remove_spec {s : FlightState} (hidx : Indexed s s.len) {i : Nat}
    (hheap : HeapBut s.priOf s.inFlightPQ s.len i) (hi : i < s.len) :
    (s.remove i).2 = s.inFlightPQ i ∧ QueueOk (s.remove i).1 ∧ (s.remove i).1.len = s.len - 1 ∧
      QueueFrame s (s.remove i).1 ∧ ((s.remove i).1.objs (s.remove i).2).index = -1 ∧
      (elems (s.remove i).1.inFlightPQ (s.len - 1) ++ [(s.remove i).2]).Perm
        (elems s.inFlightPQ s.len) := by
  by_cases hlast : s.len - 1 ≠ i
  · -- the last cell moves into `i`, down, then up
    let t := s.swap i (s.len - 1)
    let u := (t.down i (s.len - 1)).up i
    have hrem : s.remove i = u.cutLast := by simp only [remove, if_pos hlast, u, t]
    have hsw : Swaps s.len s u :=
      Relation.ReflTransGen.head ⟨i, s.len - 1, hi, by omega, rfl⟩
        (((down_swaps t i (s.len - 1)).mono (by omega)).trans (up_swaps _ hi))
    have hcells : u.inFlightPQ = siftUp s.priOf
        (siftDown s.priOf (BinaryHeap.swap s.inFlightPQ i (s.len - 1)) i (s.len - 1)) i := by
      simp only [u]
      rw [up_inFlightPQ, down_inFlightPQ, ((down_swaps t i (s.len - 1)).frame.1).priOf,
        (swap_frame s _ _).priOf, swap_inFlightPQ]
    have hcut : u.inFlightPQ (s.len - 1) = s.inFlightPQ i := by
      rw [hcells, siftUp_apply_of_lt _ _ (by omega), siftDown_apply_of_le _ _ _ (Nat.le_refl _),
        swap_apply_right]
    have hheap' : IsHeap u.priOf u.inFlightPQ (s.len - 1) := by
      rw [hsw.frame.1.priOf, hcells]
      exact siftUp_siftDown_isHeap _ (hheap.swap_last _ hi) (by omega)
    obtain ⟨hok, hlen', hfr, hidx', hperm⟩ := cutLast_spec hidx hsw hheap' (by omega)
    rw [hrem]
    exact ⟨by rw [cutLast_snd, hsw.frame.2, hcut], hok, hlen', hfr, hidx', hperm⟩
  · -- `i` is the last cell: it is only cut off
    have hi' : i = s.len - 1 := by omega
    have hrem : s.remove i = s.cutLast := by simp only [remove, if_neg hlast]
    have hheap' : IsHeap s.priOf s.inFlightPQ (s.len - 1) := by
      have := hheap.swap_last _ hi
      rw [hi', swap_self] at this
      exact this.isHeap_of_le _ (by omega)
    obtain ⟨hok, hlen', hfr, hidx', hperm⟩ :=
      cutLast_spec hidx Relation.ReflTransGen.refl hheap' (by omega)
    rw [hrem]
    exact ⟨by rw [cutLast_snd, hi'], hok, hlen', hfr, hidx', hperm⟩

end FlightState

end Nsq
