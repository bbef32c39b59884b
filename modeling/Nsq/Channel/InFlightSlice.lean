import Nsq.Channel.InFlightSteps

/-!
# `inFlightPqueue` as Go runs it: indices, bounds and capacity

`Nsq.Channel.InFlight` keeps the heap's cells as an array without end, read at natural numbers.
Go's `inFlightPqueue` is a slice: its indices are `int`s, every read and write is checked against
its length and panics outside it, reslicing is checked against its capacity, `Push` doubles the
capacity of a full slice and `Pop` halves that of a slice using less than half of it. `up` finds
a parent as `(j - 1) / 2` in Go's truncating division, which stops the loop at the root only
because `(0 - 1) / 2 = 0`.

Here the methods are translated at that level, with a panic as `none`. On a queue of capacity
at least one they never panic and compute what the model of `Nsq.Channel.InFlight` computes
(`up_eq`, `down_eq`, `push_eq`, `pop_eq`, `remove_eq`, `peekAndShift_eq`), so the heap lemmas of
`Nsq.Channel.InFlightQueue` carry over to them (`inFlightPqueue_correct`). A queue keeps a
capacity of at least one from `initPQ` on, whatever the channel does with it (`Reachable.ok`),
so no method ever panics on it (`Reachable.no_panic`). `Push` of a message the queue already
holds breaks the queue (`inFlightPqueue_push_held`); `pushInFlightMessage` looks the message's ID
up in `inFlightMessages` before it pushes.

The backing array beyond the length is never read before it is written, so `make` and `copy`
are modelled as keeping the cells.
-/

namespace Nsq

/-- A value of type `inFlightPqueue`: the slice's cells and length are the channel's, and no
slice is longer than its capacity `cap`. -/
structure InFlightPqueue where
  st : FlightState
  cap : Nat
  len_le : st.len ≤ cap

namespace InFlightPqueue

open FlightState BinaryHeap

/-! ## The slice -/

/-- `(*pq)[k]`, which panics outside the slice. -/
def cell? (pq : InFlightPqueue) (k : Int) : Option Nat :=
  if 0 ≤ k ∧ k < pq.st.len then some (pq.st.inFlightPQ k.toNat) else none

/-- `(*pq)[k] = x`, which panics outside the slice. -/
def setCell? (pq : InFlightPqueue) (k : Int) (x : Nat) : Option InFlightPqueue :=
  if 0 ≤ k ∧ k < pq.st.len then
    some { pq with st := { pq.st with inFlightPQ := Function.update pq.st.inFlightPQ k.toNat x } }
  else none

/-- `(*pq)[0 : k]`, which panics beyond the capacity. -/
def reslice (pq : InFlightPqueue) (k : Int) : Option InFlightPqueue :=
  if h : 0 ≤ k ∧ k ≤ pq.cap then some ⟨{ pq.st with len := k.toNat }, pq.cap, by simp only; omega⟩
  else none

/-- `make(inFlightPqueue, len, c)` and a `copy` of the slice into it; `make` panics when the
length exceeds the capacity. -/
def realloc (pq : InFlightPqueue) (c : Nat) : Option InFlightPqueue :=
  if h : pq.st.len ≤ c then some ⟨pq.st, c, h⟩ else none

/-- A message's `index`, written through its reference. -/
def setIndex (pq : InFlightPqueue) (x : Nat) (i : Int) : InFlightPqueue :=
  { pq with st := { pq.st with objs := pq.st.setIndex x i } }

/-- `Swap` of two cells that were just read. -/
def swapCells (pq : InFlightPqueue) (i j : Int) : InFlightPqueue :=
  { pq with st := pq.st.swap i.toNat j.toNat }

/-- `Swap`, which reads both cells first. -/
def swap (pq : InFlightPqueue) (i j : Int) : Option InFlightPqueue :=
  match pq.cell? i, pq.cell? j with
  | some _, some _ => some (pq.swapCells i j)
  | _, _ => none

/-- `newInFlightPqueue`: an empty slice of the given capacity. -/
def newInFlightPqueue (s : FlightState) (capacity : Nat) : InFlightPqueue :=
  ⟨{ s with len := 0 }, capacity, Nat.zero_le _⟩

theorem cell?_some {pq : InFlightPqueue} {k : Int} {r : Nat} (h : pq.cell? k = some r) :
    0 ≤ k ∧ k < pq.st.len := by
  unfold cell? at h
  split at h
  · assumption
  · cases h

@[simp] theorem swapCells_st_len (pq : InFlightPqueue) (i j : Int) :
    (pq.swapCells i j).st.len = pq.st.len := rfl

@[simp] theorem swapCells_cap (pq : InFlightPqueue) (i j : Int) :
    (pq.swapCells i j).cap = pq.cap := rfl

/-- Above the root, Go's parent `(j - 1) / 2` is below `j`. -/
theorem goParent_lt {j : Int} (hj : 0 ≤ j) (h : (j - 1).tdiv 2 ≠ j) :
    ((j - 1).tdiv 2).toNat < j.toNat := by
  have h1 : 1 ≤ j := by
    by_contra h0
    exact h (by rw [show j = 0 by omega]; decide)
  rw [Int.tdiv_eq_ediv_of_nonneg (by omega)]
  omega

/-! ## `up` and `down` -/

/-- `up` -/
def up (pq : InFlightPqueue) (j : Int) : Option InFlightPqueue :=
  let i := (j - 1).tdiv 2
  if _ : i = j then some pq
  else
    match _ : pq.cell? j, pq.cell? i with
    | some rj, some ri =>
      if pq.st.priOf rj ≥ pq.st.priOf ri then some pq
      else (pq.swapCells i j).up i
    | _, _ => none
termination_by j.toNat
decreasing_by exact goParent_lt (cell?_some ‹_›).1 ‹_›

/-- The child `down` compares cell `i` with: `j2` when it is in range and no greater than the
left child `j1`. -/
def child? (pq : InFlightPqueue) (i n : Int) : Option Int :=
  let j1 := 2 * i + 1
  let j2 := j1 + 1
  if j2 < n then
    match pq.cell? j1, pq.cell? j2 with
    | some r1, some r2 => some (if pq.st.priOf r1 ≥ pq.st.priOf r2 then j2 else j1)
    | _, _ => none
  else some j1

theorem child?_ge {pq : InFlightPqueue} {i n j : Int} (h : pq.child? i n = some j) :
    2 * i + 1 ≤ j := by
  unfold child? at h
  dsimp only at h
  split at h
  · split at h
    · simp only [Option.some_inj] at h
      split at h <;> omega
    · cases h
  · simp only [Option.some_inj] at h
    omega

/-- `down` -/
def down (pq : InFlightPqueue) (i n : Int) : Option InFlightPqueue :=
  -- `2 * i + 1 < 0` only after an overflow of Go's `int`
  if 2 * i + 1 ≥ n ∨ 2 * i + 1 < 0 then some pq
  else
    match _ : pq.child? i n with
    | none => none
    | some j =>
      match _ : pq.cell? j, _ : pq.cell? i with
      | some rj, some ri =>
        if pq.st.priOf rj ≥ pq.st.priOf ri then some pq
        else (pq.swapCells i j).down j n
      | _, _ => none
termination_by (pq.st.len - i).toNat
decreasing_by
  -- both cells were read, and the child lies between `i` and the length
  rename_i hc hj hi _
  have := child?_ge hc
  have := cell?_some hj
  have := cell?_some hi
  simp only [swapCells_st_len]
  omega

/-! ## The methods -/

/-- `Push`: a full slice first moves to an array of twice its capacity. -/
def push (pq : InFlightPqueue) (x : Nat) : Option InFlightPqueue := do
  let n := pq.st.len
  let pq ← (if n + 1 > pq.cap then pq.realloc (pq.cap * 2) else some pq)
  let pq ← pq.reslice (n + 1)
  -- `x.index = n`, then `(*pq)[n] = x`
  let pq ← (pq.setIndex x n).setCell? n x
  pq.up n

/-- The end of `Pop` and `Remove`: the last of `n` cells is read, marked out of the heap and cut
off. -/
def cutLast (pq : InFlightPqueue) (n : Int) : Option (InFlightPqueue × Nat) := do
  let x ← pq.cell? (n - 1)
  let pq ← (pq.setIndex x (-1)).reslice (n - 1)
  some (pq, x)

/-- `Pop`: a slice using less than half of an array of more than 25 cells moves to one of half
the capacity before its last cell is cut off. -/
def pop (pq : InFlightPqueue) : Option (InFlightPqueue × Nat) := do
  let n : Int := pq.st.len
  let c : Int := pq.cap
  let pq ← pq.swap 0 (n - 1)
  let pq ← pq.down 0 (n - 1)
  let pq ← (if n < c / 2 ∧ c > 25 then pq.realloc (c / 2).toNat else some pq)
  pq.cutLast n

/-- `Remove` -/
def remove (pq : InFlightPqueue) (i : Int) : Option (InFlightPqueue × Nat) := do
  let n : Int := pq.st.len
  let pq ← (if n - 1 ≠ i then do
      let pq ← pq.swap i (n - 1)
      let pq ← pq.down i (n - 1)
      pq.up i
    else some pq)
  pq.cutLast n

/-- `PeekAndShift` -/
def peekAndShift (pq : InFlightPqueue) (max : Int) : Option (InFlightPqueue × Option Nat × Int) :=
  if pq.st.len = 0 then some (pq, none, 0)
  else do
    let x ← pq.cell? 0
    if pq.st.priOf x > max then some (pq, none, pq.st.priOf x - max)
    else do
      let (pq, _) ← pq.pop
      some (pq, some x, 0)

/-! ## The model's loops -/

theorem cell?_of_lt {pq : InFlightPqueue} {k : Nat} (hk : k < pq.st.len) :
    pq.cell? k = some (pq.st.inFlightPQ k) := by
  simp [cell?, hk]

/-- Go's parent of a cell is the model's. -/
theorem goParent_eq (j : Nat) : ((j : Int) - 1).tdiv 2 = (parent j : Nat) := by
  unfold parent
  rcases Nat.eq_zero_or_pos j with rfl | hj
  · decide
  · rw [Int.tdiv_eq_ediv_of_nonneg (by omega)]
    omega

/-- On cells of the slice, `down`'s child is the model's `minChild`. -/
theorem child?_eq {pq : InFlightPqueue} {i n : Nat} (hn : n ≤ pq.st.len) (hleaf : 2 * i + 1 < n) :
    pq.child? i n = some ((minChild pq.st.priOf pq.st.inFlightPQ i n : Nat) : Int) := by
  have e1 : 2 * (i : Int) + 1 = ((2 * i + 1 : Nat) : Int) := by omega
  have e2 : 2 * (i : Int) + 1 + 1 = ((2 * i + 2 : Nat) : Int) := by omega
  unfold child? minChild
  dsimp only
  by_cases h2 : 2 * i + 2 < n
  · rw [if_pos (by omega), e2, e1, cell?_of_lt (by omega), cell?_of_lt (by omega)]
    by_cases hle : pq.st.priOf (pq.st.inFlightPQ (2 * i + 2)) ≤
        pq.st.priOf (pq.st.inFlightPQ (2 * i + 1)) <;> simp [h2, hle]
  · rw [if_neg (by omega), if_neg (by omega), e1]

/-- One round of `up` on a cell of the slice other than the root, in the model's terms. -/
theorem up_of_ne (pq : InFlightPqueue) {j : Nat} (hj : j < pq.st.len) (hroot : parent j ≠ j) :
    pq.up j = if pq.st.priOf (pq.st.inFlightPQ (parent j)) ≤ pq.st.priOf (pq.st.inFlightPQ j)
      then some pq else (pq.swapCells (parent j) j).up (parent j) := by
  have hp := parent_lt (pos_of_parent_ne hroot)
  rw [up, goParent_eq, dif_neg (by exact_mod_cast hroot)]
  split
  · rename_i rj ri h1 h2
    rw [cell?_of_lt hj, Option.some_inj] at h1
    rw [cell?_of_lt (by omega), Option.some_inj] at h2
    subst h1 h2
    rfl
  · rename_i hnone
    exact (hnone _ _ (cell?_of_lt hj) (cell?_of_lt (by omega))).elim

/-- One round of `down` with a child in range, in the model's terms. -/
theorem down_of_lt (pq : InFlightPqueue) {i n : Nat} (hn : n ≤ pq.st.len) (hleaf : 2 * i + 1 < n) :
    pq.down i n = if pq.st.priOf (pq.st.inFlightPQ i) ≤
        pq.st.priOf (pq.st.inFlightPQ (minChild pq.st.priOf pq.st.inFlightPQ i n)) then some pq
      else (pq.swapCells i (minChild pq.st.priOf pq.st.inFlightPQ i n)).down
        (minChild pq.st.priOf pq.st.inFlightPQ i n) n := by
  have hc := minChild_lt pq.st.priOf (a := pq.st.inFlightPQ) hleaf
  rw [down, if_neg (by omega)]
  split
  · rename_i hnone
    rw [child?_eq hn hleaf] at hnone
    cases hnone
  · rename_i j hj
    rw [child?_eq hn hleaf, Option.some_inj] at hj
    subst hj
    split
    · rename_i rj ri h1 h2
      rw [cell?_of_lt (by omega), Option.some_inj] at h1 h2
      subst h1 h2
      rfl
    · rename_i hnone
      exact (hnone _ _ (cell?_of_lt (by omega)) (cell?_of_lt (by omega))).elim

@[simp] theorem swapCells_st (pq : InFlightPqueue) (i j : Nat) :
    (pq.swapCells i j).st = pq.st.swap i j := by
  simp [swapCells]

/-- `up` on a cell of the slice never panics, and moves the cells as the model's `up`. -/
theorem up_eq (pq : InFlightPqueue) {j : Nat} (hj : j < pq.st.len) :
    ∃ pq', pq.up j = some pq' ∧ pq'.st = pq.st.up j ∧ pq'.cap = pq.cap := by
  suffices h : ∀ (s : FlightState) (j : Nat), ∀ pq : InFlightPqueue, pq.st = s → j < s.len →
      ∃ pq', pq.up j = some pq' ∧ pq'.st = s.up j ∧ pq'.cap = pq.cap from
    h _ j pq rfl hj
  intro s j
  induction s, j using FlightState.up.induct with
  | case1 s j hstop =>
    intro pq hs hj
    subst hs
    rw [FlightState.up, if_pos hstop]
    by_cases hroot : parent j = j
    · rw [up, goParent_eq, dif_pos (by rw [hroot])]
      exact ⟨pq, rfl, rfl, rfl⟩
    · rw [up_of_ne pq hj hroot, if_pos (hstop.resolve_left hroot)]
      exact ⟨pq, rfl, rfl, rfl⟩
  | case2 s j hgo ih =>
    intro pq hs hj
    subst hs
    have hroot : parent j ≠ j := fun h => hgo (Or.inl h)
    have hp := parent_lt (pos_of_parent_ne hroot)
    rw [FlightState.up, if_neg hgo, up_of_ne pq hj hroot, if_neg fun h => hgo (Or.inr h)]
    exact ih (pq.swapCells (parent j) j) (swapCells_st _ _ _) (by simp; omega)

/-- `down` among cells of the slice never panics, and moves the cells as the model's `down`. -/
theorem down_eq (pq : InFlightPqueue) (i : Nat) {n : Nat} (hn : n ≤ pq.st.len) :
    ∃ pq', pq.down i n = some pq' ∧ pq'.st = pq.st.down i n ∧ pq'.cap = pq.cap := by
  suffices h : ∀ (s : FlightState) (i : Nat), ∀ pq : InFlightPqueue, pq.st = s → n ≤ s.len →
      ∃ pq', pq.down i n = some pq' ∧ pq'.st = s.down i n ∧ pq'.cap = pq.cap from
    h _ i pq rfl hn
  intro s i
  induction s, i using FlightState.down.induct n with
  | case1 s i hleaf =>
    intro pq hs _
    rw [down, if_pos (by omega), FlightState.down, if_pos hleaf]
    exact ⟨pq, rfl, hs, rfl⟩
  | case2 s i hleaf hle =>
    intro pq hs hn
    subst hs
    rw [down_of_lt pq hn (by omega), if_pos hle, FlightState.down, if_neg hleaf, if_pos hle]
    exact ⟨pq, rfl, rfl, rfl⟩
  | case3 s i hleaf hgt ih =>
    intro pq hs hn
    subst hs
    rw [down_of_lt pq hn (by omega), if_neg hgt, FlightState.down, if_neg hleaf, if_neg hgt]
    exact ih _ (swapCells_st _ _ _) hn

/-! ## The methods never panic, and compute the model -/

theorem swap_of_lt (pq : InFlightPqueue) {i j : Nat} (hi : i < pq.st.len) (hj : j < pq.st.len) :
    pq.swap i j = some (pq.swapCells i j) := by
  simp [swap, cell?_of_lt hi, cell?_of_lt hj]

theorem realloc_of_le (pq : InFlightPqueue) {c : Nat} (h : pq.st.len ≤ c) :
    pq.realloc c = some ⟨pq.st, c, h⟩ := by
  simp [realloc, h]

theorem reslice_of_le (pq : InFlightPqueue) {k : Nat} (h : k ≤ pq.cap) :
    pq.reslice k = some ⟨{ pq.st with len := k }, pq.cap, h⟩ := by
  simp [reslice, h]

theorem setCell?_of_lt (pq : InFlightPqueue) {k : Nat} (x : Nat) (h : k < pq.st.len) :
    pq.setCell? k x = some { pq with st := { pq.st with
      inFlightPQ := Function.update pq.st.inFlightPQ k x } } := by
  simp [setCell?, h]

theorem push_eq (pq : InFlightPqueue) (x : Nat) (hc : 1 ≤ pq.cap) :
    ∃ pq', pq.push x = some pq' ∧ pq'.st = pq.st.push x ∧ 1 ≤ pq'.cap := by
  have hle := pq.len_le
  -- a full slice doubles its capacity, which leaves room for the new cell
  obtain ⟨c, hc₁, hgrow, hroom, hc'⟩ : ∃ c, ∃ h : pq.st.len ≤ c,
      (if pq.st.len + 1 > pq.cap then pq.realloc (pq.cap * 2) else some pq) = some ⟨pq.st, c, h⟩ ∧
        pq.st.len + 1 ≤ c ∧ 1 ≤ c := by
    by_cases hfull : pq.st.len + 1 > pq.cap
    · exact ⟨pq.cap * 2, by omega, by rw [if_pos hfull, realloc_of_le], by omega, by omega⟩
    · exact ⟨pq.cap, hle, by rw [if_neg hfull], by omega, hc⟩
  -- the slice once the new cell is written, before it moves up
  let st : FlightState := { pq.st with len := pq.st.len + 1, objs := pq.st.setIndex x pq.st.len,
                                       inFlightPQ := Function.update pq.st.inFlightPQ pq.st.len x }
  let t : InFlightPqueue := ⟨st, c, hroom⟩
  have hn1 : (pq.st.len : Int) + 1 = ((pq.st.len + 1 : Nat) : Int) := by push_cast; rfl
  have ht : pq.push x = t.up pq.st.len := by
    simp only [push, hgrow, Option.bind_eq_bind, Option.bind_some, hn1]
    rw [reslice_of_le _ hroom]
    simp only [Option.bind_some]
    rw [setCell?_of_lt _ _ (show pq.st.len < pq.st.len + 1 by omega)]
    rfl
  obtain ⟨pq', h, hst', hcap'⟩ := t.up_eq (j := pq.st.len) (by simp [t, st])
  exact ⟨pq', by rw [ht, h], hst', hcap' ▸ hc'⟩

theorem cutLast_eq (pq : InFlightPqueue) (hn : 0 < pq.st.len) :
    ∃ pq', pq.cutLast pq.st.len = some (pq', pq.st.cutLast.2) ∧ pq'.st = pq.st.cutLast.1 ∧
      pq'.cap = pq.cap := by
  have hle := pq.len_le
  have hn1 : (pq.st.len : Int) - 1 = ((pq.st.len - 1 : Nat) : Int) := by omega
  refine ⟨⟨pq.st.cutLast.1, pq.cap, by rw [cutLast_len]; omega⟩, ?_, rfl, rfl⟩
  simp only [cutLast, hn1, cell?_of_lt (show pq.st.len - 1 < pq.st.len by omega),
    Option.bind_eq_bind, Option.bind_some]
  rw [reslice_of_le (pq.setIndex _ (-1)) (show pq.st.len - 1 ≤ pq.cap by omega)]
  rfl

theorem down_len (s : FlightState) (i n : Nat) : (s.down i n).len = s.len :=
  (down_swaps s i n).frame.2

theorem up_len (s : FlightState) {j : Nat} (hj : j < s.len) : (s.up j).len = s.len :=
  (up_swaps s hj).frame.2

theorem pop_eq (pq : InFlightPqueue) (hn : 0 < pq.st.len) (hc : 1 ≤ pq.cap) :
    ∃ pq', pq.pop = some (pq', pq.st.pop.2) ∧ pq'.st = pq.st.pop.1 ∧ 1 ≤ pq'.cap := by
  have hle := pq.len_le
  have hn1 : (pq.st.len : Int) - 1 = ((pq.st.len - 1 : Nat) : Int) := by omega
  obtain ⟨pq₂, hd, hst₂, hcap₂⟩ :=
    (pq.swapCells (0 : Nat) (pq.st.len - 1 : Nat)).down_eq 0 (n := pq.st.len - 1) (by simp)
  rw [swapCells_st] at hst₂
  have hlen₂ : pq₂.st.len = pq.st.len := by rw [hst₂, down_len]; rfl
  -- a slice using less than half of a large array moves to one of half the capacity
  obtain ⟨pq₃, hshrink, hst₃, hcap₃⟩ : ∃ pq₃,
      (if (pq.st.len : Int) < (pq.cap : Int) / 2 ∧ (pq.cap : Int) > 25 then
        pq₂.realloc ((pq.cap : Int) / 2).toNat else some pq₂) = some pq₃ ∧
      pq₃.st = pq₂.st ∧ 1 ≤ pq₃.cap := by
    by_cases hhalf : (pq.st.len : Int) < (pq.cap : Int) / 2 ∧ (pq.cap : Int) > 25
    · rw [if_pos hhalf, realloc_of_le _ (by omega)]
      exact ⟨_, rfl, rfl, show 1 ≤ ((pq.cap : Int) / 2).toNat by omega⟩
    · rw [if_neg hhalf]
      exact ⟨pq₂, rfl, rfl, by rw [hcap₂]; exact hc⟩
  obtain ⟨pq', hcut, hst', hcap'⟩ := pq₃.cutLast_eq (by rw [hst₃, hlen₂]; exact hn)
  refine ⟨pq', ?_, ?_, by omega⟩
  · have hlen₃ : (pq.st.len : Int) = (pq₃.st.len : Int) := by rw [hst₃, hlen₂]
    simp only [pop, hn1, Option.bind_eq_bind]
    rw [show (0 : Int) = ((0 : Nat) : Int) from rfl,
      swap_of_lt pq hn (show pq.st.len - 1 < pq.st.len by omega), Option.bind_some, hd,
      Option.bind_some, hshrink, Option.bind_some, hlen₃, hcut, hst₃, hst₂]
    rfl
  · rw [hst', hst₃, hst₂]
    rfl

theorem remove_eq (pq : InFlightPqueue) {i : Nat} (hi : i < pq.st.len) :
    ∃ pq', pq.remove i = some (pq', (pq.st.remove i).2) ∧ pq'.st = (pq.st.remove i).1 ∧
      pq'.cap = pq.cap := by
  have hn1 : (pq.st.len : Int) - 1 = ((pq.st.len - 1 : Nat) : Int) := by omega
  simp only [remove, Option.bind_eq_bind]
  by_cases hlast : pq.st.len - 1 ≠ i
  · -- the last cell moves into `i`, down, then up, and is cut off
    obtain ⟨pq₁, hd, hst₁, hcap₁⟩ :=
      (pq.swapCells i (pq.st.len - 1 : Nat)).down_eq i (n := pq.st.len - 1) (by simp)
    rw [swapCells_st] at hst₁
    obtain ⟨pq₂, hu, hst₂, hcap₂⟩ := pq₁.up_eq (j := i) (by rw [hst₁, down_len]; exact hi)
    have hlen₂ : pq₂.st.len = pq.st.len := by
      rw [hst₂, up_len _ (by rw [hst₁, down_len]; exact hi), hst₁, down_len]
      rfl
    obtain ⟨pq', hcut, hst', hcap'⟩ := pq₂.cutLast_eq (by omega)
    refine ⟨pq', ?_, ?_, by rw [hcap', hcap₂, hcap₁]; rfl⟩
    · rw [if_pos (by omega), hn1, swap_of_lt pq hi (by omega), Option.bind_some, hd,
        Option.bind_some, hu, Option.bind_some, ← hlen₂, hcut, hst₂, hst₁]
      simp only [FlightState.remove, if_pos hlast]
    · rw [hst', hst₂, hst₁]
      simp only [FlightState.remove, if_pos hlast]
  · -- `i` is the last cell: it is only cut off
    obtain ⟨pq', hcut, hst', hcap'⟩ := pq.cutLast_eq (by omega)
    refine ⟨pq', ?_, ?_, hcap'⟩
    · rw [if_neg (by omega), Option.bind_some, hcut]
      simp only [FlightState.remove, if_neg hlast]
    · rw [hst']
      simp only [FlightState.remove, if_neg hlast]

theorem peekAndShift_eq (pq : InFlightPqueue) (max : Int) (hc : 1 ≤ pq.cap) :
    ∃ pq', pq.peekAndShift max = some (pq', (pq.st.peekAndShift max).2) ∧
      pq'.st = (pq.st.peekAndShift max).1 ∧ 1 ≤ pq'.cap := by
  by_cases h0 : pq.st.len = 0
  · refine ⟨pq, ?_, ?_, hc⟩ <;> simp [peekAndShift, FlightState.peekAndShift, h0]
  · have hroot : pq.cell? 0 = some (pq.st.inFlightPQ 0) := by
      simpa using cell?_of_lt (show 0 < pq.st.len by omega)
    by_cases hmax : max < (pq.st.objs (pq.st.inFlightPQ 0)).pri
    · refine ⟨pq, ?_, ?_, hc⟩ <;>
        simp [peekAndShift, FlightState.peekAndShift, h0, hroot, hmax, FlightState.priOf]
    · -- the root is due: it is popped
      obtain ⟨pq', hpop, hst', hcap'⟩ := pq.pop_eq (by omega) hc
      refine ⟨pq', ?_, ?_, hcap'⟩ <;>
        simp [peekAndShift, FlightState.peekAndShift, h0, hroot, hmax, FlightState.priOf, hpop,
          hst']

/-! ## A correct indexed min-heap -/

/-- Messages that record their own cells are distinct. -/
theorem indexed_of_index_eq {s : FlightState} {n : Nat}
    (h : ∀ k, k < n → (s.objs (s.inFlightPQ k)).index = k) : Indexed s n := by
  refine ⟨fun k k' hk hk' heq => ?_, h⟩
  have hkk' : (k : Int) = k' := by rw [← h k hk, ← h k' hk', heq]
  exact_mod_cast hkk'

theorem push_correct {pq : InFlightPqueue} (hq : QueueOk pq.st) (hc : 1 ≤ pq.cap) {x : Nat}
    (hx : ∀ k, k < pq.st.len → pq.st.inFlightPQ k ≠ x) :
    ∃ pq', pq.push x = some pq' ∧ QueueOk pq'.st ∧ 1 ≤ pq'.cap ∧ QueueFrame pq.st pq'.st ∧
      pq'.st.len = pq.st.len + 1 ∧
      (elems pq'.st.inFlightPQ pq'.st.len).Perm (elems pq.st.inFlightPQ pq.st.len ++ [x]) := by
  obtain ⟨pq', h, hst, hcap⟩ := pq.push_eq x hc
  obtain ⟨hok, hlen, hfr, hperm⟩ := push_spec hq hx
  refine ⟨pq', h, ?_⟩
  rw [hst]
  exact ⟨hok, hcap, hfr, hlen, hlen ▸ hperm⟩

theorem pop_correct {pq : InFlightPqueue} (hq : QueueOk pq.st) (hc : 1 ≤ pq.cap)
    (hn : 0 < pq.st.len) :
    ∃ pq', pq.pop = some (pq', pq.st.inFlightPQ 0) ∧
      (∀ k, k < pq.st.len → pq.st.priOf (pq.st.inFlightPQ 0) ≤ pq.st.priOf (pq.st.inFlightPQ k)) ∧
      (pq'.st.objs (pq.st.inFlightPQ 0)).index = -1 ∧ QueueOk pq'.st ∧ 1 ≤ pq'.cap ∧
      QueueFrame pq.st pq'.st ∧ pq'.st.len = pq.st.len - 1 ∧
      (elems pq'.st.inFlightPQ pq'.st.len ++ [pq.st.inFlightPQ 0]).Perm
        (elems pq.st.inFlightPQ pq.st.len) := by
  obtain ⟨pq', h, hst, hcap⟩ := pq.pop_eq hn hc
  obtain ⟨hroot, hok, hlen, hfr, hidx, hperm⟩ := pop_spec hq hn
  refine ⟨pq', by rw [h, hroot], hq.heap.root_le, ?_⟩
  rw [hst, ← hroot]
  exact ⟨hidx, hok, hcap, hfr, hlen, hlen ▸ hperm⟩

theorem remove_correct {pq : InFlightPqueue} (hq : QueueOk pq.st) {i : Nat} (hi : i < pq.st.len) :
    ∃ pq', pq.remove i = some (pq', pq.st.inFlightPQ i) ∧
      (pq'.st.objs (pq.st.inFlightPQ i)).index = -1 ∧ QueueOk pq'.st ∧ pq'.cap = pq.cap ∧
      QueueFrame pq.st pq'.st ∧ pq'.st.len = pq.st.len - 1 ∧
      (elems pq'.st.inFlightPQ pq'.st.len ++ [pq.st.inFlightPQ i]).Perm
        (elems pq.st.inFlightPQ pq.st.len) := by
  obtain ⟨pq', h, hst, hcap⟩ := pq.remove_eq hi
  obtain ⟨hx, hok, hlen, hfr, hidx, hperm⟩ := remove_spec hq.indexed (hq.heap.heapBut _ i) hi
  refine ⟨pq', by rw [h, hx], ?_⟩
  rw [hst, ← hx]
  exact ⟨hidx, hok, hcap, hfr, hlen, hlen ▸ hperm⟩

theorem peekAndShift_correct {pq : InFlightPqueue} (hq : QueueOk pq.st) (hc : 1 ≤ pq.cap)
    (max : Int) :
    (pq.st.len = 0 → pq.peekAndShift max = some (pq, none, 0)) ∧
    (0 < pq.st.len → max < pq.st.priOf (pq.st.inFlightPQ 0) →
      pq.peekAndShift max = some (pq, none, pq.st.priOf (pq.st.inFlightPQ 0) - max)) ∧
    (0 < pq.st.len → pq.st.priOf (pq.st.inFlightPQ 0) ≤ max →
      ∃ pq', pq.peekAndShift max = some (pq', some (pq.st.inFlightPQ 0), 0) ∧
        pq.pop = some (pq', pq.st.inFlightPQ 0)) := by
  have hroot : 0 < pq.st.len → pq.cell? 0 = some (pq.st.inFlightPQ 0) := fun h0 => by
    simpa using cell?_of_lt h0
  refine ⟨fun h0 => by simp [peekAndShift, h0], fun h0 hmax => ?_, fun h0 hmax => ?_⟩
  · simp [peekAndShift, Nat.pos_iff_ne_zero.mp h0, hroot h0, hmax]
  · -- the root is due, and popped
    obtain ⟨pq', hpop, -⟩ := pop_correct hq hc h0
    exact ⟨pq', by simp [peekAndShift, Nat.pos_iff_ne_zero.mp h0, hroot h0, hmax, hpop],
      hpop⟩

/-- `inFlightPqueue` is an indexed binary min-heap. From a slice of capacity at least one whose
cells are in heap order of `pri` and whose messages record their cells, no method panics: `Push`
of a message not in the queue adds it; `Pop` of a nonempty queue answers a message of least
`pri`, marked out of the heap; `Remove(i)` answers the message in cell `i`; `PeekAndShift(max)`
answers how long the least message still has, or pops it. After each, the messages left are the
expected ones, in heap order, recording their cells, in a slice of capacity at least one, and
nothing else of the channel changed. -/
theorem inFlightPqueue_correct (pq : InFlightPqueue)
    (hheap : IsHeap pq.st.priOf pq.st.inFlightPQ pq.st.len)
    (hidx : ∀ k, k < pq.st.len → (pq.st.objs (pq.st.inFlightPQ k)).index = k)
    (hc : 1 ≤ pq.cap) :
    (∀ x, (∀ k, k < pq.st.len → pq.st.inFlightPQ k ≠ x) →
      ∃ pq', pq.push x = some pq' ∧ QueueOk pq'.st ∧ 1 ≤ pq'.cap ∧ QueueFrame pq.st pq'.st ∧
        pq'.st.len = pq.st.len + 1 ∧
        (elems pq'.st.inFlightPQ pq'.st.len).Perm (elems pq.st.inFlightPQ pq.st.len ++ [x])) ∧
    (0 < pq.st.len →
      ∃ pq', pq.pop = some (pq', pq.st.inFlightPQ 0) ∧
        (∀ k, k < pq.st.len →
          pq.st.priOf (pq.st.inFlightPQ 0) ≤ pq.st.priOf (pq.st.inFlightPQ k)) ∧
        (pq'.st.objs (pq.st.inFlightPQ 0)).index = -1 ∧ QueueOk pq'.st ∧ 1 ≤ pq'.cap ∧
        QueueFrame pq.st pq'.st ∧ pq'.st.len = pq.st.len - 1 ∧
        (elems pq'.st.inFlightPQ pq'.st.len ++ [pq.st.inFlightPQ 0]).Perm
          (elems pq.st.inFlightPQ pq.st.len)) ∧
    (∀ i : Int, 0 ≤ i → i < pq.st.len →
      ∃ pq', pq.remove i = some (pq', pq.st.inFlightPQ i.toNat) ∧
        (pq'.st.objs (pq.st.inFlightPQ i.toNat)).index = -1 ∧ QueueOk pq'.st ∧
        pq'.cap = pq.cap ∧ QueueFrame pq.st pq'.st ∧ pq'.st.len = pq.st.len - 1 ∧
        (elems pq'.st.inFlightPQ pq'.st.len ++ [pq.st.inFlightPQ i.toNat]).Perm
          (elems pq.st.inFlightPQ pq.st.len)) ∧
    (∀ max : Int,
      (pq.st.len = 0 → pq.peekAndShift max = some (pq, none, 0)) ∧
      (0 < pq.st.len → max < pq.st.priOf (pq.st.inFlightPQ 0) →
        pq.peekAndShift max = some (pq, none, pq.st.priOf (pq.st.inFlightPQ 0) - max)) ∧
      (0 < pq.st.len → pq.st.priOf (pq.st.inFlightPQ 0) ≤ max →
        ∃ pq', pq.peekAndShift max = some (pq', some (pq.st.inFlightPQ 0), 0) ∧
          pq.pop = some (pq', pq.st.inFlightPQ 0))) := by
  have hq : QueueOk pq.st := ⟨indexed_of_index_eq hidx, hheap⟩
  refine ⟨fun x hx => push_correct hq hc hx, pop_correct hq hc, fun i hi0 hi => ?_,
    peekAndShift_correct hq hc⟩
  have h := remove_correct hq (i := i.toNat) (by omega)
  rwa [Int.toNat_of_nonneg hi0] at h

/-- A new channel whose message objects fall due at `10 - r`, the later reference first. -/
def timedChannel : FlightState :=
  { newChannel with objs := fun r => { newChannel.objs r with pri := 10 - (r : Int) } }

/-- A new queue of capacity one over `timedChannel` after `Push(7)` and `Push(8)`: the second push
reallocates, and 8, due first, is sifted up to the root. -/
def twoQueued : InFlightPqueue :=
  match (newInFlightPqueue timedChannel 1).push 7 with
  | some pq => (pq.push 8).getD pq
  | none => newInFlightPqueue timedChannel 1

/-- The queue after two pushes is a heap whose messages record their cells, and `Pop` answers the
message due first, 8, and leaves a queue of one that keeps both. -/
theorem inFlightPqueue_correct_two_queued :
    IsHeap twoQueued.st.priOf twoQueued.st.inFlightPQ twoQueued.st.len ∧
      (∀ k, k < twoQueued.st.len → (twoQueued.st.objs (twoQueued.st.inFlightPQ k)).index = k) ∧
      1 ≤ twoQueued.cap ∧ twoQueued.st.len = 2 ∧ twoQueued.st.inFlightPQ 0 = 8 ∧
      ∃ pq', twoQueued.pop = some (pq', 8) ∧ QueueOk pq'.st ∧ pq'.st.len = 1 := by
  have hlen : twoQueued.st.len = 2 := by decide +kernel
  have hheap : IsHeap twoQueued.st.priOf twoQueued.st.inFlightPQ twoQueued.st.len := by
    intro c h0 hc
    -- two cells: the only child is cell 1
    obtain rfl : c = 1 := by omega
    decide +kernel
  have hidx : ∀ k, k < twoQueued.st.len →
      (twoQueued.st.objs (twoQueued.st.inFlightPQ k)).index = k := by
    decide +kernel
  have hroot : twoQueued.st.inFlightPQ 0 = 8 := by decide +kernel
  obtain ⟨pq', hpop, -, -, hok, -, -, hlen', -⟩ :=
    (inFlightPqueue_correct _ hheap hidx (by decide +kernel)).2.1 (by omega)
  rw [hroot] at hpop
  exact ⟨hheap, hidx, by decide +kernel, hlen, hroot, pq', hpop, hok, by omega⟩

/-- `Push` of a message the queue already holds: the message records its new cell only, so the
cell it held before no longer matches its record. -/
theorem inFlightPqueue_push_held :
    ∃ pq : InFlightPqueue, QueueOk pq.st ∧ 1 ≤ pq.cap ∧
      ∃ pq', pq.push (pq.st.inFlightPQ 0) = some pq' ∧ ¬ QueueOk pq'.st := by
  -- message 0 alone in cell 0
  let s : FlightState := { newChannel with len := 1, objs := newChannel.setIndex 0 0 }
  have hq : QueueOk s :=
    ⟨indexed_of_index_eq fun k (hk : k < 1) => by rw [show k = 0 by omega]; rfl,
      fun _ h0 (hc : _ < 1) => absurd hc (by omega)⟩
  obtain ⟨pq', h, hst, -⟩ := push_eq ⟨s, 1, Nat.le_refl 1⟩ 0 (Nat.le_refl 1)
  refine ⟨⟨s, 1, Nat.le_refl 1⟩, hq, Nat.le_refl 1, pq', h, fun hq' => ?_⟩
  -- the new cell's parent holds the same message, so `up` stops at once
  have hpush : s.push 0 =
      { s with len := 2, objs := s.setIndex 0 1, inFlightPQ := Function.update s.inFlightPQ 1 0 } := by
    rw [FlightState.push, FlightState.up, if_pos (Or.inr (by decide))]
    rfl
  have h0 := hq'.indexed.index_eq 0 (by rw [hst, hpush]; decide)
  rw [hst, hpush] at h0
  exact absurd h0 (by decide)

/-! ## Every queue the channel reaches -/

theorem pop_some {pq : InFlightPqueue} {r : InFlightPqueue × Nat} (h : pq.pop = some r) :
    0 < pq.st.len := by
  by_contra h0
  simp [pop, swap, cell?, show pq.st.len = 0 by omega] at h

theorem remove_some {pq : InFlightPqueue} {i : Int} {r : InFlightPqueue × Nat}
    (h : pq.remove i = some r) : 0 ≤ i ∧ i < pq.st.len := by
  simp only [remove, Option.bind_eq_bind] at h
  split at h
  · -- `Swap(i, n - 1)` reads cell `i`
    cases hi : pq.cell? i with
    | none => simp [swap, hi] at h
    | some _ => exact cell?_some hi
  · -- `i` is the last cell, which `cutLast` reads
    rename_i hlast
    cases hi : pq.cell? (pq.st.len - 1) with
    | none => simp [cutLast, hi] at h
    | some _ =>
      have := cell?_some hi
      omega

/-- The capacity `initPQ` gives the queue: a tenth of `MemQueueSize`, and at least one. -/
def pqSize (memQueueSize : Int) : Nat := (max 1 (memQueueSize / 10)).toNat

/-- The queues a channel reaches: from `initPQ`'s new queue, by the methods, pushing only messages
the queue does not hold. -/
inductive Reachable : InFlightPqueue → Prop where
  | initPQ (s : FlightState) (memQueueSize : Int) :
      Reachable (newInFlightPqueue s (pqSize memQueueSize))
  | push {pq pq' : InFlightPqueue} {x : Nat} (hr : Reachable pq)
      (hx : ∀ k, k < pq.st.len → pq.st.inFlightPQ k ≠ x) (h : pq.push x = some pq') :
      Reachable pq'
  | pop {pq pq' : InFlightPqueue} {x : Nat} (hr : Reachable pq) (h : pq.pop = some (pq', x)) :
      Reachable pq'
  | remove {pq pq' : InFlightPqueue} {i : Int} {x : Nat} (hr : Reachable pq)
      (h : pq.remove i = some (pq', x)) : Reachable pq'
  | peekAndShift {pq pq' : InFlightPqueue} {max : Int} {r : Option Nat × Int}
      (hr : Reachable pq) (h : pq.peekAndShift max = some (pq', r)) : Reachable pq'

/-- Every queue the channel reaches is a heap whose messages record their cells, in a slice of
capacity at least one. -/
theorem Reachable.ok {pq : InFlightPqueue} (h : Reachable pq) : QueueOk pq.st ∧ 1 ≤ pq.cap := by
  induction h with
  | initPQ s memQueueSize =>
    refine ⟨⟨indexed_of_index_eq fun k hk => absurd hk (Nat.not_lt_zero k),
      fun _ _ hc => absurd hc (Nat.not_lt_zero _)⟩, ?_⟩
    show 1 ≤ (max 1 (memQueueSize / 10)).toNat
    omega
  | push _ hx h ih =>
    obtain ⟨pq'', h', hok, hcap, -⟩ := push_correct ih.1 ih.2 hx
    rw [h, Option.some_inj] at h'
    exact h' ▸ ⟨hok, hcap⟩
  | pop _ h ih =>
    obtain ⟨pq'', h', -, -, hok, hcap, -⟩ := pop_correct ih.1 ih.2 (pop_some h)
    rw [h, Option.some_inj, Prod.mk.injEq] at h'
    exact h'.1 ▸ ⟨hok, hcap⟩
  | @remove pq pq' i x _ h ih =>
    obtain ⟨hi0, hi⟩ := remove_some h
    obtain ⟨pq'', h', -, hok, hcap, -⟩ := remove_correct ih.1 (i := i.toNat) (by omega)
    rw [Int.toNat_of_nonneg hi0, h, Option.some_inj, Prod.mk.injEq] at h'
    exact h'.1 ▸ ⟨hok, hcap ▸ ih.2⟩
  | @peekAndShift pq pq' max r _ h ih =>
    obtain ⟨hempty, hwait, hdue⟩ := peekAndShift_correct ih.1 ih.2 max
    rcases Nat.eq_zero_or_pos pq.st.len with h0 | h0
    · rw [hempty h0, Option.some_inj, Prod.mk.injEq] at h
      exact h.1 ▸ ih
    · by_cases hmax : max < pq.st.priOf (pq.st.inFlightPQ 0)
      · rw [hwait h0 hmax, Option.some_inj, Prod.mk.injEq] at h
        exact h.1 ▸ ih
      · obtain ⟨pq'', hps, hpop⟩ := hdue h0 (by omega)
        obtain ⟨pq₃, hpop', -, -, hok, hcap, -⟩ := pop_correct ih.1 ih.2 h0
        rw [hps, Option.some_inj, Prod.mk.injEq] at h
        rw [hpop, Option.some_inj, Prod.mk.injEq] at hpop'
        exact h.1 ▸ hpop'.1 ▸ ⟨hok, hcap⟩

/-- No method panics on a queue the channel reaches. -/
theorem Reachable.no_panic {pq : InFlightPqueue} (h : Reachable pq) :
    (∀ x, (∀ k, k < pq.st.len → pq.st.inFlightPQ k ≠ x) → pq.push x ≠ none) ∧
    (0 < pq.st.len → pq.pop ≠ none) ∧
    (∀ i : Nat, i < pq.st.len → pq.remove i ≠ none) ∧
    ∀ max, pq.peekAndShift max ≠ none := by
  obtain ⟨hq, hc⟩ := h.ok
  refine ⟨fun x hx => ?_, fun hn => ?_, fun i hi => ?_, fun max => ?_⟩
  · obtain ⟨pq', h', -⟩ := push_correct hq hc hx
    simp [h']
  · obtain ⟨pq', h', -⟩ := pop_correct hq hc hn
    simp [h']
  · obtain ⟨pq', h', -⟩ := remove_correct hq hi
    simp [h']
  · obtain ⟨pq', h', -⟩ := pq.peekAndShift_eq max hc
    simp [h']

end InFlightPqueue

end Nsq
