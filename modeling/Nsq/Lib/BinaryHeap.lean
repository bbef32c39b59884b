import Mathlib.Logic.Equiv.Basic
import Mathlib.Data.List.Perm.Basic
import Mathlib.Data.List.Nodup

/-!
# Binary min-heaps in an array

A binary heap kept in the cells `0 … n - 1` of an array (`Nat → α`) and ordered by an integer
`key`: the children of cell `p` are `2p + 1` and `2p + 2`, and the parent of `c` is `(c - 1) / 2`.
`siftUp` and `siftDown` are the two loops such a heap is built from, in the form that moves a cell
by exchanging it with its parent or with its least child.

`IsHeap` is the order: no cell has a greater key than its children. `HeapBut` is the order with
cell `i` left out: every parent and child pair away from `i` is ordered, and `i`'s parent is no
greater than `i`'s children. A heap is there after one cell's key changed (`heapBut_of_key`), after
a leaf was appended (`heapBut_update_last`), or after the last cell was moved into a removed one
(`HeapBut.swap_last`). From there `siftDown` restores the order when `i` is no smaller than its
parent (`siftDown_isHeap`), `siftUp` when `i` is no greater than its children (`siftUp_isHeap`),
and `siftDown` then `siftUp` always (`siftUp_siftDown_isHeap`).

Both loops only exchange cells below their bound, so the first `n` cells keep their contents up to
order (`perm_siftUp`, `perm_siftDown`) and the cells above are left as they were.
-/

namespace BinaryHeap

/-! ## Cells -/

/-- The parent of cell `c`; the root is its own parent. -/
def parent (c : Nat) : Nat := (c - 1) / 2

/-- `c` is a child of `p`: the root is nobody's child. -/
def IsChild (c p : Nat) : Prop := 0 < c ∧ parent c = p

theorem parent_lt {c : Nat} (h : 0 < c) : parent c < c := by
  unfold parent
  omega

theorem pos_of_parent_ne {c : Nat} (h : parent c ≠ c) : 0 < c :=
  Nat.pos_of_ne_zero fun h0 => h (by rw [h0]; rfl)

theorem IsChild.lt {c p : Nat} (h : IsChild c p) : p < c := h.2 ▸ parent_lt h.1

theorem IsChild.eq_or_eq {c p : Nat} (h : IsChild c p) : c = 2 * p + 1 ∨ c = 2 * p + 2 := by
  obtain ⟨h0, hp⟩ := h
  unfold parent at hp
  omega

theorem isChild_left (p : Nat) : IsChild (2 * p + 1) p := ⟨by omega, by unfold parent; omega⟩

theorem isChild_right (p : Nat) : IsChild (2 * p + 2) p := ⟨by omega, by unfold parent; omega⟩

/-- Cells `i` and `j` exchanged. -/
def swap {α : Type} (a : Nat → α) (i j : Nat) : Nat → α := a ∘ Equiv.swap i j

section Swap

variable {α : Type} (a : Nat → α) (i j : Nat)

@[simp] theorem swap_apply_left : swap a i j i = a j := by simp [swap]

@[simp] theorem swap_apply_right : swap a i j j = a i := by simp [swap]

theorem swap_apply_of_ne {k : Nat} (hi : k ≠ i) (hj : k ≠ j) : swap a i j k = a k := by
  simp [swap, Equiv.swap_apply_of_ne_of_ne hi hj]

omit a in
/-- An exchange of two cells below `n` keeps every cell below `n` below `n`. -/
theorem swap_lt {n k : Nat} (hi : i < n) (hj : j < n) (hk : k < n) : Equiv.swap i j k < n := by
  rw [Equiv.swap_apply_def]
  split_ifs <;> omega

@[simp] theorem swap_self : swap a i i = a := by
  funext k
  simp [swap]

end Swap

/-! ## The two loops -/

variable {α : Type} (key : α → Int)

/-- The child of `i` that `siftDown` compares `i` with: the right one when it exists and is no
greater than the left one, else the left one. -/
def minChild (a : Nat → α) (i n : Nat) : Nat :=
  if 2 * i + 2 < n ∧ key (a (2 * i + 2)) ≤ key (a (2 * i + 1)) then 2 * i + 2 else 2 * i + 1

/-- Move cell `j` up while its parent has a greater key. -/
def siftUp (a : Nat → α) (j : Nat) : Nat → α :=
  if parent j = j ∨ key (a (parent j)) ≤ key (a j) then a
  else siftUp (swap a (parent j) j) (parent j)
termination_by j
decreasing_by
  rename_i h
  exact parent_lt (pos_of_parent_ne fun e => h (Or.inl e))

/-- Move cell `i` down, among the first `n` cells, while its least child has a smaller key. -/
def siftDown (a : Nat → α) (i n : Nat) : Nat → α :=
  if n ≤ 2 * i + 1 then a
  else if key (a i) ≤ key (a (minChild key a i n)) then a
  else siftDown (swap a i (minChild key a i n)) (minChild key a i n) n
termination_by n - i
decreasing_by
  unfold minChild
  split <;> omega

theorem minChild_isChild (a : Nat → α) (i n : Nat) : IsChild (minChild key a i n) i := by
  unfold minChild
  split
  · exact isChild_right i
  · exact isChild_left i

theorem minChild_lt {a : Nat → α} {i n : Nat} (h : 2 * i + 1 < n) : minChild key a i n < n := by
  unfold minChild
  split <;> omega

/-- The compared child is no greater than any child of `i` below `n`. -/
theorem minChild_le {a : Nat → α} {i n c : Nat} (hc : IsChild c i) (hcn : c < n) :
    key (a (minChild key a i n)) ≤ key (a c) := by
  unfold minChild
  rcases hc.eq_or_eq with rfl | rfl
  · split
    · rename_i h
      exact h.2
    · exact Int.le_refl _
  · split
    · exact Int.le_refl _
    · rename_i h
      omega

/-! ## The order -/

/-- The first `n` cells are a min-heap. -/
def IsHeap (a : Nat → α) (n : Nat) : Prop :=
  ∀ c, 0 < c → c < n → key (a (parent c)) ≤ key (a c)

/-- The first `n` cells are a min-heap save for cell `i`. -/
structure HeapBut (a : Nat → α) (n i : Nat) : Prop where
  /-- every parent and child pair away from `i` is ordered -/
  away : ∀ c, 0 < c → c < n → c ≠ i → parent c ≠ i → key (a (parent c)) ≤ key (a c)
  /-- `i`'s parent is no greater than `i`'s children -/
  bridge : ∀ c, 0 < i → IsChild c i → c < n → key (a (parent i)) ≤ key (a c)

/-- The root has the least key. -/
theorem IsHeap.root_le {a : Nat → α} {n : Nat} (h : IsHeap key a n) :
    ∀ k, k < n → key (a 0) ≤ key (a k) := by
  intro k
  induction k using Nat.strongRecOn with
  | ind k ih =>
    intro hk
    rcases Nat.eq_zero_or_pos k with rfl | hpos
    · exact Int.le_refl _
    · have hp := parent_lt hpos
      exact Int.le_trans (ih _ hp (by omega)) (h k hpos hk)

theorem IsHeap.heapBut {a : Nat → α} {n : Nat} (h : IsHeap key a n) (i : Nat) :
    HeapBut key a n i where
  away c hc hcn _ _ := h c hc hcn
  bridge c hi hci hcn :=
    Int.le_trans (h i hi (Nat.lt_trans hci.lt hcn)) (hci.2 ▸ h c hci.1 hcn)

/-- A heap save at `i` is a heap when `i` sits between its parent and its children. -/
theorem HeapBut.isHeap {a : Nat → α} {n i : Nat} (h : HeapBut key a n i)
    (hup : 0 < i → key (a (parent i)) ≤ key (a i))
    (hdown : ∀ c, IsChild c i → c < n → key (a i) ≤ key (a c)) : IsHeap key a n := by
  intro c hc hcn
  by_cases hci : c = i
  · subst hci
    exact hup hc
  · by_cases hpi : parent c = i
    · rw [hpi]
      exact hdown c ⟨hc, hpi⟩ hcn
    · exact h.away c hc hcn hci hpi

/-- One step of `siftDown`: with `i` greater than its least child `j`, exchanging them leaves a
heap save at `j`. -/
theorem HeapBut.swap_down {a : Nat → α} {n i j : Nat} (h : HeapBut key a n i)
    (hj : IsChild j i) (hjn : j < n) (hmin : ∀ c, IsChild c i → c < n → key (a j) ≤ key (a c)) :
    HeapBut key (swap a i j) n j where
  away c hc hcn hcj hpj := by
    have hij := hj.lt
    by_cases hci : c = i
    · -- the least child now sits at `i`, under `i`'s parent
      subst hci
      have hp : parent c ≠ c := Nat.ne_of_lt (parent_lt hc)
      rw [swap_apply_left, swap_apply_of_ne _ _ _ hp (by omega)]
      exact h.bridge j hc hj hjn
    · by_cases hpi : parent c = i
      · -- a sibling of `j`, now under `j`'s old key
        rw [hpi, swap_apply_left, swap_apply_of_ne _ _ _ hci hcj]
        exact hmin c ⟨hc, hpi⟩ hcn
      · rw [swap_apply_of_ne _ _ _ hci hcj, swap_apply_of_ne _ _ _ hpi hpj]
        exact h.away c hc hcn hci hpi
  bridge c _ hc hcn := by
    have hij := hj.lt
    have hjc := hc.lt
    rw [hj.2, swap_apply_left, swap_apply_of_ne _ _ _ (by omega) (by omega)]
    have := h.away c hc.1 hcn (by omega) (by rw [hc.2]; omega)
    rwa [hc.2] at this

/-- One step of `siftUp`: with `i` smaller than its parent `p`, exchanging them leaves a heap
save at `p`. -/
theorem HeapBut.swap_up {a : Nat → α} {n i : Nat} (h : HeapBut key a n i) (hi0 : 0 < i)
    (hin : i < n) (hlt : key (a i) < key (a (parent i))) :
    HeapBut key (swap a (parent i) i) n (parent i) where
  away c hc hcn hcp hpp := by
    have hpi := parent_lt hi0
    by_cases hci : c = i
    · exact absurd (hci ▸ rfl) hpp
    · by_cases hpc : parent c = i
      · -- a child of `i`, now under `p`'s key
        rw [hpc, swap_apply_right, swap_apply_of_ne _ _ _ hcp hci]
        exact h.bridge c hi0 ⟨hc, hpc⟩ hcn
      · rw [swap_apply_of_ne _ _ _ hcp hci, swap_apply_of_ne _ _ _ hpp hpc]
        exact h.away c hc hcn hci hpc
  bridge c hp0 hc hcn := by
    have hpi := parent_lt hi0
    have hpp := parent_lt hp0
    -- `p`'s parent is no greater than `p`, which is no greater than its other children
    have hpar : key (a (parent (parent i))) ≤ key (a (parent i)) :=
      h.away (parent i) hp0 (by omega) (by omega) (by omega)
    rw [swap_apply_of_ne _ _ _ (by omega) (by omega)]
    by_cases hci : c = i
    · subst hci
      rw [swap_apply_right]
      exact hpar
    · rw [swap_apply_of_ne _ _ _ (by have := hc.lt; omega) hci]
      have := h.away c hc.1 hcn hci (by rw [hc.2]; omega)
      rw [hc.2] at this
      exact Int.le_trans hpar this

/-- `siftDown` from a heap save at `i`, with `i` no smaller than its parent, gives a heap. -/
theorem siftDown_isHeap {a : Nat → α} {n i : Nat} (h : HeapBut key a n i)
    (hup : 0 < i → key (a (parent i)) ≤ key (a i)) : IsHeap key (siftDown key a i n) n := by
  induction a, i using siftDown.induct key n with
  | case1 a i hleaf =>
    rw [siftDown, if_pos hleaf]
    exact h.isHeap key hup fun c hc hcn => absurd hcn (by have := hc.eq_or_eq; omega)
  | case2 a i hleaf hle =>
    rw [siftDown, if_neg hleaf, if_pos hle]
    exact h.isHeap key hup fun c hc hcn => Int.le_trans hle (minChild_le key hc hcn)
  | case3 a i hleaf hgt ih =>
    rw [siftDown, if_neg hleaf, if_neg hgt]
    have hj := minChild_isChild key a i n
    have hjn := minChild_lt key (a := a) (Nat.lt_of_not_le hleaf)
    refine ih (h.swap_down key hj hjn fun c hc hcn => minChild_le key hc hcn) fun _ => ?_
    rw [hj.2, swap_apply_left, swap_apply_right]
    omega

/-- `siftUp` from a heap save at `i`, with `i` no greater than its children, gives a heap. -/
theorem siftUp_isHeap {a : Nat → α} {n i : Nat} (h : HeapBut key a n i) (hin : i < n)
    (hdown : ∀ c, IsChild c i → c < n → key (a i) ≤ key (a c)) :
    IsHeap key (siftUp key a i) n := by
  induction a, i using siftUp.induct key with
  | case1 a i hstop =>
    rw [siftUp, if_pos hstop]
    refine h.isHeap key (fun hi0 => ?_) hdown
    rcases hstop with hroot | hle
    · exact absurd hroot (Nat.ne_of_lt (parent_lt hi0))
    · exact hle
  | case2 a i hgo ih =>
    rw [siftUp, if_neg hgo]
    have hi0 : 0 < i := pos_of_parent_ne fun e => hgo (Or.inl e)
    have hlt : key (a i) < key (a (parent i)) := by omega
    have hpi := parent_lt hi0
    refine ih (h.swap_up key hi0 hin hlt) (by omega) fun c hc hcn => ?_
    -- `i`'s key now sits at `p`: it is below `p`'s old key, and so below the other child
    rw [swap_apply_left]
    by_cases hci : c = i
    · rw [hci, swap_apply_right]
      exact Int.le_of_lt hlt
    · rw [swap_apply_of_ne _ _ _ (by have := hc.lt; omega) hci]
      have := h.away c hc.1 hcn hci (by rw [hc.2]; omega)
      rw [hc.2] at this
      omega

/-- On a heap `siftUp` does nothing. -/
theorem siftUp_of_isHeap {a : Nat → α} {n j : Nat} (h : IsHeap key a n) (hj : j < n) :
    siftUp key a j = a := by
  rw [siftUp, if_pos]
  rcases Nat.eq_zero_or_pos j with rfl | hj0
  · exact Or.inl rfl
  · exact Or.inr (h j hj0 hj)

/-- `siftDown` does nothing to a cell no greater than its children. -/
theorem siftDown_of_le {a : Nat → α} {n i : Nat}
    (hdown : ∀ c, IsChild c i → c < n → key (a i) ≤ key (a c)) : siftDown key a i n = a := by
  rw [siftDown]
  split_ifs with hleaf
  · rfl
  · rfl
  · rename_i hgt
    exact absurd (hdown _ (minChild_isChild key a i n) (minChild_lt key (Nat.lt_of_not_le hleaf)))
      hgt

/-- `siftDown` then `siftUp` turns a heap save at `i` into a heap, whichever way `i` is out of
order. -/
theorem siftUp_siftDown_isHeap {a : Nat → α} {n i : Nat} (h : HeapBut key a n i) (hin : i < n) :
    IsHeap key (siftUp key (siftDown key a i n) i) n := by
  by_cases hsmall : 0 < i ∧ key (a i) < key (a (parent i))
  · -- smaller than its parent, so smaller than its children: only `siftUp` moves it
    have hdown : ∀ c, IsChild c i → c < n → key (a i) ≤ key (a c) := fun c hc hcn =>
      Int.le_of_lt (Int.lt_of_lt_of_le hsmall.2 (h.bridge c hsmall.1 hc hcn))
    rw [siftDown_of_le key hdown]
    exact siftUp_isHeap key h hin hdown
  · have hheap := siftDown_isHeap key h fun hi0 => by
      have := not_and.mp hsmall hi0
      omega
    rw [siftUp_of_isHeap key hheap hin]
    exact hheap

/-! ## Where a heap is save at one cell -/

/-- A cell appended after a heap leaves a heap save at that cell. -/
theorem heapBut_update_last {a : Nat → α} {n : Nat} (h : IsHeap key a n) (x : α) :
    HeapBut key (Function.update a n x) (n + 1) n where
  away c hc hcn hcn' hpn := by
    have hp := parent_lt hc
    rw [Function.update_of_ne hcn', Function.update_of_ne hpn]
    exact h c hc (by omega)
  bridge c _ hc hcn := absurd hcn (by have := hc.lt; omega)

/-- A heap whose cell `i` changed its key is a heap save at `i`. -/
theorem heapBut_of_key {a : Nat → α} {n i : Nat} (h : IsHeap key a n) (key' : α → Int)
    (hkey : ∀ k, k < n → k ≠ i → key' (a k) = key (a k)) : HeapBut key' a n i where
  away c hc hcn hci hpi := by
    rw [hkey c hcn hci, hkey (parent c) (Nat.lt_trans (parent_lt hc) hcn) hpi]
    exact h c hc hcn
  bridge c hi hc hcn := by
    have hpi := parent_lt hi
    have hic := hc.lt
    rw [hkey c hcn (by omega), hkey (parent i) (by omega) (by omega)]
    exact Int.le_trans (h i hi (by omega)) (hc.2 ▸ h c hc.1 hcn)

/-- Moving the last cell into cell `i` and dropping the last leaves a heap save at `i`. -/
theorem HeapBut.swap_last {a : Nat → α} {n i : Nat} (h : HeapBut key a n i) (hin : i < n) :
    HeapBut key (swap a i (n - 1)) (n - 1) i where
  away c hc hcn hci hpi := by
    have hp := parent_lt hc
    rw [swap_apply_of_ne _ _ _ hci (by omega), swap_apply_of_ne _ _ _ hpi (by omega)]
    exact h.away c hc (by omega) hci hpi
  bridge c hi hc hcn := by
    have hpi := parent_lt hi
    have hic := hc.lt
    rw [swap_apply_of_ne _ _ _ (by omega) (by omega), swap_apply_of_ne _ _ _ (by omega) (by omega)]
    exact h.bridge c hi hc (by omega)

/-- A heap save at a cell at or past the end is a heap. -/
theorem HeapBut.isHeap_of_le {a : Nat → α} {n i : Nat} (h : HeapBut key a n i) (hni : n ≤ i) :
    IsHeap key a n := fun c hc hcn =>
  h.away c hc hcn (by omega) (by have := parent_lt hc; omega)

/-! ## Contents -/

/-- The first `n` cells, in order. -/
def elems (a : Nat → α) (n : Nat) : List α := (List.range n).map a

omit key in
theorem elems_succ (a : Nat → α) (n : Nat) : elems a (n + 1) = elems a n ++ [a n] := by
  simp [elems, List.range_succ]

omit key in
/-- Writing a cell at or past `n` leaves the first `n` cells. -/
theorem elems_update_of_le (a : Nat → α) {n m : Nat} (hm : n ≤ m) (x : α) :
    elems (Function.update a m x) n = elems a n := by
  unfold elems
  refine List.map_congr_left fun k hk => ?_
  have hkm : k ≠ m := by
    have := List.mem_range.mp hk
    omega
  exact Function.update_of_ne hkm x a

omit key in
/-- Exchanging two of the first `n` cells reorders them. -/
theorem perm_swap (a : Nat → α) {i j n : Nat} (hi : i < n) (hj : j < n) :
    (elems (swap a i j) n).Perm (elems a n) := by
  have hperm : ((List.range n).map (Equiv.swap i j)).Perm (List.range n) := by
    refine (List.perm_ext_iff_of_nodup (List.Nodup.map (Equiv.injective _) List.nodup_range)
      List.nodup_range).mpr fun k => ?_
    simp only [List.mem_map, List.mem_range]
    constructor
    · rintro ⟨m, hm, rfl⟩
      rw [Equiv.swap_apply_def]
      split_ifs <;> omega
    · intro hk
      refine ⟨Equiv.swap i j k, ?_, Equiv.swap_apply_self _ _ _⟩
      rw [Equiv.swap_apply_def]
      split_ifs <;> omega
  unfold elems swap
  rw [← List.map_map]
  exact hperm.map a

theorem perm_siftUp (a : Nat → α) {j n : Nat} (hj : j < n) :
    (elems (siftUp key a j) n).Perm (elems a n) := by
  induction a, j using siftUp.induct key with
  | case1 a j hstop => rw [siftUp, if_pos hstop]
  | case2 a j hgo ih =>
    rw [siftUp, if_neg hgo]
    have hj0 : 0 < j := pos_of_parent_ne fun e => hgo (Or.inl e)
    have hp := parent_lt hj0
    exact (ih (by omega)).trans (perm_swap a (by omega) hj)

theorem perm_siftDown (a : Nat → α) (i n : Nat) :
    (elems (siftDown key a i n) n).Perm (elems a n) := by
  induction a, i using siftDown.induct key n with
  | case1 a i hleaf => rw [siftDown, if_pos hleaf]
  | case2 a i hleaf hle => rw [siftDown, if_neg hleaf, if_pos hle]
  | case3 a i hleaf hgt ih =>
    rw [siftDown, if_neg hleaf, if_neg hgt]
    exact ih.trans (perm_swap a (by omega) (minChild_lt key (Nat.lt_of_not_le hleaf)))

/-- `siftUp` from `j` leaves the cells above `j` alone. -/
theorem siftUp_apply_of_lt (a : Nat → α) {j k : Nat} (hk : j < k) : siftUp key a j k = a k := by
  induction a, j using siftUp.induct key with
  | case1 a j hstop => rw [siftUp, if_pos hstop]
  | case2 a j hgo ih =>
    have hp := parent_lt (pos_of_parent_ne fun e => hgo (Or.inl e))
    rw [siftUp, if_neg hgo, ih (by omega)]
    exact swap_apply_of_ne a _ _ (by omega) (Nat.ne_of_gt hk)

/-- `siftDown` below `n` leaves the cells from `n` on alone. -/
theorem siftDown_apply_of_le (a : Nat → α) (i : Nat) {n k : Nat} (hk : n ≤ k) :
    siftDown key a i n k = a k := by
  induction a, i using siftDown.induct key n with
  | case1 a i hleaf => rw [siftDown, if_pos hleaf]
  | case2 a i hleaf hle => rw [siftDown, if_neg hleaf, if_pos hle]
  | case3 a i hleaf hgt ih =>
    rw [siftDown, if_neg hleaf, if_neg hgt, ih]
    exact swap_apply_of_ne a _ _ (by omega)
      (Nat.ne_of_gt (Nat.lt_of_lt_of_le (minChild_lt key (Nat.lt_of_not_le hleaf)) hk))

end BinaryHeap
