import Mathlib.Data.List.Infix
import Mathlib.Data.List.TakeWhile

/-!
# Lists sorted by an integer key

An ordered map from integer keys, as a skip list implements it, seen as the list of its values in
key order. `key` reads a value's key. The operations are the ones a skip list offers: `seek k`
is the iterator from the first key at or above `k` (as the list of what it visits), `before k`
is what lies behind it, so that `Previous` from `seek k` lands on the last element of `before k`,
`set` puts a value under its key (replacing the one already there), and `delete` removes the
value under a key.

The lemmas are the ones a caller needs to reason by membership instead of by position: what
`set` and `delete` hold (`mem_set`, `mem_delete`), that they keep a list sorted, and more
generally that they keep any pairwise relation that orders keys (`pairwise_set`), and that on a
sorted list `before`, `seek` and `takeWhile` select by key (`takeWhile_eq_filter`).

Code that uses a skip list takes it as a parameter, `SkipList`: its operations on the list of
its values in key order, with what each is documented to do on a sorted list as named
hypotheses. Those determine the operations there: they answer what the functions above answer
(`SkipList.before_eq`, `SkipList.seek_eq`, `SkipList.set_eq`, `SkipList.delete_eq`), so the lemmas
above serve every implementation. `skipList` is the implementation by those functions.
-/

namespace SortedList

variable {α : Type} (key : α → Int)

/-- The values with key at or above `k`: what an iterator from `Seek(k)` visits. -/
def seek (l : List α) (k : Int) : List α := l.dropWhile fun a => key a < k

/-- The values with key below `k`. -/
def before (l : List α) (k : Int) : List α := l.takeWhile fun a => key a < k

/-- `Set`: the value goes under its key, replacing what was there. -/
def set : List α → α → List α
  | [], a => [a]
  | b :: l, a =>
    if key a < key b then a :: b :: l
    else if key a = key b then a :: l
    else b :: set l a

/-- `Delete`: the value under `k`, if any, is removed. -/
def delete (l : List α) (k : Int) : List α := l.filter fun a => key a ≠ k

/-- Sorted by strictly increasing key. -/
abbrev Sorted (l : List α) : Prop := l.Pairwise fun a b => key a < key b

theorem before_append_seek (l : List α) (k : Int) : before key l k ++ seek key l k = l :=
  List.takeWhile_append_dropWhile

theorem mem_of_mem_before {l : List α} {k : Int} {a : α} (h : a ∈ before key l k) : a ∈ l :=
  (List.takeWhile_sublist _).subset h

theorem mem_of_mem_seek {l : List α} {k : Int} {a : α} (h : a ∈ seek key l k) : a ∈ l :=
  (List.dropWhile_suffix _).subset h

theorem key_lt_of_mem_before {l : List α} {k : Int} {a : α} (h : a ∈ before key l k) :
    key a < k := by
  simpa using List.mem_takeWhile_imp h

theorem le_key_of_mem_seek {l : List α} (hs : Sorted key l) {k : Int} {a : α}
    (h : a ∈ seek key l k) : k ≤ key a := by
  induction l with
  | nil => simp [seek] at h
  | cons b l ih =>
    unfold seek at h
    rw [List.dropWhile_cons] at h
    split at h
    · exact ih hs.of_cons h
    · -- the first kept value has key at least `k`, and the rest lie above it
      rename_i hb
      simp only [decide_eq_true_eq] at hb
      rcases List.mem_cons.mp h with rfl | ha
      · omega
      · have := List.rel_of_pairwise_cons hs ha
        omega

/-- A filter of the list is the filters of the two sides of a seek position, where on each side
the test may be replaced by one that agrees with it there. -/
theorem filter_before_seek (l : List α) (k : Int) {p p₁ p₂ : α → Bool}
    (h₁ : ∀ a ∈ before key l k, p a = p₁ a) (h₂ : ∀ a ∈ seek key l k, p a = p₂ a) :
    l.filter p = (before key l k).filter p₁ ++ (seek key l k).filter p₂ := by
  conv_lhs => rw [← before_append_seek key l k]
  rw [List.filter_append, List.filter_congr h₁, List.filter_congr h₂]

/-- On a sorted list, taking while the key is below `k` is filtering by it. -/
theorem takeWhile_eq_filter {l : List α} (hs : Sorted key l) (k : Int) :
    l.takeWhile (fun a => key a < k) = l.filter (fun a => key a < k) := by
  induction l with
  | nil => rfl
  | cons b l ih =>
    by_cases hb : key b < k
    · simp [hb, ih hs.of_cons]
    · -- everything after `b` has a larger key, so the filter keeps nothing either
      have hnone : l.filter (fun a => key a < k) = [] := by
        rw [List.filter_eq_nil_iff]
        intro a ha
        have := List.rel_of_pairwise_cons hs ha
        simp only [decide_eq_true_eq]
        omega
      simp [hb, hnone]

/-- What `set` holds, on a sorted list: the new value, and the old values under other keys. -/
theorem mem_set {l : List α} (hs : Sorted key l) {a x : α} :
    x ∈ set key l a ↔ x = a ∨ (x ∈ l ∧ key x ≠ key a) := by
  induction l with
  | nil => simp [set]
  | cons b l ih =>
    have hb : ∀ y ∈ l, key b < key y := fun y hy => List.rel_of_pairwise_cons hs hy
    unfold set
    split_ifs with h₁ h₂
    · -- `a` goes in front: every old key lies above it
      have hne : ∀ y ∈ b :: l, key y ≠ key a := by
        intro y hy
        rcases List.mem_cons.mp hy with rfl | hy
        · omega
        · have := hb y hy
          omega
      constructor
      · intro hx
        rcases List.mem_cons.mp hx with rfl | hx
        · exact Or.inl rfl
        · exact Or.inr ⟨hx, hne x hx⟩
      · rintro (rfl | ⟨hx, -⟩)
        · exact List.mem_cons_self ..
        · exact List.mem_cons_of_mem _ hx
    · -- `a` replaces `b`; the rest lies above that key
      constructor
      · intro hx
        rcases List.mem_cons.mp hx with rfl | hx
        · exact Or.inl rfl
        · have := hb x hx
          exact Or.inr ⟨List.mem_cons_of_mem _ hx, by omega⟩
      · rintro (rfl | ⟨hx, hk⟩)
        · exact List.mem_cons_self ..
        · rcases List.mem_cons.mp hx with rfl | hx
          · exact absurd h₂.symm hk
          · exact List.mem_cons_of_mem _ hx
    · -- `b` stays in front and `a` goes further in
      rw [List.mem_cons, ih hs.of_cons]
      constructor
      · rintro (rfl | rfl | ⟨hx, hk⟩)
        · exact Or.inr ⟨List.mem_cons_self .., by omega⟩
        · exact Or.inl rfl
        · exact Or.inr ⟨List.mem_cons_of_mem _ hx, hk⟩
      · rintro (rfl | ⟨hx, hk⟩)
        · exact Or.inr (Or.inl rfl)
        · rcases List.mem_cons.mp hx with rfl | hx
          · exact Or.inl rfl
          · exact Or.inr (Or.inr ⟨hx, hk⟩)

/-- A value whose key lies above every key goes at the end. -/
theorem set_of_lt {l : List α} {a : α} (h : ∀ x ∈ l, key x < key a) : set key l a = l ++ [a] := by
  induction l with
  | nil => rfl
  | cons b l ih =>
    have hb := h b List.mem_cons_self
    rw [set, if_neg (Int.not_lt.mpr (Int.le_of_lt hb)), if_neg (Int.ne_of_gt hb),
      ih fun x hx => h x (List.mem_cons_of_mem _ hx), List.cons_append]

/-- `set` keeps any pairwise relation that orders keys, when the new value stands in that
relation to every old value under another key, on the side its key puts it. -/
theorem pairwise_set {R : α → α → Prop} (hR : ∀ x y, R x y → key x < key y) {l : List α}
    (hl : l.Pairwise R) {a : α}
    (ha : ∀ x ∈ l, (key x < key a → R x a) ∧ (key a < key x → R a x)) :
    (set key l a).Pairwise R := by
  induction l with
  | nil => simp [set]
  | cons b l ih =>
    have hb : ∀ y ∈ l, R b y := fun y hy => List.rel_of_pairwise_cons hl hy
    unfold set
    split_ifs with h₁ h₂
    · refine List.Pairwise.cons (fun y hy => ?_) hl
      rcases List.mem_cons.mp hy with rfl | hy
      · exact (ha y (List.mem_cons_self ..)).2 h₁
      · have := hR _ _ (hb y hy)
        exact (ha y (List.mem_cons_of_mem _ hy)).2 (by omega)
    · refine List.Pairwise.cons (fun y hy => ?_) hl.of_cons
      have := hR _ _ (hb y hy)
      exact (ha y (List.mem_cons_of_mem _ hy)).2 (by omega)
    · have hs : Sorted key l := hl.of_cons.imp (hR _ _)
      refine List.Pairwise.cons (fun y hy => ?_)
        (ih hl.of_cons fun x hx => ha x (List.mem_cons_of_mem _ hx))
      rcases (mem_set key hs).mp hy with rfl | ⟨hy, -⟩
      · exact (ha b (List.mem_cons_self ..)).1 (by omega)
      · exact hb y hy

theorem mem_delete {l : List α} {k : Int} {x : α} : x ∈ delete key l k ↔ x ∈ l ∧ key x ≠ k := by
  simp [delete]

/-- Deleting the keys of `vs` one by one removes every value whose key is one of them. -/
theorem foldl_delete (vs : List α) (l : List α) :
    vs.foldl (fun s v => delete key s (key v)) l = l.filter fun x => key x ∉ vs.map key := by
  induction vs generalizing l with
  | nil => simp
  | cons v vs ih =>
    rw [List.foldl_cons, ih, delete, List.filter_filter]
    congr 1
    funext x
    simp only [List.map_cons, List.mem_cons]
    by_cases h₁ : key x = key v <;> by_cases h₂ : key x ∈ vs.map key <;> simp [h₁, h₂]

/-- On a sorted list a key names one value. -/
theorem eq_of_key_eq {l : List α} (hs : Sorted key l) {x y : α} (hx : x ∈ l) (hy : y ∈ l)
    (h : key x = key y) : x = y := by
  induction l with
  | nil => simp at hx
  | cons b l ih =>
    have hb : ∀ z ∈ l, key b < key z := fun z hz => List.rel_of_pairwise_cons hs hz
    rcases List.mem_cons.mp hx with hxb | hx
    · rcases List.mem_cons.mp hy with hyb | hy
      · rw [hxb, hyb]
      · have := hb y hy
        rw [hxb] at h
        omega
    · rcases List.mem_cons.mp hy with hyb | hy
      · have := hb x hx
        rw [hyb] at h
        omega
      · exact ih hs.of_cons hx hy

/-- On a sorted list, a value's key is among the keys of a filter exactly when the value passes
it. -/
theorem key_mem_map_filter {l : List α} (hs : Sorted key l) (p : α → Bool) {x : α} (hx : x ∈ l) :
    key x ∈ (l.filter p).map key ↔ p x = true := by
  constructor
  · intro h
    obtain ⟨y, hy, hyx⟩ := List.mem_map.mp h
    rw [List.mem_filter] at hy
    rw [← eq_of_key_eq key hs hy.1 hx hyx]
    exact hy.2
  · intro h
    exact List.mem_map_of_mem (List.mem_filter.mpr ⟨hx, h⟩)

/-- A sorted list is determined by what it holds. -/
theorem eq_of_mem_iff {l₁ l₂ : List α} (h₁ : Sorted key l₁) (h₂ : Sorted key l₂)
    (h : ∀ x, x ∈ l₁ ↔ x ∈ l₂) : l₁ = l₂ := by
  -- a sorted list holds each value once, so the two are permutations of each other
  have hnodup : ∀ {l : List α}, Sorted key l → l.Nodup := fun hs =>
    hs.imp fun hab heq => by
      subst heq
      exact Int.lt_irrefl _ hab
  have hperm := (List.perm_ext_iff_of_nodup (hnodup h₁) (hnodup h₂)).mpr h
  exact hperm.eq_of_pairwise (fun _ _ _ _ hab hba => absurd (Int.lt_trans hab hba) (Int.lt_irrefl _))
    h₁ h₂

end SortedList

/-- The operations of an ordered map from integer keys, as a skip list offers them, over the list
of its values in key order, and what each is documented to do on a sorted list. -/
class SkipList (α : Type) (key : outParam (α → Int)) where
  /-- What an iterator from `Seek(k)` visits by `Next`. -/
  seek : List α → Int → List α
  /-- What lies behind the position of `Seek(k)`, in key order: `Previous` walks it back. -/
  before : List α → Int → List α
  /-- `Set` -/
  set : List α → α → List α
  /-- `Delete` -/
  delete : List α → Int → List α
  /-- `Seek(k)` stops at the first key at or above `k`: behind it lie the keys below `k`, from
  it on the others. -/
  before_append_seek : ∀ l k, SortedList.Sorted key l → before l k ++ seek l k = l
  key_lt_of_mem_before : ∀ l k a, SortedList.Sorted key l → a ∈ before l k → key a < k
  le_key_of_mem_seek : ∀ l k a, SortedList.Sorted key l → a ∈ seek l k → k ≤ key a
  /-- `Set` puts the value under its key, in key order, in place of the value there. -/
  sorted_set : ∀ l a, SortedList.Sorted key l → SortedList.Sorted key (set l a)
  mem_set : ∀ l a x, SortedList.Sorted key l → (x ∈ set l a ↔ x = a ∨ (x ∈ l ∧ key x ≠ key a))
  /-- `Delete` removes the value under its key, if there is one. -/
  sorted_delete : ∀ l k, SortedList.Sorted key l → SortedList.Sorted key (delete l k)
  mem_delete : ∀ l k x, SortedList.Sorted key l → (x ∈ delete l k ↔ x ∈ l ∧ key x ≠ k)

namespace SkipList

variable {α : Type} {key : α → Int} [SkipList α key] {l : List α}

/-- Behind `Seek(k)` lie the values below `k`. -/
theorem before_eq (hs : SortedList.Sorted key l) (k : Int) :
    before l k = SortedList.before key l k := by
  -- the split `before ++ seek` is where the keys reach `k`, which is where `takeWhile` stops
  have hB : ∀ a ∈ before l k, decide (key a < k) = true := fun a ha =>
    decide_eq_true (key_lt_of_mem_before l k a hs ha)
  have hS : (seek l k).takeWhile (fun a => decide (key a < k)) = [] := by
    cases hseek : seek l k with
    | nil => rfl
    | cons a rest =>
      have := le_key_of_mem_seek l k a hs (hseek ▸ List.mem_cons_self)
      simp [Int.not_lt.mpr this]
  calc before l k = (before l k ++ seek l k).takeWhile fun a => decide (key a < k) := by
        rw [List.takeWhile_append_of_pos hB, hS, List.append_nil]
    _ = SortedList.before key l k := by rw [before_append_seek l k hs]; rfl

/-- From `Seek(k)` on lie the values at or above `k`. -/
theorem seek_eq (hs : SortedList.Sorted key l) (k : Int) :
    seek l k = SortedList.seek key l k := by
  have h := (before_append_seek l k hs).trans (SortedList.before_append_seek key l k).symm
  rw [before_eq hs] at h
  exact List.append_cancel_left h

/-- `Set` on a sorted list is `SortedList.set`. -/
theorem set_eq (hs : SortedList.Sorted key l) (a : α) : set l a = SortedList.set key l a :=
  SortedList.eq_of_mem_iff key (sorted_set l a hs)
    (SortedList.pairwise_set key (fun _ _ h => h) hs fun _ _ => ⟨id, id⟩)
    fun x => (mem_set l a x hs).trans (SortedList.mem_set key hs).symm

/-- `Delete` on a sorted list is `SortedList.delete`. -/
theorem delete_eq (hs : SortedList.Sorted key l) (k : Int) :
    delete l k = SortedList.delete key l k :=
  SortedList.eq_of_mem_iff key (sorted_delete l k hs) (hs.filter _)
    fun x => (mem_delete l k x hs).trans (SortedList.mem_delete key).symm

/-- Deleting the keys of `vs` one by one from a sorted list removes every value whose key is one
of them. -/
theorem foldl_delete (hs : SortedList.Sorted key l) (vs : List α) :
    vs.foldl (fun s v => delete s (key v)) l = l.filter fun x => key x ∉ vs.map key := by
  rw [← SortedList.foldl_delete key vs l]
  -- each step deletes from a sorted list, where the two deletes agree
  induction vs generalizing l with
  | nil => rfl
  | cons v vs ih =>
    rw [List.foldl_cons, List.foldl_cons, delete_eq hs]
    exact ih (hs.filter _)

end SkipList

namespace SortedList

variable {α : Type}

/-- The skip list whose operations are the functions of `SortedList`. -/
@[reducible] def skipList (key : α → Int) : SkipList α key where
  seek := seek key
  before := before key
  set := set key
  delete := delete key
  before_append_seek l k _ := before_append_seek key l k
  key_lt_of_mem_before _ _ _ _ h := key_lt_of_mem_before key h
  le_key_of_mem_seek _ _ _ hs h := le_key_of_mem_seek key hs h
  sorted_set _ _ hs := pairwise_set key (fun _ _ h => h) hs fun _ _ => ⟨id, id⟩
  mem_set _ _ _ hs := mem_set key hs
  sorted_delete _ _ hs := hs.filter _
  mem_delete _ _ _ _ := mem_delete key

end SortedList
