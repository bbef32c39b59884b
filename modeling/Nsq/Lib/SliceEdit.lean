import Mathlib.Data.List.Perm.Basic
import Mathlib.Data.List.Nodup

/-!
# Two edits of a Go slice

Go code edits a slice in two ways that recur. It rebuilds the slice by a loop that keeps the
elements it does not drop and notes whether it dropped any (`cleanLoop`), and it deletes one
element by moving the last into its place and cutting the last off (`swapRemove`). The first is a
filter and an `any`. The second permutes the list without that element: it keeps the set of the
other elements, and a list without duplicates stays without them.
-/

namespace SliceEdit

variable {α : Type}

/-- The loop
`for _, x := range xs { if drop(x) { removed = true } else { cleaned = append(cleaned, x) } }`
from `cleaned = [], removed = false`. -/
def cleanLoop (drop : α → Bool) (xs : List α) : List α × Bool :=
  xs.foldl (fun acc x => if drop x then (acc.1, true) else (acc.1 ++ [x], acc.2)) ([], false)

/-- The loop from any accumulator appends the kept elements and records whether any was
dropped. -/
theorem foldl_clean (drop : α → Bool) (xs cleaned : List α) (removed : Bool) :
    xs.foldl (fun acc x => if drop x then (acc.1, true) else (acc.1 ++ [x], acc.2))
        (cleaned, removed) =
      (cleaned ++ xs.filter (fun x => !drop x), removed || xs.any drop) := by
  induction xs generalizing cleaned removed with
  | nil => simp
  | cons x xs ih =>
    rw [List.foldl_cons]
    by_cases hx : drop x = true
    · rw [if_pos hx, ih]
      simp [hx]
    · rw [if_neg hx, ih]
      simp [hx]

theorem cleanLoop_eq (drop : α → Bool) (xs : List α) :
    cleanLoop drop xs = (xs.filter (fun x => !drop x), xs.any drop) := by
  rw [cleanLoop, foldl_clean, List.nil_append, Bool.false_or]

/-- `xs[i] = xs[len(xs)-1]; xs = xs[:len(xs)-1]` -/
def swapRemove [Inhabited α] (xs : List α) (i : Nat) : List α :=
  (xs.set i xs[xs.length - 1]!).take (xs.length - 1)

/-- Moving the last element into place `i` and cutting the last off permutes the list without
its `i`-th element. -/
theorem swapRemove_perm [Inhabited α] {xs : List α} {i : Nat} (h : i < xs.length) :
    (swapRemove xs i).Perm (xs.eraseIdx i) := by
  obtain ⟨ys, z, rfl⟩ : ∃ ys z, xs = ys ++ [z] := by
    rcases List.eq_nil_or_concat xs with hnil | ⟨ys, z, hys⟩
    · simp [hnil] at h
    · exact ⟨ys, z, by rw [hys, List.concat_eq_append]⟩
  have hlast : (ys ++ [z])[(ys ++ [z]).length - 1]! = z := by simp
  rw [swapRemove, hlast, List.length_append, List.length_singleton, Nat.add_sub_cancel]
  rw [List.length_append, List.length_singleton] at h
  rcases Nat.lt_succ_iff_lt_or_eq.mp h with hi | rfl
  · -- the removed element is not the last: the last takes its place
    rw [List.set_append_left _ _ hi, List.take_left' (List.length_set ..),
      List.eraseIdx_append_of_lt_length hi, List.set_eq_take_append_cons_drop, if_pos hi,
      List.eraseIdx_eq_take_drop_succ, List.append_assoc]
    exact List.Perm.append_left _ (List.perm_append_singleton _ _).symm
  · rw [List.set_append_right _ _ (Nat.le_refl _), Nat.sub_self, List.set_cons_zero,
      List.take_left, List.eraseIdx_append_of_length_le (Nat.le_refl _), Nat.sub_self,
      List.eraseIdx_cons_zero, List.append_nil]

theorem nodup_swapRemove [Inhabited α] {xs : List α} {i : Nat} (hnd : xs.Nodup)
    (h : i < xs.length) : (swapRemove xs i).Nodup :=
  (swapRemove_perm h).nodup_iff.mpr (hnd.sublist (List.eraseIdx_sublist _ _))

/-- Without duplicates, what is left is every element but the `i`-th. -/
theorem mem_swapRemove [Inhabited α] [DecidableEq α] {xs : List α} {i : Nat} (hnd : xs.Nodup)
    (h : i < xs.length) {a : α} : a ∈ swapRemove xs i ↔ a ≠ xs[i] ∧ a ∈ xs := by
  rw [(swapRemove_perm h).mem_iff, ← hnd.erase_getElem i h]
  exact hnd.mem_erase_iff

end SliceEdit
