import Mathlib.Logic.Basic

/-!
# Positions in a segmented stream

A stream cut into consecutive segments numbered from `0`, of sizes `size 0, size 1, …`. A
position is a segment and an offset inside it, and its flat offset is the sizes of the segments
before it (`start`) plus the offset. A log kept in numbered files addresses its bytes both ways:
by flat offset, and by file and position.

Where every segment strictly between two positions holds something, a flat offset names one
position, or two at a boundary: the end of one segment and the start of the next
(`eq_of_start_add_eq`). Walking back or forward one segment at a time moves the flat offset by
exactly the segment's size (`start_succ`), which is what a walk over files relies on.
-/

namespace Segments

variable (size : Nat → Nat)

/-- The flat offset where segment `n` starts. -/
def start : Nat → Nat
  | 0 => 0
  | n + 1 => start n + size n

@[simp] theorem start_zero : start size 0 = 0 := rfl

theorem start_succ (n : Nat) : start size (n + 1) = start size n + size n := rfl

variable {size}

/-- Segments further on start no earlier. -/
theorem start_le_start {a b : Nat} (h : a ≤ b) : start size a ≤ start size b := by
  induction b with
  | zero =>
    obtain rfl := Nat.le_zero.mp h
    exact Nat.le_refl _
  | succ b ih =>
    rcases Nat.lt_or_ge a (b + 1) with hlt | hge
    · have := ih (by omega)
      rw [start_succ]
      omega
    · obtain rfl := Nat.le_antisymm h hge
      exact Nat.le_refl _

/-- A segment ends no later than the start of every segment after it. -/
theorem start_add_le {a b : Nat} (h : a < b) : start size a + size a ≤ start size b := by
  rw [← start_succ]
  exact start_le_start h

/-- Only the segments before `n` decide where `n` starts. -/
theorem start_congr {size' : Nat → Nat} {n : Nat} (h : ∀ g, g < n → size g = size' g) :
    start size n = start size' n := by
  induction n with
  | zero => rfl
  | succ n ih =>
    rw [start_succ, start_succ, ih fun g hg => h g (by omega), h n (by omega)]

/-- Two positions with one flat offset, the second strictly inside its segment, and every segment
between them holding something: they are one position, or the first is the end of the segment
just before the second. -/
theorem eq_of_start_add_eq {a b x y : Nat} (hx : x ≤ size a) (hy : y < size b)
    (hne : ∀ g, a < g → g < b → 0 < size g) (h : start size a + x = start size b + y) :
    (a = b ∧ x = y) ∨ (b = a + 1 ∧ x = size a ∧ y = 0) := by
  rcases Nat.lt_trichotomy a b with hab | rfl | hba
  · rcases Nat.lt_or_ge (a + 1) b with hb | hb
    · -- a nonempty segment lies between them, so the second starts past the first's end
      have h₁ : start size (a + 1) + size (a + 1) ≤ start size b := start_add_le hb
      have h₂ := hne (a + 1) (by omega) hb
      rw [start_succ] at h₁
      omega
    · have hb' : b = a + 1 := by omega
      subst hb'
      rw [start_succ] at h
      omega
  · omega
  · have : start size b + size b ≤ start size a := start_add_le hba
    omega

end Segments
