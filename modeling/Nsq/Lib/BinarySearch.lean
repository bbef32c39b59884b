/-!
# Binary search over an interval of integers

A search of the closed interval `[lo, hi]` probes `lo + (hi - lo) / 2`, with the truncating
division of Go and C. The probe lies in the interval, and below `hi` when the interval holds two
points or more (`midpoint_lt`). A search whose interval brackets its target and that moves past
the probe on the target's side keeps it bracketed, on a strictly smaller interval
(`Brackets.above`, `Brackets.below`); an interval of one point is the target
(`Brackets.eq_of_not_lt`).
-/

namespace BinarySearch

/-- The probe of a search of `[lo, hi]`: `lo + (hi - lo) / 2`. -/
def midpoint (lo hi : Int) : Int := lo + (hi - lo).tdiv 2

variable {lo hi t : Int}

theorem midpoint_eq (h : lo ≤ hi) : midpoint lo hi = lo + (hi - lo) / 2 := by
  rw [midpoint, Int.tdiv_eq_ediv_of_nonneg (by omega)]

theorem le_midpoint (h : lo ≤ hi) : lo ≤ midpoint lo hi := by
  rw [midpoint_eq h]
  omega

theorem midpoint_le (h : lo ≤ hi) : midpoint lo hi ≤ hi := by
  rw [midpoint_eq h]
  omega

theorem midpoint_lt (h : lo < hi) : midpoint lo hi < hi := by
  rw [midpoint_eq (Int.le_of_lt h)]
  omega

/-- `[lo, hi]` holds the target `t`. -/
structure Brackets (lo hi t : Int) : Prop where
  lo_le : lo ≤ t
  le_hi : t ≤ hi

theorem Brackets.le (h : Brackets lo hi t) : lo ≤ hi := Int.le_trans h.lo_le h.le_hi

/-- Past a probe below the target, the interval above the probe brackets it, and is smaller. -/
theorem Brackets.above (h : Brackets lo hi t) (ht : midpoint lo hi < t) :
    Brackets (midpoint lo hi + 1) hi t ∧ hi - (midpoint lo hi + 1) < hi - lo := by
  have := le_midpoint h.le
  exact ⟨⟨by omega, h.le_hi⟩, by omega⟩

/-- Before a probe above the target, the interval below the probe brackets it, and is
smaller. -/
theorem Brackets.below (h : Brackets lo hi t) (ht : t < midpoint lo hi) :
    Brackets lo (midpoint lo hi - 1) t ∧ midpoint lo hi - 1 - lo < hi - lo := by
  have := midpoint_le h.le
  exact ⟨⟨h.lo_le, by omega⟩, by omega⟩

/-- An interval of one point brackets only that point. -/
theorem Brackets.eq_of_not_lt (h : Brackets lo hi t) (hn : ¬ lo < hi) : lo = t ∧ hi = t := by
  have := h.lo_le
  have := h.le_hi
  omega

end BinarySearch
