import Nsq.Channel.Confirm
import Nsq.Lib.RangeChain
import Mathlib.Data.Int.Order.Basic

/-!
# What `Query`, `AddOrMerge` and `DeleteLower` do to well-formed intervals

An `IntervalSkipList` is well-formed (`WellFormed`) when every interval starts at or below its end
and ends before the next one starts: a chain of ranges in the sense of `RangeChain`. On such a
list the iterator walk of `Query` is a filter of the two sides of its seek position
(`query_eq_walk`): it finds exactly the intervals that meet the query interval or touch it at an
end (`query_eq_filter`), or, with `excludeBoard`, those that share more than an end point with
it, when the query interval is not a point (`query_exclude_eq_overlaps`). It only looks one
interval behind the seek position, and the gaps are why that is enough. A point query with
`excludeBoard` seeks one past the point and also finds an interval that starts at the point
(`query_point_mem`), which the interval tree's `Query` does not.

From that, `AddOrMerge` replaces the intervals touching the new one by one merged interval and
keeps the rest (`mem_addOrMerge`), the list stays well-formed (`wellFormed_addOrMerge`), and it
covers what it covered and the new interval (`covered_addOrMerge`); `DeleteLower` keeps exactly
the intervals that end above its bound and counts the others (`deleteLower_spec`); and adding the
intervals of a well-formed list in order rebuilds it (`updateConfirmedInterval_toIntervalList`).

`confirmedMsgs` holds nonempty intervals only (`Gapped`), a special case.
-/

namespace Nsq

namespace QueueInterval

/-- `a` is nonempty and ends before `b` starts. -/
def Precedes (a b : QueueInterval) : Prop := a.start < a.«end» ∧ a.«end» < b.start

/-- `r` meets `inter` or touches it at an end. -/
def Touches (inter r : QueueInterval) : Prop := inter.start ≤ r.«end» ∧ r.start ≤ inter.«end»

instance (inter : QueueInterval) : DecidablePred (Touches inter) := fun r => by
  unfold Touches; infer_instance

/-- `r` shares more than an end point with `inter`. -/
def Overlaps (inter r : QueueInterval) : Prop := inter.start < r.«end» ∧ r.start < inter.«end»

instance (inter : QueueInterval) : DecidablePred (Overlaps inter) := fun r => by
  unfold Overlaps; infer_instance

/-- The offsets `r` covers, its ends included. -/
def Covers (r : QueueInterval) (x : Int) : Prop := r.start ≤ x ∧ x ≤ r.«end»

end QueueInterval

namespace IntervalSkipList

open QueueInterval

/-- The representation invariant: every interval starts at or below its end, and ends before the
next one starts. -/
def WellFormed (s : IntervalSkipList) : Prop := RangeChain.Chained start «end» s

instance (s : IntervalSkipList) : Decidable (WellFormed s) :=
  inferInstanceAs (Decidable (RangeChain.Chained _ _ _))

/-- Nonempty intervals in order, a gap between each and the next. -/
def Gapped (s : IntervalSkipList) : Prop :=
  s.Pairwise Precedes ∧ ∀ r ∈ s, r.start < r.«end»

/-- The offsets some interval of the list covers. -/
def Covered (s : IntervalSkipList) (x : Int) : Prop := ∃ r ∈ s, r.Covers x

variable {s : IntervalSkipList}

theorem WellFormed.le (hs : WellFormed s) : ∀ r ∈ s, r.start ≤ r.«end» := hs.1

theorem WellFormed.pairwise (hs : WellFormed s) : s.Pairwise fun a b => a.«end» < b.start :=
  RangeChain.Chained.pairwise (show RangeChain.Chained start «end» s from hs)

theorem WellFormed.sorted (hs : WellFormed s) : SortedList.Sorted start s :=
  RangeChain.Chained.pairwise_lo (show RangeChain.Chained start «end» s from hs)

theorem wellFormed_of_pairwise (hle : ∀ r ∈ s, r.start ≤ r.«end»)
    (hp : s.Pairwise fun a b => a.«end» < b.start) : WellFormed s :=
  ⟨hle, hp.isChain⟩

/-- Any filter of a well-formed list is well-formed. -/
theorem WellFormed.filter (hs : WellFormed s) (p : QueueInterval → Bool) :
    WellFormed (s.filter p) :=
  wellFormed_of_pairwise (fun r hr => hs.le r (List.mem_of_mem_filter hr)) (hs.pairwise.filter p)

theorem Gapped.wellFormed (hs : Gapped s) : WellFormed s :=
  wellFormed_of_pairwise (fun r hr => Int.le_of_lt (hs.2 r hr)) (hs.1.imp fun h => h.2)

theorem gapped_of_wellFormed (hs : WellFormed s) (hpos : ∀ r ∈ s, r.start < r.«end») :
    Gapped s :=
  ⟨hs.pairwise.imp_of_mem fun ha _ h => ⟨hpos _ ha, h⟩, hpos⟩

theorem precedes_start {a b : QueueInterval} (h : Precedes a b) : a.start < b.start := by
  unfold Precedes at h
  omega

theorem Gapped.sorted (h : Gapped s) : SortedList.Sorted start s :=
  h.1.imp precedes_start

/-- Two intervals of a well-formed list are equal, or one ends before the other starts. -/
theorem WellFormed.eq_or_before (hs : WellFormed s) {x y : QueueInterval} (hx : x ∈ s)
    (hy : y ∈ s) : x = y ∨ x.«end» < y.start ∨ y.«end» < x.start := by
  have hp := hs.pairwise
  clear hs
  induction s with
  | nil => simp at hx
  | cons b s ih =>
    rcases List.mem_cons.mp hx with hxb | hx
    · rcases List.mem_cons.mp hy with hyb | hy
      · exact Or.inl (hxb.trans hyb.symm)
      · exact Or.inr (Or.inl (hxb ▸ List.rel_of_pairwise_cons hp hy))
    · rcases List.mem_cons.mp hy with hyb | hy
      · exact Or.inr (Or.inr (hyb ▸ List.rel_of_pairwise_cons hp hx))
      · exact ih hx hy hp.of_cons

/-- When the filter finds nothing, nothing touches. -/
theorem not_touches_of_filter_eq_nil {inter : QueueInterval} (h : s.filter (Touches inter) = []) {r : QueueInterval}
    (hr : r ∈ s) : ¬ Touches inter r := fun hT =>
  absurd (List.mem_filter.mpr ⟨hr, decide_eq_true hT⟩) (by rw [h]; simp)

/-- In a well-formed list, none ends after the last. -/
theorem end_le_getLast {l : List QueueInterval} (hl : WellFormed l) (hne : l ≠ [])
    {x : QueueInterval} (hx : x ∈ l) : x.«end» ≤ (l.getLast hne).«end» := by
  have hlast := hl.le _ (List.getLast_mem hne)
  have hp := hl.pairwise
  rw [← List.dropLast_append_getLast hne] at hp hx
  rcases List.mem_append.mp hx with hx | hx
  · have := (List.pairwise_append.mp hp).2.2 x hx _ (List.mem_singleton_self _)
    omega
  · rw [List.mem_singleton.mp hx]

/-- An interval of a well-formed list that does not touch `inter` has another start. -/
theorem start_ne_of_not_touches {inter : QueueInterval} (hs : WellFormed s)
    (hi : inter.start ≤ inter.«end») {x : QueueInterval} (hx : x ∈ s) (hnt : ¬ Touches inter x) : x.start ≠ inter.start := by
  have := hs.le x hx
  unfold Touches at hnt
  omega

/-! ## `Query` is a filter -/

/-- Among intervals all starting below `k`, each ending before the next starts, at most the last
reaches `k`. -/
theorem filter_reaches_before {l : List QueueInterval}
    (hp : l.Pairwise fun a b => a.«end» < b.start) (k : Int) (hlt : ∀ r ∈ l, r.start < k) :
    l.filter (fun r => decide (k ≤ r.«end»)) =
      match l.getLast? with
      | none => []
      | some p => if p.«end» < k then [] else [p] := by
  induction l with
  | nil => rfl
  | cons a l ih =>
    cases l with
    | nil =>
      by_cases ha : a.«end» < k
      · simp [ha]
      · have hk : k ≤ a.«end» := by omega
        simp [ha, hk]
    | cons b l =>
      -- `a` ends before `b` starts, which is below `k`
      have hab := List.rel_of_pairwise_cons hp (List.mem_cons_self ..)
      have hb := hlt b (List.mem_cons_of_mem _ (List.mem_cons_self ..))
      rw [List.filter_cons_of_neg (by simp only [decide_eq_true_eq]; omega),
        ih hp.of_cons fun r hr => hlt r (List.mem_cons_of_mem _ hr)]
      simp

/-- The interval behind the seek position is kept when it reaches the seek key. -/
theorem fromPrev_eq (inter p : QueueInterval) (excludeBoard : Bool) :
    (if p.«end» < inter.start then []
      else if excludeBoard ∧ p.«end» = inter.start then [] else [p]) =
      if p.«end» < (if excludeBoard then inter.start + 1 else inter.start) then [] else [p] := by
  cases excludeBoard with
  | false => simp
  | true =>
    simp only [if_true, true_and]
    by_cases h : p.«end» < inter.start
    · rw [if_pos h, if_pos (by omega)]
    · by_cases h' : p.«end» = inter.start
      · rw [if_neg h, if_pos h', if_pos (by omega)]
      · rw [if_neg h, if_neg h', if_neg (by omega)]

variable [SkipList QueueInterval start]

/-- On a well-formed list the walk of `Query` keeps, behind the seek position, the interval that
reaches the seek key, and from it on, those that start below the query's end. -/
theorem query_eq_walk (hs : WellFormed s) (inter : QueueInterval) (excludeBoard : Bool) :
    query s inter excludeBoard =
      (SortedList.before start s (if excludeBoard then inter.start + 1 else inter.start)).filter
          (fun r => decide ((if excludeBoard then inter.start + 1 else inter.start) ≤ r.«end»)) ++
        (SortedList.seek start s (if excludeBoard then inter.start + 1 else inter.start)).filter
          (fun r => decide (r.start < if excludeBoard then inter.«end» else inter.«end» + 1)) := by
  have hsort := hs.sorted
  have hsplit := SortedList.before_append_seek start s
    (if excludeBoard then inter.start + 1 else inter.start)
  have hpB : (SortedList.before start s
      (if excludeBoard then inter.start + 1 else inter.start)).Pairwise
        fun a b => a.«end» < b.start :=
    hs.pairwise.sublist (List.takeWhile_sublist _)
  have hsS : SortedList.Sorted start
      (SortedList.seek start s (if excludeBoard then inter.start + 1 else inter.start)) :=
    hsort.sublist (List.dropWhile_suffix _).sublist
  rw [filter_reaches_before hpB _ fun r hr => SortedList.key_lt_of_mem_before start hr,
    ← SortedList.takeWhile_eq_filter start hsS]
  unfold query
  dsimp only
  rw [SkipList.seek_eq hsort, SkipList.before_eq hsort]
  simp only [fromPrev_eq]
  -- split on what the seek finds, then on whether an interval lies behind it
  cases hS : SortedList.seek start s (if excludeBoard then inter.start + 1 else inter.start) with
  | nil =>
    rw [hS, List.append_nil] at hsplit
    rw [hsplit]
    cases s.getLast? <;> simp
  | cons first rest =>
    cases hB : (SortedList.before start s
        (if excludeBoard then inter.start + 1 else inter.start)).getLast? with
    | some p => simp
    | none =>
      dsimp only
      have hrest : SortedList.Sorted start rest := (hS ▸ hsS).of_cons
      by_cases hf : first.start < if excludeBoard then inter.«end» else inter.«end» + 1
      · simp [hf]
      · -- nothing after `first` starts below the bound either
        have hnone : rest.filter (fun v => decide (v.start <
            if excludeBoard then inter.«end» else inter.«end» + 1)) = [] := by
          rw [List.filter_eq_nil_iff]
          intro v hv
          have := List.rel_of_pairwise_cons (hS ▸ hsS) hv
          simp only [decide_eq_true_eq]
          omega
        simp [hf, SortedList.takeWhile_eq_filter start hrest, hnone]

/-- On a well-formed list, `Query` without `excludeBoard` finds exactly the intervals that touch,
in order. -/
theorem query_eq_filter (hs : WellFormed s) {inter : QueueInterval}
    (hi : inter.start ≤ inter.«end») : query s inter false = s.filter (Touches inter) := by
  rw [query_eq_walk hs inter false]
  simp only [Bool.false_eq_true, if_false]
  -- behind the seek position touching is reaching the start, from it on starting by the end
  refine (SortedList.filter_before_seek start s inter.start (fun r hr => ?_) fun r hr => ?_).symm
  · have := SortedList.key_lt_of_mem_before start hr
    rw [decide_eq_decide]
    exact ⟨fun h => h.1, fun h => ⟨h, by omega⟩⟩
  · have := SortedList.le_key_of_mem_seek start hs.sorted hr
    have := hs.le r (SortedList.mem_of_mem_seek start hr)
    rw [decide_eq_decide]
    exact ⟨fun h => by unfold Touches at h; omega, fun h => ⟨by omega, by omega⟩⟩

/-- On a well-formed list, `Query` with `excludeBoard` finds the intervals that end past the
query's start and start before its end, or at or before its start. -/
theorem query_exclude_eq_filter (hs : WellFormed s) (inter : QueueInterval) :
    query s inter true = s.filter fun r =>
      decide (inter.start < r.«end» ∧ (r.start ≤ inter.start ∨ r.start < inter.«end»)) := by
  rw [query_eq_walk hs inter true]
  simp only [if_true]
  refine (SortedList.filter_before_seek start s (inter.start + 1) (fun r hr => ?_)
    fun r hr => ?_).symm
  · have := SortedList.key_lt_of_mem_before start hr
    rw [decide_eq_decide]
    constructor
    · intro h
      omega
    · intro h
      exact ⟨by omega, Or.inl (by omega)⟩
  · have := SortedList.le_key_of_mem_seek start hs.sorted hr
    have := hs.le r (SortedList.mem_of_mem_seek start hr)
    rw [decide_eq_decide]
    constructor
    · rintro ⟨-, h | h⟩ <;> omega
    · intro h
      exact ⟨by omega, Or.inr h⟩

/-- For a query interval that is not a point, `Query` with `excludeBoard` finds exactly the
intervals that share more than an end point with it. -/
theorem query_exclude_eq_overlaps (hs : WellFormed s) {inter : QueueInterval}
    (hi : inter.start < inter.«end») : query s inter true = s.filter (Overlaps inter) := by
  rw [query_exclude_eq_filter hs inter]
  refine List.filter_congr fun r _ => ?_
  rw [decide_eq_decide]
  unfold Overlaps
  constructor
  · rintro ⟨h, h' | h'⟩ <;> exact ⟨h, by omega⟩
  · rintro ⟨h, h'⟩
    exact ⟨h, Or.inr h'⟩

/-! ## `AddOrMerge` -/

section AddOrMerge

variable {inter : QueueInterval}

/-- `AddOrMerge` when nothing touches the new interval: it goes in as it is. -/
theorem addOrMerge_of_nil (hs : WellFormed s) (hi : inter.start ≤ inter.«end»)
    (h : s.filter (Touches inter) = []) :
    addOrMerge s inter = (SortedList.set start s inter, inter) := by
  unfold addOrMerge
  rw [query_eq_filter hs hi, h, SkipList.set_eq hs.sorted]

/-- `AddOrMerge` when `first :: more` touch the new interval, in order: they go, and one interval
from the least start to the greatest end, with that end's count, comes in. -/
theorem addOrMerge_of_cons (hs : WellFormed s) (hi : inter.start ≤ inter.«end»)
    {first : QueueInterval} {more : List QueueInterval}
    (h : s.filter (Touches inter) = first :: more) :
    let last := (first :: more).getLast (List.cons_ne_nil _ _)
    let n : QueueInterval :=
      ⟨if first.start < inter.start then first.start else inter.start,
        if last.«end» > inter.«end» then last.«end» else inter.«end»,
        if last.«end» > inter.«end» then last.endCnt else inter.endCnt⟩
    addOrMerge s inter = (SortedList.set start (s.filter fun r => ¬ Touches inter r) n, n) := by
  intro last n
  have hdel : (first :: more).foldl (fun s v => SkipList.delete s v.start) s =
      s.filter fun r => ¬ Touches inter r := by
    rw [SkipList.foldl_delete hs.sorted, ← h]
    refine List.filter_congr fun r hr => ?_
    simp only [SortedList.key_mem_map_filter start hs.sorted _ hr, decide_eq_true_eq]
  unfold addOrMerge
  rw [query_eq_filter hs hi, h]
  simp only [hdel, SkipList.set_eq (hs.filter _).sorted, n, last]
  split_ifs <;> rfl

/-- The interval `AddOrMerge` answers starts at the least start among the new interval and those
touching it. -/
theorem addOrMerge_start (hs : WellFormed s) (hi : inter.start ≤ inter.«end») :
    ((addOrMerge s inter).2.start = inter.start ∨
      ∃ r ∈ s, Touches inter r ∧ (addOrMerge s inter).2.start = r.start) ∧
    (addOrMerge s inter).2.start ≤ inter.start ∧
    ∀ r ∈ s, Touches inter r → (addOrMerge s inter).2.start ≤ r.start := by
  cases h : s.filter (Touches inter) with
  | nil =>
    rw [addOrMerge_of_nil hs hi h]
    exact ⟨Or.inl rfl, Int.le_refl _, fun r hr hT => absurd hT (not_touches_of_filter_eq_nil h hr)⟩
  | cons first more =>
    have hfirst : first ∈ s.filter (Touches inter) := by
      rw [h]
      exact List.mem_cons_self
    rw [List.mem_filter] at hfirst
    have hpw : (first :: more).Pairwise fun a b => a.start < b.start := h ▸ hs.sorted.filter _
    -- the touching intervals are sorted, so `first` starts first among them
    have hleast : ∀ y ∈ s, Touches inter y → first.start ≤ y.start := fun y hy hT => by
      have hy' : y ∈ first :: more := h ▸ List.mem_filter.mpr ⟨hy, decide_eq_true hT⟩
      rcases List.mem_cons.mp hy' with rfl | hy'
      · exact Int.le_refl _
      · exact Int.le_of_lt (List.rel_of_pairwise_cons hpw hy')
    rw [addOrMerge_of_cons hs hi h]
    dsimp only
    split_ifs with hlt
    · exact ⟨Or.inr ⟨first, hfirst.1, of_decide_eq_true hfirst.2, rfl⟩, Int.le_of_lt hlt, hleast⟩
    · exact ⟨Or.inl rfl, Int.le_refl _, fun y hy hT => by have := hleast y hy hT; omega⟩

/-- The interval `AddOrMerge` answers ends at the greatest end among the new interval and those
touching it, with the count of the interval that ends there. -/
theorem addOrMerge_end (hs : WellFormed s) (hi : inter.start ≤ inter.«end») :
    (((addOrMerge s inter).2.«end» = inter.«end» ∧
        (addOrMerge s inter).2.endCnt = inter.endCnt) ∨
      ∃ r ∈ s, Touches inter r ∧ (addOrMerge s inter).2.«end» = r.«end» ∧
        (addOrMerge s inter).2.endCnt = r.endCnt) ∧
    inter.«end» ≤ (addOrMerge s inter).2.«end» ∧
    ∀ r ∈ s, Touches inter r → r.«end» ≤ (addOrMerge s inter).2.«end» := by
  cases h : s.filter (Touches inter) with
  | nil =>
    rw [addOrMerge_of_nil hs hi h]
    exact ⟨Or.inl ⟨rfl, rfl⟩, Int.le_refl _,
      fun r hr hT => absurd hT (not_touches_of_filter_eq_nil h hr)⟩
  | cons first more =>
    have hne : first :: more ≠ [] := List.cons_ne_nil _ _
    have hlast : (first :: more).getLast hne ∈ s.filter (Touches inter) := by
      rw [h]
      exact List.getLast_mem hne
    rw [List.mem_filter] at hlast
    -- the touching intervals are well-formed, so the last one ends last
    have hgreatest : ∀ y ∈ s, Touches inter y → y.«end» ≤ ((first :: more).getLast hne).«end» :=
      fun y hy hT => end_le_getLast (h ▸ hs.filter _) hne
        (h ▸ List.mem_filter.mpr ⟨hy, decide_eq_true hT⟩)
    rw [addOrMerge_of_cons hs hi h]
    dsimp only
    split_ifs with hgt
    · exact ⟨Or.inr ⟨_, hlast.1, of_decide_eq_true hlast.2, rfl, rfl⟩, Int.le_of_lt hgt, hgreatest⟩
    · exact ⟨Or.inl ⟨rfl, rfl⟩, Int.le_refl _,
        fun y hy hT => by have := hgreatest y hy hT; omega⟩

/-- What `AddOrMerge` leaves: the interval it answers, and the old intervals that do not touch
the new one. -/
theorem mem_addOrMerge (hs : WellFormed s) (hi : inter.start ≤ inter.«end») {x : QueueInterval} :
    x ∈ (addOrMerge s inter).1 ↔ x = (addOrMerge s inter).2 ∨ (x ∈ s ∧ ¬ Touches inter x) := by
  cases h : s.filter (Touches inter) with
  | nil =>
    rw [addOrMerge_of_nil hs hi h, SortedList.mem_set start hs.sorted]
    constructor
    · rintro (rfl | ⟨hx, -⟩)
      · exact Or.inl rfl
      · exact Or.inr ⟨hx, not_touches_of_filter_eq_nil h hx⟩
    · rintro (rfl | ⟨hx, hnt⟩)
      · exact Or.inl rfl
      · exact Or.inr ⟨hx, start_ne_of_not_touches hs hi hx hnt⟩
  | cons first more =>
    have hfirst : first ∈ s ∧ Touches inter first := by
      have := List.mem_filter.mp (h ▸ List.mem_cons_self ..)
      exact ⟨this.1, of_decide_eq_true this.2⟩
    rw [addOrMerge_of_cons hs hi h]
    dsimp only
    rw [SortedList.mem_set start (hs.sorted.sublist List.filter_sublist), List.mem_filter]
    simp only [decide_eq_true_eq]
    constructor
    · rintro (rfl | ⟨hx, -⟩)
      · exact Or.inl rfl
      · exact Or.inr hx
    · rintro (rfl | ⟨hx, hnt⟩)
      · exact Or.inl rfl
      · -- the merged start is `first`'s or the new one's, and neither can be `x`'s
        refine Or.inr ⟨⟨hx, hnt⟩, ?_⟩
        have hne₁ : x.start ≠ first.start := fun he =>
          hnt (SortedList.eq_of_key_eq start hs.sorted hx hfirst.1 he ▸ hfirst.2)
        have hne₂ := start_ne_of_not_touches hs hi hx hnt
        split_ifs <;> assumption

/-- An interval that does not touch `inter` lies clear of the interval `AddOrMerge` answers, on
one side or the other. -/
theorem clear_of_not_touches (hs : WellFormed s) (hi : inter.start ≤ inter.«end»)
    {x : QueueInterval} (hx : x ∈ s) (hnt : ¬ Touches inter x) :
    x.«end» < (addOrMerge s inter).2.start ∨ (addOrMerge s inter).2.«end» < x.start := by
  obtain ⟨hs₁, -, -⟩ := addOrMerge_start hs hi
  obtain ⟨he₁, -, -⟩ := addOrMerge_end hs hi
  have hx' := hs.le x hx
  unfold Touches at hnt
  -- the merged ends are the new interval's or those of intervals that touch it
  rcases not_and_or.mp hnt with hlt | hlt
  · left
    rcases hs₁ with hst | ⟨r, hr, hT, hst⟩
    · omega
    · rw [hst]
      rcases hs.eq_or_before hx hr with rfl | hb | hb
      · exact absurd hT hnt
      · exact hb
      · unfold Touches at hT
        omega
  · right
    rcases he₁ with ⟨hen, -⟩ | ⟨r, hr, hT, hen, -⟩
    · omega
    · rw [hen]
      rcases hs.eq_or_before hx hr with rfl | hb | hb
      · exact absurd hT hnt
      · unfold Touches at hT
        omega
      · exact hb

/-- `AddOrMerge` of an interval with start at or below its end keeps the list well-formed. -/
theorem wellFormed_addOrMerge (hs : WellFormed s) (hi : inter.start ≤ inter.«end») :
    WellFormed (addOrMerge s inter).1 := by
  obtain ⟨-, hs₂, -⟩ := addOrMerge_start hs hi
  obtain ⟨-, he₂, -⟩ := addOrMerge_end hs hi
  have hn : (addOrMerge s inter).2.start ≤ (addOrMerge s inter).2.«end» := by omega
  have hmem := fun x => mem_addOrMerge (x := x) hs hi
  -- the set keeps the order "well-formed and before", which orders starts
  have hrel : ((addOrMerge s inter).1).Pairwise fun a b => a.start ≤ a.«end» ∧ a.«end» < b.start := by
    cases h : s.filter (Touches inter) with
    | nil =>
      have heq := addOrMerge_of_nil hs hi h
      rw [heq]
      refine SortedList.pairwise_set start (fun _ _ h => by omega)
        (hs.pairwise.imp_of_mem fun ha _ h => ⟨hs.le _ ha, h⟩) fun x hx => ?_
      have hc := clear_of_not_touches hs hi hx (not_touches_of_filter_eq_nil h hx)
      rw [heq] at hc
      dsimp only at hc
      have := hs.le x hx
      constructor <;> intro <;> omega
    | cons first more =>
      have heq := addOrMerge_of_cons hs hi h
      dsimp only at heq
      rw [heq]
      refine SortedList.pairwise_set start (fun _ _ h => by omega)
        ((hs.filter _).pairwise.imp_of_mem fun ha _ h =>
          ⟨(hs.filter _).le _ ha, h⟩) fun x hx => ?_
      obtain ⟨hx, hnt⟩ := List.mem_filter.mp hx
      have hc := clear_of_not_touches hs hi hx (by simpa using hnt)
      rw [heq] at hc hn
      have := hs.le x hx
      dsimp only at hc hn ⊢
      constructor <;> intro <;> omega
  refine wellFormed_of_pairwise (fun r hr => ?_) (hrel.imp fun h => h.2)
  rcases (hmem r).mp hr with rfl | ⟨hr, -⟩
  · exact hn
  · exact hs.le r hr

/-- `AddOrMerge` of a nonempty interval keeps the list gapped. -/
theorem gapped_addOrMerge (hs : Gapped s) (hi : inter.start < inter.«end») :
    Gapped (addOrMerge s inter).1 := by
  have hi' : inter.start ≤ inter.«end» := Int.le_of_lt hi
  refine gapped_of_wellFormed (wellFormed_addOrMerge hs.wellFormed hi') fun r hr => ?_
  rcases (mem_addOrMerge hs.wellFormed hi').mp hr with rfl | ⟨hr, -⟩
  · have := (addOrMerge_start hs.wellFormed hi').2.1
    have := (addOrMerge_end hs.wellFormed hi').2.1
    omega
  · exact hs.2 r hr

/-- After `AddOrMerge` the list covers what it covered and the new interval. -/
theorem covered_addOrMerge (hs : WellFormed s) (hi : inter.start ≤ inter.«end») (x : Int) :
    Covered (addOrMerge s inter).1 x ↔ Covered s x ∨ inter.Covers x := by
  obtain ⟨hs₁, hs₂, hs₃⟩ := addOrMerge_start hs hi
  obtain ⟨he₁, he₂, he₃⟩ := addOrMerge_end hs hi
  have hmem := fun y => mem_addOrMerge (x := y) hs hi
  constructor
  · rintro ⟨r, hr, hrx⟩
    rcases (hmem r).mp hr with rfl | ⟨hr, -⟩
    · -- a point of the merged interval lies in the new one, or in a touching one beside it
      unfold Covers at hrx
      by_cases hlo : x < inter.start
      · rcases hs₁ with hst | ⟨r₁, hr₁, hT, hst⟩
        · omega
        · unfold Touches at hT
          exact Or.inl ⟨r₁, hr₁, by omega, by omega⟩
      · by_cases hhi : inter.«end» < x
        · rcases he₁ with ⟨hen, -⟩ | ⟨r₂, hr₂, hT, hen, -⟩
          · omega
          · unfold Touches at hT
            exact Or.inl ⟨r₂, hr₂, by omega, by omega⟩
        · exact Or.inr ⟨by omega, by omega⟩
    · exact Or.inl ⟨r, hr, hrx⟩
  · rintro (⟨r, hr, hrx⟩ | hx)
    · by_cases hT : Touches inter r
      · have := hs₃ r hr hT
        have := he₃ r hr hT
        unfold Covers at hrx
        exact ⟨_, (hmem _).mpr (Or.inl rfl), by omega, by omega⟩
      · exact ⟨r, (hmem r).mpr (Or.inr ⟨hr, hT⟩), hrx⟩
    · unfold Covers at hx
      exact ⟨_, (hmem _).mpr (Or.inl rfl), by omega, by omega⟩

end AddOrMerge

/-! ## `DeleteLower` -/

/-- The intervals `DeleteLower` removes from a list of intervals that end at or above 0: exactly
those that end at or below its bound. -/
theorem deleteLower_removed (hs : WellFormed s) (hnn : ∀ r ∈ s, 0 ≤ r.«end») (low : Int) :
    (query s ⟨0, low, 0⟩ false).filter (fun v => decide (v.«end» ≤ low)) =
      s.filter fun v => decide (v.«end» ≤ low) := by
  rw [query_eq_walk hs ⟨0, low, 0⟩ false]
  simp only [Bool.false_eq_true, if_false]
  rw [List.filter_append, List.filter_filter, List.filter_filter]
  refine (SortedList.filter_before_seek start s 0 (fun r hr => ?_) fun r hr => ?_).symm
  · -- behind the seek position every interval reaches 0
    have h0 := hnn r (SortedList.mem_of_mem_before start hr)
    simp [h0]
  · -- from it on, an interval that ends by `low` starts by it too
    have hle := hs.le r (SortedList.mem_of_mem_seek start hr)
    by_cases h : r.«end» ≤ low
    · have hlt : r.start < low + 1 := by omega
      simp [h, hlt]
    · simp [h]

/-- `DeleteLower` on a well-formed list of intervals that end at or above 0 keeps exactly those
that end above its bound, and answers how many it removed. -/
theorem deleteLower_spec (hs : WellFormed s) (hnn : ∀ r ∈ s, 0 ≤ r.«end») (low : Int) :
    (deleteLower s low).1 = s.filter (fun r => ¬ r.«end» ≤ low) ∧
      (deleteLower s low).2 = (s.filter fun r => r.«end» ≤ low).length := by
  unfold deleteLower
  dsimp only
  rw [deleteLower_removed hs hnn low, SkipList.foldl_delete hs.sorted]
  refine ⟨List.filter_congr fun r hr => ?_, rfl⟩
  simp only [SortedList.key_mem_map_filter start hs.sorted _ hr]
  by_cases h : r.«end» ≤ low <;> simp [h]

/-- `DeleteLower` on a gapped list of intervals at or above 0 keeps exactly those that end above
its bound. -/
theorem deleteLower_eq_filter (hs : Gapped s) (hnn : ∀ r ∈ s, 0 ≤ r.start) (low : Int) :
    (deleteLower s low).1 = s.filter fun r => ¬ r.«end» ≤ low :=
  (deleteLower_spec hs.wellFormed (fun r hr => Int.le_of_lt (Int.lt_of_le_of_lt (hnn r hr)
    (hs.2 r hr))) low).1

/-! ## Rebuilding from the interval list -/

/-- Adding, in order, the intervals that follow a well-formed prefix appends them. -/
theorem foldl_addOrMerge (p q : List QueueInterval) (h : WellFormed (p ++ q)) :
    q.foldl (fun s qi => (addOrMerge s qi).1) p = p ++ q := by
  induction q generalizing p with
  | nil => rw [List.foldl_nil, List.append_nil]
  | cons r q ih =>
    have hp : WellFormed p := by
      have htake := RangeChain.Chained.take (show RangeChain.Chained start «end» _ from h) p.length
      rw [List.take_left] at htake
      exact htake
    -- `r` lies after all of `p`, so it touches none of it and goes at the end
    have hlt : ∀ x ∈ p, x.«end» < r.start := fun x hx =>
      (List.pairwise_append.mp h.pairwise).2.2 x hx r List.mem_cons_self
    have hr : r.start ≤ r.«end» := h.le r (List.mem_append_right p List.mem_cons_self)
    have hnil : p.filter (Touches r) = [] := by
      rw [List.filter_eq_nil_iff]
      intro x hx hT
      rw [decide_eq_true_eq] at hT
      have := hlt x hx
      unfold Touches at hT
      omega
    have hwf : WellFormed (p ++ [r] ++ q) := by
      rwa [List.append_assoc, List.singleton_append]
    rw [List.foldl_cons, addOrMerge_of_nil hp hr hnil,
      SortedList.set_of_lt start fun x hx => Int.lt_of_le_of_lt (hp.le x hx) (hlt x hx), ih _ hwf,
      List.append_assoc, List.singleton_append]

/-- `UpdateConfirmedInterval` from `ToIntervalList` rebuilds a well-formed list. -/
theorem updateConfirmedInterval_toIntervalList (hs : WellFormed s) :
    updateConfirmedInterval (toIntervalList s) = s :=
  foldl_addOrMerge [] s hs

/-- For a query interval that is not a point, `IsCompleteOverlap` says whether some interval
shares more than an end point with it. -/
theorem isCompleteOverlap_iff (hs : WellFormed s) {inter : QueueInterval}
    (hi : inter.start < inter.«end») :
    isCompleteOverlap s inter = true ↔ ∃ r ∈ s, Overlaps inter r := by
  rw [isCompleteOverlap, query_exclude_eq_overlaps hs hi, Bool.not_eq_true',
    List.isEmpty_eq_false_iff, Ne, List.filter_eq_nil_iff]
  simp

/-- The operations of `IntervalSkipList` on a well-formed list and a query interval with start at
or below its end. `AddOrMerge` keeps the list well-formed, covers what it covered and the new
interval, and answers a stored interval holding the new one, whose end and count are those of
the input that ends last. `DeleteLower`, on intervals that end at or above 0, keeps exactly those
that end above its bound and counts the others. `Query` finds, in order, the intervals that
touch the query interval, and with `excludeBoard` those that end past its start and start
before its end (or, at a point query, at its start); for a query interval that is not a point
these are the ones that share more than an end point with it, and `IsCompleteOverlap` says
whether there is one. And `UpdateConfirmedInterval(ToIntervalList())` rebuilds the list. -/
theorem intervalSkipList_spec (hs : WellFormed s) {q : QueueInterval} (hq : q.start ≤ q.«end») :
    (WellFormed (addOrMerge s q).1 ∧
      (∀ x, Covered (addOrMerge s q).1 x ↔ Covered s x ∨ q.Covers x) ∧
      (addOrMerge s q).2 ∈ (addOrMerge s q).1 ∧
      (addOrMerge s q).2.start ≤ q.start ∧ q.«end» ≤ (addOrMerge s q).2.«end» ∧
      (((addOrMerge s q).2.«end» = q.«end» ∧ (addOrMerge s q).2.endCnt = q.endCnt) ∨
        ∃ r ∈ s, Touches q r ∧ (addOrMerge s q).2.«end» = r.«end» ∧
          (addOrMerge s q).2.endCnt = r.endCnt) ∧
      ∀ r ∈ s, Touches q r → r.«end» ≤ (addOrMerge s q).2.«end») ∧
    ((∀ r ∈ s, 0 ≤ r.«end») → ∀ x, WellFormed (deleteLower s x).1 ∧
      (deleteLower s x).1 = s.filter (fun r => ¬ r.«end» ≤ x) ∧
      (deleteLower s x).2 = (s.filter fun r => r.«end» ≤ x).length) ∧
    query s q false = s.filter (Touches q) ∧
    query s q true = s.filter (fun r =>
      decide (q.start < r.«end» ∧ (r.start ≤ q.start ∨ r.start < q.«end»))) ∧
    (q.start < q.«end» → query s q true = s.filter (Overlaps q) ∧
      (isCompleteOverlap s q = true ↔ ∃ r ∈ s, Overlaps q r)) ∧
    updateConfirmedInterval (toIntervalList s) = s := by
  obtain ⟨-, hs₂, -⟩ := addOrMerge_start hs hq
  obtain ⟨he₁, he₂, he₃⟩ := addOrMerge_end hs hq
  refine ⟨⟨wellFormed_addOrMerge hs hq, covered_addOrMerge hs hq,
      (mem_addOrMerge hs hq).mpr (Or.inl rfl), hs₂, he₂, he₁, he₃⟩,
    fun hnn x => ?_, query_eq_filter hs hq, query_exclude_eq_filter hs q,
    fun hi => ⟨query_exclude_eq_overlaps hs hi, isCompleteOverlap_iff hs hi⟩,
    updateConfirmedInterval_toIntervalList hs⟩
  obtain ⟨hkeep, hcount⟩ := deleteLower_spec hs hnn x
  refine ⟨?_, hkeep, hcount⟩
  rw [hkeep]
  exact hs.filter _

-- Merging the interval between two stored ones joins the three.
example :
    (addOrMerge [⟨0, 10, 2⟩, ⟨20, 30, 4⟩] ⟨10, 20, 3⟩).2 ∈
      (addOrMerge [⟨0, 10, 2⟩, ⟨20, 30, 4⟩] ⟨10, 20, 3⟩).1 :=
  (intervalSkipList_spec (q := ⟨10, 20, 3⟩) (by decide) (by decide)).1.2.2.1

/-! ## The point query with `excludeBoard` -/

/-- With `excludeBoard`, a point query at the start of a stored interval that ends after it finds
that interval, although the two share only the point. `IntervalTree.Query` with `excludeBoard`
skips an interval that starts at or after the query's end, so it does not find it. -/
theorem query_point_mem (hs : WellFormed s) {r : QueueInterval} (hr : r ∈ s)
    (hlt : r.start < r.«end») (c : Int) :
    r ∈ query s ⟨r.start, r.start, c⟩ true ∧ ¬ Overlaps ⟨r.start, r.start, c⟩ r := by
  rw [query_exclude_eq_filter hs]
  refine ⟨List.mem_filter.mpr ⟨hr, ?_⟩, fun h => ?_⟩
  · simpa using hlt
  · exact lt_irrefl _ h.2

/-- The point query `[5, 5]` over the stored `[5, 10]`, on any skip list: `Query` with
`excludeBoard` answers `[5, 10]` and `IsCompleteOverlap` holds, while no stored interval shares
more than an end point with `[5, 5]`, which is what the interval tree's `Query` and
`IsCompleteOverlap` test. -/
theorem isCompleteOverlap_point_query :
    WellFormed [⟨5, 10, 1⟩] ∧ query [⟨5, 10, 1⟩] ⟨5, 5, 0⟩ true = [⟨5, 10, 1⟩] ∧
      isCompleteOverlap [⟨5, 10, 1⟩] ⟨5, 5, 0⟩ = true ∧
      ¬ ∃ r ∈ ([⟨5, 10, 1⟩] : IntervalSkipList), Overlaps ⟨5, 5, 0⟩ r := by
  have hwf : WellFormed [⟨5, 10, 1⟩] := by decide
  have hq : query [⟨5, 10, 1⟩] ⟨5, 5, 0⟩ true = [⟨5, 10, 1⟩] := by
    rw [query_exclude_eq_filter hwf]
    decide
  exact ⟨hwf, hq, by rw [isCompleteOverlap, hq]; rfl, by decide⟩

end IntervalSkipList

end Nsq
