import Mathlib

/-!
# Chains of ranges

A list whose entries each stand for a range `[lo a, hi a]`, every range nonempty and ending
below the start of the next one. It is what an append-only log of ID ranges keeps: an entry is
appended when its range starts above the last one, and cutting a prefix or a suffix off keeps
the chain.

Along a chain the ranges are ordered pairwise (`pairwise`), so the starts strictly increase
(`pairwise_lo`), and a value above the last range lies above every range (`hi_lt_of_last`): a
source of fresh values that stays above the last range never hands out one already in a range.
-/

namespace RangeChain

variable {α β : Type} [LinearOrder β] (lo hi : α → β)

/-- Every range is nonempty and ends below the start of the next one. -/
def Chained (xs : List α) : Prop :=
  (∀ a ∈ xs, lo a ≤ hi a) ∧ xs.IsChain fun a b => hi a < lo b

instance (xs : List α) : Decidable (Chained lo hi xs) :=
  inferInstanceAs (Decidable (_ ∧ _))

variable {lo hi} {xs : List α}

theorem chained_nil : Chained lo hi ([] : List α) :=
  ⟨fun _ h => absurd h List.not_mem_nil, .nil⟩

theorem Chained.take (h : Chained lo hi xs) (n : Nat) : Chained lo hi (xs.take n) :=
  ⟨fun a ha => h.1 a (List.mem_of_mem_take ha), h.2.take n⟩

theorem Chained.drop (h : Chained lo hi xs) (n : Nat) : Chained lo hi (xs.drop n) :=
  ⟨fun a ha => h.1 a (List.mem_of_mem_drop ha), h.2.drop n⟩

/-- An entry whose range is nonempty and starts above the last range extends the chain. -/
theorem Chained.append_singleton (h : Chained lo hi xs) {a : α} (ha : lo a ≤ hi a)
    (hlast : ∀ b ∈ xs.getLast?, hi b < lo a) : Chained lo hi (xs ++ [a]) := by
  refine ⟨fun b hb => ?_, List.isChain_append.mpr ⟨h.2, .singleton a, ?_⟩⟩
  · rcases List.mem_append.mp hb with hb | hb
    · exact h.1 b hb
    · rw [List.mem_singleton.mp hb]
      exact ha
  · intro b hb c hc
    rw [List.head?_cons, Option.mem_some_iff] at hc
    rw [← hc]
    exact hlast b hb

/-- Every range of a chain ends below the start of every later one. -/
theorem Chained.pairwise (h : Chained lo hi xs) : xs.Pairwise fun a b => hi a < lo b := by
  obtain ⟨hrange, hchain⟩ := h
  induction xs with
  | nil => exact .nil
  | cons a t ih =>
    have hrange' : ∀ b ∈ t, lo b ≤ hi b := fun b hb => hrange b (List.mem_cons_of_mem a hb)
    have ht := ih hrange' hchain.tail
    refine List.pairwise_cons.mpr ⟨fun c hc => ?_, ht⟩
    -- the first range ends below the next start, and that range below every later one
    cases t with
    | nil => exact absurd hc List.not_mem_nil
    | cons b t =>
      have hab : hi a < lo b := (List.isChain_cons_cons.mp hchain).1
      rcases List.mem_cons.mp hc with rfl | hc
      · exact hab
      · calc hi a < lo b := hab
          _ ≤ hi b := hrange' b List.mem_cons_self
          _ < lo c := List.rel_of_pairwise_cons ht hc

/-- Along a chain the starts strictly increase. -/
theorem Chained.pairwise_lo (h : Chained lo hi xs) : xs.Pairwise fun a b => lo a < lo b :=
  h.pairwise.imp_of_mem fun {a _} ha _ hab => lt_of_le_of_lt (h.1 a ha) hab

/-- Of two entries of a chain, the earlier range ends below the start of the later one. -/
theorem Chained.hi_lt_lo_of_getElem? (h : Chained lo hi xs) {i j : Nat} {a b : α}
    (ha : xs[i]? = some a) (hb : xs[j]? = some b) (hij : i < j) : hi a < lo b := by
  obtain ⟨hi', rfl⟩ := List.getElem?_eq_some_iff.mp ha
  obtain ⟨hj', rfl⟩ := List.getElem?_eq_some_iff.mp hb
  exact List.pairwise_iff_getElem.mp h.pairwise i j hi' hj' hij

theorem Chained.lo_le_hi_of_getElem? (h : Chained lo hi xs) {i : Nat} {a : α}
    (ha : xs[i]? = some a) : lo a ≤ hi a :=
  h.1 a (List.mem_of_getElem? ha)

/-- A value above the last range lies above every range. -/
theorem Chained.hi_lt_of_last (h : Chained lo hi xs) {b : α} (hb : xs.getLast? = some b)
    {x : β} (hx : hi b < x) : ∀ a ∈ xs, hi a < x := by
  intro a ha
  obtain ⟨ys, rfl⟩ := List.getLast?_eq_some_iff.mp hb
  rcases List.mem_append.mp ha with ha | ha
  · have hab : hi a < lo b := (List.pairwise_append.mp h.pairwise).2.2 a ha b List.mem_cons_self
    calc hi a < lo b := hab
      _ ≤ hi b := h.1 b (List.mem_append_right ys List.mem_cons_self)
      _ < x := hx
  · rw [List.mem_singleton.mp ha]
    exact hx

section Int

variable {lo hi : α → Int} {xs : List α}

/-- Along a chain of integer ranges the starts grow by one at least at each entry: entry `g`
starts at least `g` above the first. -/
theorem Chained.lo_add_le (h : Chained lo hi xs) {b : α} (hb : xs.head? = some b) :
    ∀ (g : Nat) {a : α}, xs[g]? = some a → lo b + g ≤ lo a
  | 0, a, ha => by
    rw [← List.head?_eq_getElem?, hb, Option.some.injEq] at ha
    rw [ha, Int.natCast_zero, Int.add_zero]
  | g + 1, a, ha => by
    -- the entry before is `g` above the first, and ends below this one's start
    obtain ⟨a', ha'⟩ : ∃ a', xs[g]? = some a' := by
      obtain ⟨hlen, -⟩ := List.getElem?_eq_some_iff.mp ha
      exact ⟨xs[g], List.getElem?_eq_getElem (by omega)⟩
    have hprev := h.lo_add_le hb g ha'
    have hlink := h.hi_lt_lo_of_getElem? ha' ha (Nat.lt_succ_self g)
    have hrange := h.lo_le_hi_of_getElem? ha'
    omega

end Int

end RangeChain
