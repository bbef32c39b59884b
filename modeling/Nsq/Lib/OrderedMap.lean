import Mathlib.Data.List.Infix

/-!
# Ordered maps under a comparison

A map whose keys `compare` orders totally, kept as its bindings in strictly increasing key order:
one bucket of a B+tree key-value store. `get`, `put` and `delete` are its point operations, and
`seek k` is what a cursor positioned by `Seek(k)` visits, in order, by `Next`.

The point lemmas say what each operation changes (`get_put`, `get_delete`), that both keep the
bindings sorted, and how many keys of a given kind they add or remove (`countKeys_put`,
`countKeys_delete`). A sorted map is determined by the bindings it holds (`eq_of_mem_iff`), so a
store documented only by what its operations hold afterwards (`mem_put_iff`, `mem_delete_iff`)
acts on its bindings as these functions do. For keys that are lists under core's lexicographic `compare` (a byte string
under `bytes.Compare`), the keys extending a prefix `p` form one block of the order, starting at
`Seek(p)`: a cursor loop that runs while its key has the prefix visits exactly those keys, in order
(`takeWhile_seek_isPrefixOf`).
-/

namespace OrderedMap

variable {κ ν : Type}

/-- The number of keys that satisfy `p`. -/
def countKeys (p : κ → Bool) (m : List (κ × ν)) : Nat := (m.filter fun b => p b.1).length

@[simp] theorem countKeys_nil (p : κ → Bool) : countKeys p ([] : List (κ × ν)) = 0 := rfl

theorem countKeys_cons (p : κ → Bool) (b : κ × ν) (m : List (κ × ν)) :
    countKeys p (b :: m) = countKeys p m + if p b.1 then 1 else 0 := by
  by_cases h : p b.1 <;> simp [countKeys, h]

variable [Ord κ]

/-- The keys increase strictly. -/
def Sorted (m : List (κ × ν)) : Prop := m.Pairwise fun a b => compare a.1 b.1 = .lt

/-- `Get`: the value bound to `k`. -/
def get : List (κ × ν) → κ → Option ν
  | [], _ => none
  | (k', v) :: m, k => if compare k k' = .eq then some v else get m k

/-- `Put`: bind `k` to `v`, in its place in the order, replacing the binding it had. -/
def put : List (κ × ν) → κ → ν → List (κ × ν)
  | [], k, v => [(k, v)]
  | (k', v') :: m, k, v =>
    match compare k k' with
    | .lt => (k, v) :: (k', v') :: m
    | .eq => (k, v) :: m
    | .gt => (k', v') :: put m k v

/-- `Delete`: drop the binding of `k`, if there is one. -/
def delete : List (κ × ν) → κ → List (κ × ν)
  | [], _ => []
  | (k', v') :: m, k => if compare k k' = .eq then m else (k', v') :: delete m k

/-- What a cursor visits from `Seek(k)` on: the bindings from the first key at or above `k`. -/
def seek (m : List (κ × ν)) (k : κ) : List (κ × ν) := m.dropWhile fun b => compare b.1 k == .lt

@[simp] theorem get_nil (k : κ) : get ([] : List (κ × ν)) k = none := rfl

/-- A cursor from below every key visits all of them. -/
theorem seek_eq_self {m : List (κ × ν)} {k : κ} (h : ∀ b ∈ m, compare b.1 k ≠ .lt) :
    seek m k = m := by
  cases m with
  | nil => rfl
  | cons b m => exact List.dropWhile_cons_of_neg (by simpa using h b List.mem_cons_self)

/-- What a cursor visits from `Seek(k)` on a sorted map lies at or above `k`. -/
theorem not_lt_of_mem_seek [Std.TransOrd κ] {m : List (κ × ν)} (hs : Sorted m) {k : κ}
    {b : κ × ν} (hb : b ∈ seek m k) : compare b.1 k ≠ .lt := by
  induction m with
  | nil => simp [seek] at hb
  | cons a m ih =>
    unfold seek at hb
    rw [List.dropWhile_cons] at hb
    split at hb
    · exact ih hs.of_cons hb
    · -- the first binding kept is not below `k`, and the rest lie above it
      rename_i ha
      simp only [beq_iff_eq] at ha
      rcases List.mem_cons.mp hb with rfl | hb
      · exact ha
      · intro hlt
        exact ha (Std.TransCmp.lt_trans ((List.pairwise_cons.mp hs).1 b hb) hlt)

section Lawful

variable [Std.LawfulEqOrd κ] [DecidableEq κ]

omit [DecidableEq κ] in
theorem compare_self_eq (k : κ) : compare k k = .eq := Std.LawfulEqCmp.compare_eq_iff_eq.mpr rfl

theorem get_cons (k' : κ) (v : ν) (m : List (κ × ν)) (k : κ) :
    get ((k', v) :: m) k = if k = k' then some v else get m k := by
  simp only [get, Std.LawfulEqCmp.compare_eq_iff_eq]

theorem get_eq_none_iff {m : List (κ × ν)} {k : κ} : get m k = none ↔ ∀ b ∈ m, b.1 ≠ k := by
  induction m with
  | nil => simp
  | cons b m ih =>
    obtain ⟨k', v⟩ := b
    rw [get_cons]
    by_cases h : k = k'
    · subst h
      simp
    · simp [h, ih, Ne.symm h]

theorem mem_of_get {m : List (κ × ν)} {k : κ} {v : ν} (h : get m k = some v) : (k, v) ∈ m := by
  induction m with
  | nil => simp at h
  | cons b m ih =>
    obtain ⟨k', v'⟩ := b
    rw [get_cons] at h
    by_cases hk : k = k'
    · subst hk
      rw [if_pos rfl, Option.some.injEq] at h
      subst h
      exact List.mem_cons_self
    · rw [if_neg hk] at h
      exact List.mem_cons_of_mem _ (ih h)

/-- `Put` changes the value of `k` and of no other key. -/
theorem get_put (m : List (κ × ν)) (k : κ) (v : ν) (k' : κ) :
    get (put m k v) k' = if k' = k then some v else get m k' := by
  induction m with
  | nil => simp [put, get_cons]
  | cons b m ih =>
    obtain ⟨k₀, v₀⟩ := b
    cases hc : compare k k₀ with
    | lt => simp only [put, hc, get_cons]
    | eq =>
      have hk : k = k₀ := Std.LawfulEqCmp.compare_eq_iff_eq.mp hc
      subst hk
      simp only [put, hc, get_cons]
      split <;> rfl
    | gt =>
      have hk : k ≠ k₀ := fun h => by simp [h] at hc
      simp only [put, hc, get_cons, ih]
      by_cases h₀ : k' = k₀
      · subst h₀
        simp [Ne.symm hk]
      · simp [h₀]

omit [Std.LawfulEqOrd κ] [DecidableEq κ] in
theorem mem_put {m : List (κ × ν)} {k : κ} {v : ν} {b : κ × ν} (h : b ∈ put m k v) :
    b = (k, v) ∨ b ∈ m := by
  induction m with
  | nil => simpa [put] using h
  | cons b' m ih =>
    obtain ⟨k₀, v₀⟩ := b'
    unfold put at h
    split at h
    · simpa using h
    · rcases List.mem_cons.mp h with h | h
      · exact .inl h
      · exact .inr (List.mem_cons_of_mem _ h)
    · rcases List.mem_cons.mp h with h | h
      · exact .inr (h ▸ List.mem_cons_self)
      · rcases ih h with h | h
        · exact .inl h
        · exact .inr (List.mem_cons_of_mem _ h)

omit [Std.LawfulEqOrd κ] [DecidableEq κ] in
theorem mem_delete {m : List (κ × ν)} {k : κ} {b : κ × ν} (h : b ∈ delete m k) : b ∈ m := by
  induction m with
  | nil => simp [delete] at h
  | cons b' m ih =>
    unfold delete at h
    split at h
    · exact List.mem_cons_of_mem _ h
    · rcases List.mem_cons.mp h with h | h
      · exact h ▸ List.mem_cons_self
      · exact List.mem_cons_of_mem _ (ih h)

/-- Below every key of a sorted map, a key is unbound. -/
theorem get_eq_none_of_lt {m : List (κ × ν)} {k : κ} (h : ∀ b ∈ m, compare k b.1 = .lt) :
    get m k = none := by
  refine get_eq_none_iff.mpr fun b hb hk => ?_
  have hlt := h b hb
  rw [hk, compare_self_eq] at hlt
  exact absurd hlt (by decide)

omit [DecidableEq κ] in
theorem Sorted.put [Std.TransOrd κ] {m : List (κ × ν)} (hs : Sorted m) (k : κ) (v : ν) : Sorted (put m k v) := by
  induction m with
  | nil => simp [OrderedMap.put, Sorted]
  | cons b m ih =>
    obtain ⟨k₀, v₀⟩ := b
    have hrest : Sorted m := (List.pairwise_cons.mp hs).2
    have hlow : ∀ b ∈ m, compare k₀ b.1 = .lt := (List.pairwise_cons.mp hs).1
    unfold OrderedMap.put
    split
    · rename_i hc
      refine List.Pairwise.cons (fun b hb => ?_) hs
      rcases List.mem_cons.mp hb with hb | hb
      · exact hb ▸ hc
      · exact Std.TransCmp.lt_trans hc (hlow b hb)
    · rename_i hc
      have hk : k = k₀ := Std.LawfulEqCmp.compare_eq_iff_eq.mp hc
      subst hk
      exact List.Pairwise.cons hlow hrest
    · rename_i hc
      refine List.Pairwise.cons (fun b hb => ?_) (ih hrest)
      rcases mem_put hb with hb | hb
      · exact hb ▸ Std.OrientedCmp.gt_iff_lt.mp hc
      · exact hlow b hb

omit [Std.LawfulEqOrd κ] [DecidableEq κ] in
theorem Sorted.delete {m : List (κ × ν)} (hs : Sorted m) (k : κ) : Sorted (delete m k) := by
  induction m with
  | nil => simp [OrderedMap.delete, Sorted]
  | cons b m ih =>
    have hrest : Sorted m := (List.pairwise_cons.mp hs).2
    have hlow : ∀ b' ∈ m, compare b.1 b'.1 = .lt := (List.pairwise_cons.mp hs).1
    unfold OrderedMap.delete
    split
    · exact hrest
    · exact List.Pairwise.cons (fun b' hb' => hlow b' (mem_delete hb')) (ih hrest)

/-- On a sorted map, `Delete` unbinds `k` and changes no other key. -/
theorem get_delete {m : List (κ × ν)} (hs : Sorted m) (k k' : κ) :
    get (delete m k) k' = if k' = k then none else get m k' := by
  induction m with
  | nil => simp [delete]
  | cons b m ih =>
    obtain ⟨k₀, v₀⟩ := b
    have hrest : Sorted m := (List.pairwise_cons.mp hs).2
    have hlow : ∀ b ∈ m, compare k₀ b.1 = .lt := (List.pairwise_cons.mp hs).1
    unfold delete
    split
    · rename_i hc
      have hk : k = k₀ := Std.LawfulEqCmp.compare_eq_iff_eq.mp hc
      subst hk
      rw [get_cons]
      by_cases h : k' = k
      · subst h
        simp [get_eq_none_of_lt hlow]
      · simp [h]
    · rename_i hc
      have hk : k ≠ k₀ := fun h => hc (by simp [h])
      rw [get_cons, get_cons, ih hrest]
      by_cases h : k' = k
      · subst h
        simp [hk]
      · simp [h]

theorem get_of_mem {m : List (κ × ν)} (hs : Sorted m) {k : κ} {v : ν} (h : (k, v) ∈ m) :
    get m k = some v := by
  induction m with
  | nil => simp at h
  | cons b m ih =>
    obtain ⟨k₀, v₀⟩ := b
    have hlow : ∀ b ∈ m, compare k₀ b.1 = .lt := (List.pairwise_cons.mp hs).1
    rw [get_cons]
    rcases List.mem_cons.mp h with h | h
    · simp only [Prod.mk.injEq] at h
      obtain ⟨rfl, rfl⟩ := h
      simp
    · have hk : k ≠ k₀ := fun hk => by
        have := hlow _ h
        simp [hk] at this
      rw [if_neg hk]
      exact ih (List.pairwise_cons.mp hs).2 h

/-- On a sorted map a binding is held exactly when its key is bound to its value. -/
theorem mem_iff_get {m : List (κ × ν)} (hs : Sorted m) {b : κ × ν} : b ∈ m ↔ get m b.1 = some b.2 :=
  ⟨fun h => get_of_mem hs h, fun h => mem_of_get h⟩

/-- On a sorted map, `Put` holds the new binding and the bindings of the other keys. -/
theorem mem_put_iff [Std.TransOrd κ] {m : List (κ × ν)} (hs : Sorted m) {k : κ} {v : ν}
    {b : κ × ν} : b ∈ put m k v ↔ b = (k, v) ∨ (b ∈ m ∧ b.1 ≠ k) := by
  rw [mem_iff_get (hs.put k v), get_put, mem_iff_get hs]
  by_cases h : b.1 = k
  · obtain ⟨b₁, b₂⟩ := b
    simp only at h
    subst h
    simp [eq_comm]
  · simp [h, Prod.ext_iff]

/-- On a sorted map, `Delete` holds the bindings of the other keys. -/
theorem mem_delete_iff {m : List (κ × ν)} (hs : Sorted m) {k : κ} {b : κ × ν} :
    b ∈ delete m k ↔ b ∈ m ∧ b.1 ≠ k := by
  rw [mem_iff_get (hs.delete k), get_delete hs, mem_iff_get hs]
  by_cases h : b.1 = k <;> simp [h]

omit [DecidableEq κ] in
/-- Two sorted maps that hold the same bindings are equal. -/
theorem eq_of_mem_iff [Std.TransOrd κ] {m₁ m₂ : List (κ × ν)} (h₁ : Sorted m₁) (h₂ : Sorted m₂)
    (h : ∀ b, b ∈ m₁ ↔ b ∈ m₂) : m₁ = m₂ := by
  -- a sorted map holds each binding once, so the two are permutations of each other
  have hnodup : ∀ {m : List (κ × ν)}, Sorted m → m.Nodup := fun hs =>
    hs.imp fun hab heq => by
      rw [heq, compare_self_eq] at hab
      exact absurd hab (by decide)
  have hperm := (List.perm_ext_iff_of_nodup (hnodup h₁) (hnodup h₂)).mpr h
  refine hperm.eq_of_pairwise (fun a b _ _ hab hba => ?_) h₁ h₂
  -- two bindings cannot each lie below the other
  rw [← Std.OrientedCmp.gt_iff_lt, hab] at hba
  exact absurd hba (by decide)

/-- `Put` adds a key that satisfies `p` when it binds one that was unbound. -/
theorem countKeys_put [Std.TransOrd κ] (p : κ → Bool) {m : List (κ × ν)} (hs : Sorted m) (k : κ) (v : ν) :
    countKeys p (put m k v) = countKeys p m + if p k ∧ get m k = none then 1 else 0 := by
  induction m with
  | nil => by_cases h : p k <;> simp [put, countKeys, h]
  | cons b m ih =>
    obtain ⟨k₀, v₀⟩ := b
    have hlow : ∀ b ∈ m, compare k₀ b.1 = .lt := (List.pairwise_cons.mp hs).1
    cases hc : compare k k₀ with
    | lt =>
      -- `k` goes in front, below every key there
      have hnone : get ((k₀, v₀) :: m) k = none := get_eq_none_of_lt fun b hb => by
        rcases List.mem_cons.mp hb with hb | hb
        · exact hb ▸ hc
        · exact Std.TransCmp.lt_trans hc (hlow b hb)
      rw [put, hc, countKeys_cons, hnone]
      by_cases hp : p k <;> simp [hp]
    | eq =>
      have hk : k = k₀ := Std.LawfulEqCmp.compare_eq_iff_eq.mp hc
      subst hk
      simp [put, countKeys_cons, get_cons]
    | gt =>
      have hk : k ≠ k₀ := fun h => by simp [h] at hc
      rw [put, hc, countKeys_cons, countKeys_cons, ih (List.pairwise_cons.mp hs).2, get_cons,
        if_neg hk]
      omega

/-- `Delete` removes a key that satisfies `p` when it unbinds one that was bound. -/
theorem countKeys_delete (p : κ → Bool) (m : List (κ × ν)) (k : κ) :
    countKeys p (delete m k) + (if p k ∧ get m k ≠ none then 1 else 0) = countKeys p m := by
  induction m with
  | nil => simp [delete]
  | cons b m ih =>
    obtain ⟨k₀, v₀⟩ := b
    by_cases hk : k = k₀
    · subst hk
      simp [delete, countKeys_cons, get_cons]
    · have hc : ¬ compare k k₀ = .eq := fun h => hk (Std.LawfulEqCmp.compare_eq_iff_eq.mp h)
      rw [delete, if_neg hc, countKeys_cons, countKeys_cons, get_cons, if_neg hk, ← ih]
      omega

end Lawful

/-! ## Byte strings: the lexicographic order and prefixes -/

/-- A concatenation starts another whose head has the same length exactly when the heads agree
and the tail starts the other tail. -/
theorem append_prefix_append_iff {α : Type} {a a' b b' : List α} (h : a.length = a'.length) :
    a ++ b <+: a' ++ b' ↔ a = a' ∧ b <+: b' := by
  constructor
  · rintro ⟨t, ht⟩
    rw [List.append_assoc] at ht
    obtain ⟨rfl, hb⟩ := List.append_inj ht h
    exact ⟨rfl, t, hb⟩
  · rintro ⟨rfl, hb⟩
    exact (List.prefix_append_right_inj a).mpr hb

section Lists

variable {α : Type} [Ord α] [Std.TransOrd α] [Std.LawfulEqOrd α]

omit [Std.TransOrd α] in
theorem compare_append_left (p x y : List α) : compare (p ++ x) (p ++ y) = compare x y := by
  induction p with
  | nil => rfl
  | cons a p ih => simp [List.compare_cons_cons, ih]

omit [Std.TransOrd α] [Std.LawfulEqOrd α] in
/-- Two concatenations whose heads have one length compare by the heads, then by the tails. -/
theorem compare_append_of_length_eq {x x' : List α} (h : x.length = x'.length) (y y' : List α) :
    compare (x ++ y) (x' ++ y') = (compare x x').then (compare y y') := by
  induction x generalizing x' with
  | nil =>
    cases x' with
    | nil => rfl
    | cons _ _ => simp at h
  | cons a x ih =>
    cases x' with
    | nil => simp at h
    | cons a' x' =>
      simp only [List.length_cons, Nat.add_right_cancel_iff] at h
      simp only [List.cons_append, List.compare_cons_cons, ih h, Ordering.then_assoc]

omit [Std.TransOrd α] in
/-- A prefix is not above what it starts. -/
theorem compare_ne_gt_of_isPrefix {p k : List α} (h : p <+: k) : compare p k ≠ .gt := by
  induction p generalizing k with
  | nil => cases k <;> simp [List.compare_nil_cons]
  | cons a p ih =>
    obtain ⟨k', rfl, hk⟩ : ∃ k', k = a :: k' ∧ p <+: k' := by
      obtain ⟨t, rfl⟩ := h
      exact ⟨p ++ t, rfl, List.prefix_append p t⟩
    simp [List.compare_cons_cons, ih hk]

/-- A key at or above `p` that does not start with `p` lies above every key that does. -/
theorem compare_lt_of_not_isPrefix {p k k' : List α} (hk : compare k p ≠ .lt) (hnk : ¬ p <+: k)
    (hk' : p <+: k') : compare k' k = .lt := by
  induction p generalizing k k' with
  | nil => exact absurd (List.nil_prefix) hnk
  | cons a p ih =>
    obtain ⟨k'', rfl, hp⟩ : ∃ k'', k' = a :: k'' ∧ p <+: k'' := by
      obtain ⟨t, rfl⟩ := hk'
      exact ⟨p ++ t, rfl, List.prefix_append p t⟩
    cases k with
    | nil => simp [List.compare_nil_cons] at hk
    | cons b k₀ =>
      rw [List.compare_cons_cons] at hk
      rw [List.compare_cons_cons]
      cases hba : compare b a with
      | lt => simp [hba] at hk
      | gt => simp [Std.OrientedCmp.gt_iff_lt.mp hba]
      | eq =>
        have hb : b = a := Std.LawfulEqCmp.compare_eq_iff_eq.mp hba
        subst hb
        have hnk' : ¬ p <+: k₀ := fun h => hnk (List.cons_prefix_cons.mpr ⟨rfl, h⟩)
        simp only [hba, Ordering.eq_then] at hk
        simp [ih hk hnk' hp]

variable [BEq α] [LawfulBEq α] {ν : Type}

/-- On a sorted map, the cursor loop from `Seek(p)` that runs while its key starts with `p` visits
exactly the bindings whose key starts with `p`, in order. -/
theorem takeWhile_seek_isPrefixOf {m : List (List α × ν)} (hs : Sorted m) (p : List α) :
    (seek m p).takeWhile (fun b => p.isPrefixOf b.1) = m.filter (fun b => p.isPrefixOf b.1) := by
  induction m with
  | nil => rfl
  | cons b m ih =>
    have hrest : Sorted m := (List.pairwise_cons.mp hs).2
    have hlow : ∀ b' ∈ m, compare b.1 b'.1 = .lt := (List.pairwise_cons.mp hs).1
    by_cases hlt : compare b.1 p = .lt
    · -- below `p`: the cursor skips it, and it does not start with `p`
      have hnp : p.isPrefixOf b.1 = false := Bool.eq_false_iff.mpr fun h =>
        compare_ne_gt_of_isPrefix (List.isPrefixOf_iff_prefix.mp h) (Std.OrientedCmp.gt_iff_lt.mpr hlt)
      rw [seek, List.dropWhile_cons_of_pos (by simpa using hlt), ← seek, ih hrest,
        List.filter_cons_of_neg (p := fun b : List α × ν => p.isPrefixOf b.1) (by simp [hnp])]
    · rw [seek, List.dropWhile_cons_of_neg (by simpa using hlt)]
      by_cases hp : p <+: b.1
      · -- inside the block: every later key is above `p`, so the cursor reaches it
        have hp' : p.isPrefixOf b.1 = true := List.isPrefixOf_iff_prefix.mpr hp
        have hle : (compare p b.1).isLE = true := by
          cases hpb : compare p b.1 <;> simp_all [compare_ne_gt_of_isPrefix hp]
        have habove : ∀ b' ∈ m, compare b'.1 p ≠ .lt := fun b' hb' h =>
          absurd (Std.OrientedCmp.gt_iff_lt.mpr (Std.TransCmp.lt_of_isLE_of_lt hle (hlow b' hb')))
            (by simp [h])
        rw [List.takeWhile_cons_of_pos (p := fun b : List α × ν => p.isPrefixOf b.1) hp',
          List.filter_cons_of_pos (p := fun b : List α × ν => p.isPrefixOf b.1) hp', ← ih hrest,
          seek_eq_self habove]
      · -- the first key past the block: no later key starts with `p`
        have hp' : p.isPrefixOf b.1 = false :=
          Bool.eq_false_iff.mpr fun h => hp (List.isPrefixOf_iff_prefix.mp h)
        rw [List.takeWhile_cons_of_neg (p := fun b : List α × ν => p.isPrefixOf b.1) (by simp [hp']),
          List.filter_cons_of_neg (p := fun b : List α × ν => p.isPrefixOf b.1) (by simp [hp'])]
        symm
        refine List.filter_eq_nil_iff.mpr fun b' hb' hpb' => ?_
        have h₂ := compare_lt_of_not_isPrefix hlt hp (List.isPrefixOf_iff_prefix.mp hpb')
        have := Std.TransCmp.lt_trans (hlow b' hb') h₂
        rw [compare_self_eq] at this
        exact absurd this (by decide)

end Lists

/-- A list each element of which is an image under `f` is the image of a list: a scan whose keys
all encode entries is read as the list of those entries. -/
theorem exists_map_eq {α β : Type} {f : α → β} :
    ∀ {l : List β}, (∀ b ∈ l, ∃ a, f a = b) → ∃ t : List α, t.map f = l
  | [], _ => ⟨[], rfl⟩
  | b :: l, h => by
    obtain ⟨a, rfl⟩ := h b List.mem_cons_self
    obtain ⟨t, ht⟩ := exists_map_eq fun b hb => h b (List.mem_cons_of_mem _ hb)
    exact ⟨a :: t, by rw [List.map_cons, ht]⟩

end OrderedMap
