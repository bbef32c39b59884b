import Mathlib.Data.List.Basic

/-!
# Acknowledged logs

An append-only log, and one consumer's two positions in it: the entries below `read` have been
delivered, those below `confirmed` acknowledged, never more than were delivered. A read delivers
the entry at `read`; an acknowledgement moves `confirmed` forward, no further than `read`; a
rewind goes back to `confirmed`, so that what was delivered and not acknowledged is delivered
again; a seek moves both positions, back or only forward; and the producer appends.

Over every run:
* the log only grows, by what is appended (`run_log`), and an entry delivered is the log's entry
  at its index (`run_entry_getElem?`);
* without seeks, every entry acknowledged during the run was delivered during it
  (`run_delivered_of_confirmed`): no acknowledgement runs ahead of delivery;
* without a seek, acknowledgements are never withdrawn (`run_confirmed_mono`);
* without seeks and rewinds, delivery is in order, without gaps or repeats
  (`run_delivered_range'`).
-/

namespace AckLog

/-- An append-only log with a consumer's delivered and acknowledged positions. -/
structure State (α : Type) where
  log : List α
  read : Nat
  confirmed : Nat
  confirmed_le : confirmed ≤ read
  read_le : read ≤ log.length

/-- What the producer and the consumer ask. A target `k` is the position before entry `k`. -/
inductive Call (α : Type) where
  /-- The producer appends entries. -/
  | append (batch : List α)
  /-- Deliver the next entry. -/
  | read
  /-- Acknowledge the entries below `k`. -/
  | confirm (k : Nat)
  /-- Acknowledge everything delivered. -/
  | confirmAll
  /-- Go back to the acknowledged position. -/
  | rewind
  /-- Move both positions to `k`, back or forward. -/
  | seek (k : Nat)
  /-- Move both positions to `k`, never back past what was acknowledged. -/
  | seekForward (k : Nat)
  /-- Move both positions to the end of the log. -/
  | seekEnd
  deriving DecidableEq, Repr

/-- The answer to a call. -/
inductive Answer (α : Type) where
  /-- Entry `i` is delivered. -/
  | entry (i : Nat) (a : α)
  /-- There is nothing to deliver. -/
  | noData
  | ok
  /-- Both positions are now at `k`. -/
  | moved (k : Nat)
  | refused
  deriving DecidableEq, Repr

variable {α : Type}

namespace State

/-- The log extended, the positions kept. -/
def extend (s : State α) (batch : List α) : State α :=
  ⟨s.log ++ batch, s.read, s.confirmed, s.confirmed_le, by
    rw [List.length_append]
    exact Nat.le_trans s.read_le (Nat.le_add_right _ _)⟩

/-- The empty log, nothing delivered. -/
def empty : State α := ⟨[], 0, 0, Nat.le_refl _, Nat.le_refl _⟩

/-- Both positions at `k`. -/
def moveTo (s : State α) (k : Nat) (hk : k ≤ s.log.length) : State α :=
  ⟨s.log, k, k, Nat.le_refl _, hk⟩

end State

/-- One call. -/
def step (s : State α) : Call α → State α × Answer α
  | .append batch => (s.extend batch, .ok)
  | .read =>
    if h : s.read < s.log.length then
      (⟨s.log, s.read + 1, s.confirmed, Nat.le_succ_of_le s.confirmed_le, h⟩,
        .entry s.read s.log[s.read])
    else (s, .noData)
  | .confirm k =>
    if k ≤ s.confirmed then (s, .ok)
    else if h : k ≤ s.read then (⟨s.log, s.read, k, h, s.read_le⟩, .ok)
    else (s, .refused)
  | .confirmAll => (⟨s.log, s.read, s.read, Nat.le_refl _, s.read_le⟩, .ok)
  | .rewind => (s.moveTo s.confirmed (Nat.le_trans s.confirmed_le s.read_le), .moved s.confirmed)
  | .seek k => if h : k ≤ s.log.length then (s.moveTo k h, .moved k) else (s, .refused)
  | .seekForward k =>
    if k < s.confirmed then (s, .refused)
    else if h : k ≤ s.log.length then (s.moveTo k h, .moved k) else (s, .refused)
  | .seekEnd => (s.moveTo s.log.length (Nat.le_refl _), .moved s.log.length)

/-- Calls in turn, with their answers. -/
def run (s : State α) : List (Call α) → State α × List (Answer α)
  | [] => (s, [])
  | c :: cs => ((run (step s c).1 cs).1, (step s c).2 :: (run (step s c).1 cs).2)

@[simp] theorem run_nil (s : State α) : run s [] = (s, []) := rfl

@[simp] theorem run_cons (s : State α) (c : Call α) (cs : List (Call α)) :
    run s (c :: cs) = ((run (step s c).1 cs).1, (step s c).2 :: (run (step s c).1 cs).2) := rfl

/-- The entries a call appends. -/
def Call.appended : Call α → List α
  | .append batch => batch
  | _ => []

/-- A call that moves the positions other than by reading or acknowledging. -/
def Call.seeks : Call α → Bool
  | .seek _ | .seekForward _ | .seekEnd => true
  | _ => false

/-- A call that may move the acknowledged position back. -/
def Call.seeksBack : Call α → Bool
  | .seek _ => true
  | _ => false

/-- A call that may move the read position back. -/
def Call.moves : Call α → Bool
  | .rewind => true
  | c => c.seeks

/-- The index an answer delivers. -/
def Answer.delivered : Answer α → Option Nat
  | .entry i _ => some i
  | _ => none

/-! ## The log -/

theorem step_log (s : State α) (c : Call α) : (step s c).1.log = s.log ++ c.appended := by
  cases c <;> simp only [step, Call.appended, State.extend, State.moveTo, List.append_nil] <;>
    split_ifs <;> rfl

/-- The log after a run is the log before it and the batches appended, in order. -/
theorem run_log (s : State α) (cs : List (Call α)) :
    (run s cs).1.log = s.log ++ (cs.map Call.appended).flatten := by
  induction cs generalizing s with
  | nil => simp
  | cons c cs ih => rw [run_cons, ih, step_log, List.map_cons, List.flatten_cons, List.append_assoc]

/-- A call delivers the log's entry at its index. -/
theorem step_entry {s : State α} {c : Call α} {i : Nat} {a : α} (h : (step s c).2 = .entry i a) :
    s.log[i]? = some a := by
  cases c with
  | read =>
    simp only [step] at h
    split_ifs at h with hr
    · simp only [Answer.entry.injEq] at h
      obtain ⟨rfl, rfl⟩ := h
      exact List.getElem?_eq_getElem hr
  | confirm k | seek k | seekForward k =>
    simp only [step] at h
    split_ifs at h
  | append _ | confirmAll | rewind | seekEnd => cases h

/-- A delivered entry is the log's entry at its index, and stays so. -/
theorem run_entry_getElem? (s : State α) (cs : List (Call α)) {i : Nat} {a : α}
    (h : Answer.entry i a ∈ (run s cs).2) : (run s cs).1.log[i]? = some a := by
  induction cs generalizing s with
  | nil => simp at h
  | cons c cs ih =>
    simp only [run_cons] at h ⊢
    rcases List.mem_cons.mp h with h | h
    · have he := step_entry h.symm
      obtain ⟨hi, -⟩ := List.getElem?_eq_some_iff.mp he
      rw [run_log, step_log, List.append_assoc, List.getElem?_append_left hi]
      exact he
    · exact ih _ h

/-! ## Delivery before acknowledgement -/

/-- A call that does not seek leaves below the read position only what was below it, or what it
delivers. -/
theorem step_lt_read {s : State α} {c : Call α} (hc : c.seeks = false) {k : Nat}
    (hk : k < (step s c).1.read) : k < s.read ∨ (step s c).2.delivered = some k := by
  cases c with
  | read =>
    simp only [step] at hk ⊢
    split_ifs at hk ⊢ with h
    · dsimp only at hk ⊢
      simp only [Answer.delivered, Option.some.injEq]
      omega
    · exact Or.inl hk
  | confirm k' =>
    simp only [step] at hk
    split_ifs at hk <;> exact Or.inl hk
  | rewind =>
    simp only [step, State.moveTo] at hk
    exact Or.inl (Nat.lt_of_lt_of_le hk s.confirmed_le)
  | seek _ | seekForward _ | seekEnd => simp [Call.seeks] at hc
  | append _ | confirmAll => exact Or.inl hk

/-- Without seeks, what lies below the read position after a run lay below it before, or was
delivered during the run. The induction is on the calls, each step `step_lt_read`. -/
theorem run_lt_read {s : State α} {cs : List (Call α)} (hcs : ∀ c ∈ cs, c.seeks = false)
    {k : Nat} (hk : k < (run s cs).1.read) :
    k < s.read ∨ some k ∈ (run s cs).2.map Answer.delivered := by
  induction cs generalizing s with
  | nil => exact Or.inl hk
  | cons c cs ih =>
    rw [run_cons] at hk ⊢
    rcases ih (fun c' hc' => hcs c' (List.mem_cons_of_mem c hc')) hk with h | h
    · rcases step_lt_read (hcs c List.mem_cons_self) h with h | h
      · exact Or.inl h
      · exact Or.inr (by rw [List.map_cons, h]; exact List.mem_cons_self)
    · exact Or.inr (by rw [List.map_cons]; exact List.mem_cons_of_mem _ h)

/-- At least once: without seeks, an entry acknowledged during a run, past the read position it
started from, was delivered during the run. -/
theorem run_delivered_of_confirmed {s : State α} {cs : List (Call α)}
    (hcs : ∀ c ∈ cs, c.seeks = false) {k : Nat} (hsk : s.read ≤ k)
    (hk : k < (run s cs).1.confirmed) : ∃ a, Answer.entry k a ∈ (run s cs).2 := by
  rcases run_lt_read hcs (Nat.lt_of_lt_of_le hk (run s cs).1.confirmed_le) with h | h
  · omega
  · obtain ⟨ans, hmem, hd⟩ := List.mem_map.mp h
    cases ans with
    | entry i a =>
      simp only [Answer.delivered, Option.some.injEq] at hd
      exact ⟨a, hd ▸ hmem⟩
    | _ => simp [Answer.delivered] at hd

/-! ## Acknowledgements stay -/

/-- Only a seek moves the acknowledged position back. -/
theorem confirmed_le_step {s : State α} {c : Call α} (hc : c.seeksBack = false) :
    s.confirmed ≤ (step s c).1.confirmed := by
  cases c with
  | read =>
    simp only [step]
    split_ifs <;> exact Nat.le_refl _
  | confirm k =>
    simp only [step]
    split_ifs with h₁ h₂
    · exact Nat.le_refl _
    · exact Nat.le_of_lt (Nat.lt_of_not_le h₁)
    · exact Nat.le_refl _
  | confirmAll => exact s.confirmed_le
  | seekForward k =>
    simp only [step]
    split_ifs with h₁ h₂
    · exact Nat.le_refl _
    · exact Nat.le_of_not_lt h₁
    · exact Nat.le_refl _
  | seekEnd => exact Nat.le_trans s.confirmed_le s.read_le
  | seek k => simp [Call.seeksBack] at hc
  | append _ | rewind => exact Nat.le_refl _

/-- Without a seek, acknowledgements are never withdrawn. -/
theorem run_confirmed_mono {s : State α} {cs : List (Call α)}
    (hcs : ∀ c ∈ cs, c.seeksBack = false) : s.confirmed ≤ (run s cs).1.confirmed := by
  induction cs generalizing s with
  | nil => exact Nat.le_refl _
  | cons c cs ih =>
    rw [run_cons]
    exact Nat.le_trans (confirmed_le_step (hcs c List.mem_cons_self))
      (ih fun c' hc' => hcs c' (List.mem_cons_of_mem c hc'))

/-! ## Delivery in order -/

/-- A call that does not move the positions back or aside either delivers the entry at the read
position and moves past it, or delivers nothing and leaves the read position. -/
theorem step_forward {s : State α} {c : Call α} (hc : c.moves = false) :
    ((step s c).2.delivered = none ∧ (step s c).1.read = s.read) ∨
      ((step s c).2.delivered = some s.read ∧ (step s c).1.read = s.read + 1) := by
  cases c with
  | read =>
    simp only [step]
    split_ifs
    · exact Or.inr ⟨rfl, rfl⟩
    · exact Or.inl ⟨rfl, rfl⟩
  | confirm k =>
    simp only [step]
    split_ifs <;> exact Or.inl ⟨rfl, rfl⟩
  | rewind | seek _ | seekForward _ | seekEnd => simp [Call.moves, Call.seeks] at hc
  | append _ | confirmAll => exact Or.inl ⟨rfl, rfl⟩

/-- Exactly once, in order: without rewinds and seeks, a run delivers the entries from its read
position on, one after the other, and its read position ends past the last. -/
theorem run_delivered_range' (s : State α) {cs : List (Call α)} (hcs : ∀ c ∈ cs, c.moves = false) :
    ∃ n, (run s cs).2.filterMap Answer.delivered = List.range' s.read n ∧
      (run s cs).1.read = s.read + n := by
  induction cs generalizing s with
  | nil => exact ⟨0, rfl, rfl⟩
  | cons c cs ih =>
    obtain ⟨n, hn, hr⟩ := ih (step s c).1 fun c' hc' => hcs c' (List.mem_cons_of_mem c hc')
    rw [run_cons, List.filterMap_cons]
    rcases step_forward (s := s) (hcs c List.mem_cons_self) with ⟨hd, hs⟩ | ⟨hd, hs⟩
    · exact ⟨n, by rw [hd, hn, hs], by rw [hr, hs]⟩
    · refine ⟨n + 1, ?_, by rw [hr, hs]; omega⟩
      rw [hd, hn, hs, List.range'_succ]

end AckLog
