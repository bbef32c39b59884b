import Mathlib.Data.Nat.Find
import Nsq.Channel.Intervals

/-!
# Confirmation is the finished prefix

A channel confirmed at virtual offset `c0` after `k0` messages reads the next messages in order:
message `i` occupies `[msgOffset i, msgOffset (i + 1))` and its count index is `k0 + i + 1`
(`Consecutive`). Its consumers finish them in any order, each finish a `ConfirmBackendQueue`.

`confirmAll_spec`: after any sequence of finishes, repeats allowed, the confirmed offset and count
are those at the first message not finished (`firstGap`), `confirmedMsgs` holds exactly the
maximal runs of finished messages above it (`IsRun`), in order, and finishing a finished message
again, or any message below the confirmed offset, changes nothing.

The invariant is `Summarizes`, the same statement with "every finished message above the first
gap lies in an interval" in place of "every maximal run is an interval". The step splits four
ways on the finished message: below the gap (nothing happens), finished already (its own run is
found and put back), a new one above the gap (it merges with the runs ending just before it and
starting just after it), or the gap itself (it merges with the run after it, and the confirmed
offset moves to that run's end). What `AddOrMerge` and `DeleteLower` do is taken from
`mem_addOrMerge`, `gapped_addOrMerge` and `deleteLower_eq_filter`; here only the runs are counted.
-/

namespace Nsq

open QueueInterval IntervalSkipList

section Messages

variable (c0 k0 : Int) (msgs : List Message)

/-- The virtual offset where message `i` starts: `c0` and the sizes of the messages before it. -/
def msgOffset (i : Nat) : Int := c0 + ((msgs.take i).map Message.rawMoveSize).sum

/-- The interval of messages `a` to `b - 1`, with the count at its end. -/
def runInterval (a b : Nat) : QueueInterval := ⟨msgOffset c0 msgs a, msgOffset c0 msgs b, k0 + b⟩

@[simp] theorem runInterval_start (a b : Nat) :
    (runInterval c0 k0 msgs a b).start = msgOffset c0 msgs a := rfl

@[simp] theorem runInterval_end (a b : Nat) :
    (runInterval c0 k0 msgs a b).«end» = msgOffset c0 msgs b := rfl

@[simp] theorem runInterval_endCnt (a b : Nat) :
    (runInterval c0 k0 msgs a b).endCnt = k0 + b := rfl

/-- The messages read after `c0` and `k0`, in order: each starts where the one before ended and
counts one more; none is empty, and none is a channel-delayed one. -/
def Consecutive : Prop :=
  ∀ i (h : i < msgs.length), msgs[i].offset = msgOffset c0 msgs i ∧
    msgs[i].queueCntIndex = k0 + i + 1 ∧ 0 < msgs[i].rawMoveSize ∧
    msgs[i].delayedType ≠ channelDelayed

instance : Decidable (Consecutive c0 k0 msgs) :=
  inferInstanceAs (Decidable (∀ i (h : i < msgs.length), msgs[i].offset = msgOffset c0 msgs i ∧
    msgs[i].queueCntIndex = k0 + i + 1 ∧ 0 < msgs[i].rawMoveSize ∧
    msgs[i].delayedType ≠ channelDelayed))

variable [SkipList QueueInterval start]

/-- Finishing the messages `is` in turn, from `c0`, `k0` and nothing finished above. -/
def confirmAll (is : List (Fin msgs.length)) : ConfirmState :=
  is.foldl (fun c i => (confirmBackendQueue c msgs[i]).1) ⟨c0, k0, []⟩

end Messages

/-- The first index below `n` that is not in `acked`, or `n`. -/
def firstGap (acked : List Nat) (n : Nat) : Nat :=
  Nat.find (⟨n, Or.inl (Nat.le_refl n)⟩ : ∃ j, n ≤ j ∨ j ∉ acked)

/-- `[a, b)` is a maximal run of `acked` above `j`, below `n`. -/
structure IsRun (acked : List Nat) (n j a b : Nat) : Prop where
  above : j < a
  lt : a < b
  le : b ≤ n
  mem : ∀ l, a ≤ l → l < b → l ∈ acked
  prev : a - 1 ∉ acked
  next : b < n → b ∉ acked

section FirstGap

variable {acked : List Nat} {n : Nat}

theorem firstGap_le : firstGap acked n ≤ n := Nat.find_min' _ (Or.inl (Nat.le_refl n))

theorem mem_of_lt_firstGap {l : Nat} (h : l < firstGap acked n) : l ∈ acked := by
  have := Nat.find_min (⟨n, Or.inl (Nat.le_refl n)⟩ : ∃ j, n ≤ j ∨ j ∉ acked) h
  simp only [not_or, not_not] at this
  exact this.2

theorem firstGap_not_mem (h : firstGap acked n < n) : firstGap acked n ∉ acked := by
  have := Nat.find_spec (⟨n, Or.inl (Nat.le_refl n)⟩ : ∃ j, n ≤ j ∨ j ∉ acked)
  exact this.resolve_left (by unfold firstGap at h; omega)

/-- `firstGap` is the `b` with everything below it acknowledged and itself not, or `n`. -/
theorem firstGap_eq {b : Nat} (hb : b ≤ n) (hbelow : ∀ l < b, l ∈ acked)
    (hgap : b < n → b ∉ acked) : firstGap acked n = b := by
  apply Nat.le_antisymm
  · apply Nat.find_min'
    by_cases h : b < n
    · exact Or.inr (hgap h)
    · exact Or.inl (by omega)
  · by_contra hlt
    have hle : firstGap acked n ≤ n := firstGap_le
    exact @firstGap_not_mem acked n (by omega) (hbelow _ (by omega))

/-- `firstGap` only sees what `acked` holds. -/
theorem firstGap_congr {acked' : List Nat} (h : ∀ l, l ∈ acked ↔ l ∈ acked') :
    firstGap acked n = firstGap acked' n :=
  firstGap_eq firstGap_le (fun l hl => (h l).mpr (mem_of_lt_firstGap hl))
    fun hlt hm => firstGap_not_mem hlt ((h _).mp hm)

end FirstGap

namespace IsRun

variable {acked : List Nat} {n j a b a' b' : Nat}

theorem start_le (h : IsRun acked n j a b) : a ≤ n := by
  have := h.lt
  have := h.le
  omega

/-- Two maximal runs that share an index are the same run. -/
theorem eq_of_mem (h : IsRun acked n j a b) (h' : IsRun acked n j a' b') {l : Nat}
    (hl : a ≤ l ∧ l < b) (hl' : a' ≤ l ∧ l < b') : a = a' ∧ b = b' := by
  -- a start inside the other run would have its predecessor finished, an end its successor
  have ha : a = a' := by
    by_contra hne
    rcases Nat.lt_or_gt_of_ne hne with hlt | hlt
    · exact h'.prev (h.mem (a' - 1) (by omega) (by omega))
    · exact h.prev (h'.mem (a - 1) (by omega) (by omega))
  have hb : b = b' := by
    by_contra hne
    rcases Nat.lt_or_gt_of_ne hne with hlt | hlt
    · exact h.next (by have := h'.le; omega) (h'.mem b (by omega) hlt)
    · exact h'.next (by have := h.le; omega) (h.mem b' (by omega) hlt)
  exact ⟨ha, hb⟩

/-- A maximal run that ends at, or starts just after, an index of another run is that run. -/
theorem eq_of_near (h : IsRun acked n j a b) (h' : IsRun acked n j a' b') {i : Nat}
    (hi : a ≤ i ∧ i < b) (hnear : i ≤ b' ∧ a' ≤ i + 1) : a = a' ∧ b = b' := by
  have hmem := h.mem i hi.1 hi.2
  -- the other run can neither end at `i` nor start just after it: `i` is finished
  have hb' : b' ≠ i := fun e => h'.next (by have := h.le; omega) (e ▸ hmem)
  have ha' : a' ≠ i + 1 := fun e => h'.prev (by rw [e, Nat.add_sub_cancel]; exact hmem)
  exact h.eq_of_mem h' hi ⟨by omega, by omega⟩

/-- A maximal run that reaches an unfinished index ends at it or starts just after it. -/
theorem beside_of_not_mem (h : IsRun acked n j a b) {i : Nat} (hi : i ∉ acked)
    (hnear : i ≤ b ∧ a ≤ i + 1) : b = i ∨ a = i + 1 := by
  have : ¬ (a ≤ i ∧ i < b) := fun hin => hi (h.mem i hin.1 hin.2)
  omega

/-- A maximal run that does not reach a newly finished index stays maximal. -/
theorem cons_of_far (h : IsRun acked n j a b) {i j' : Nat} (hfar : ¬ (i ≤ b ∧ a ≤ i + 1))
    (hj' : j' < a) : IsRun (i :: acked) n j' a b where
  above := hj'
  lt := h.lt
  le := h.le
  mem l h₁ h₂ := List.mem_cons_of_mem _ (h.mem l h₁ h₂)
  prev hm := (List.mem_cons.mp hm).elim (fun _ => by have := h.lt; omega) h.prev
  next hb hm := (List.mem_cons.mp hm).elim (fun _ => by have := h.lt; omega) (h.next hb)

/-- Maximal runs only see what `acked` holds. -/
theorem congr {acked' : List Nat} (h : IsRun acked n j a b) (hm : ∀ l, l ∈ acked ↔ l ∈ acked') :
    IsRun acked' n j a b where
  above := h.above
  lt := h.lt
  le := h.le
  mem l h₁ h₂ := (hm l).mp (h.mem l h₁ h₂)
  prev hp := h.prev ((hm _).mpr hp)
  next hb hp := h.next hb ((hm _).mpr hp)

end IsRun

section Offsets

variable {c0 k0 : Int} {msgs : List Message}

theorem msgOffset_succ {i : Nat} (hi : i < msgs.length) :
    msgOffset c0 msgs (i + 1) = msgOffset c0 msgs i + msgs[i].rawMoveSize := by
  rw [msgOffset, msgOffset, List.take_add_one, List.getElem?_eq_getElem hi]
  simp only [Option.toList_some, List.map_append, List.map_cons, List.map_nil, List.sum_append,
    List.sum_cons, List.sum_nil]
  omega

variable (hc : Consecutive c0 k0 msgs)
include hc

/-- Offsets grow with the index, strictly, up to the end of the messages. -/
theorem msgOffset_lt_msgOffset {a b : Nat} (hab : a < b) (hb : b ≤ msgs.length) :
    msgOffset c0 msgs a < msgOffset c0 msgs b := by
  induction b with
  | zero => omega
  | succ b ih =>
    have hsize := (hc b (by omega)).2.2.1
    rw [msgOffset_succ (by omega)]
    rcases Nat.lt_succ_iff_lt_or_eq.mp hab with hlt | rfl
    · have := ih hlt (by omega)
      omega
    · omega

theorem msgOffset_lt_iff {a b : Nat} (ha : a ≤ msgs.length) (hb : b ≤ msgs.length) :
    msgOffset c0 msgs a < msgOffset c0 msgs b ↔ a < b := by
  constructor
  · intro h
    by_contra hba
    rcases Nat.lt_or_ge b a with hlt | hge
    · have := msgOffset_lt_msgOffset hc hlt ha
      omega
    · have : a = b := by omega
      subst this
      omega
  · exact fun h => msgOffset_lt_msgOffset hc h hb

theorem msgOffset_le_iff {a b : Nat} (ha : a ≤ msgs.length) (hb : b ≤ msgs.length) :
    msgOffset c0 msgs a ≤ msgOffset c0 msgs b ↔ a ≤ b := by
  have := msgOffset_lt_iff hc hb ha
  omega

theorem c0_le_msgOffset {a : Nat} (ha : a ≤ msgs.length) : c0 ≤ msgOffset c0 msgs a := by
  have := (msgOffset_le_iff hc (Nat.zero_le _) ha).mpr (Nat.zero_le a)
  simpa [msgOffset] using this

/-- The interval `ConfirmBackendQueue` adds for message `i` is the run of that one message. -/
theorem msgInterval_eq {i : Nat} (hi : i < msgs.length) :
    (⟨msgs[i].offset, msgs[i].offset + msgs[i].rawMoveSize, msgs[i].queueCntIndex⟩ :
      QueueInterval) = runInterval c0 k0 msgs i (i + 1) := by
  obtain ⟨hoff, hcnt, -, -⟩ := hc i hi
  simp only [runInterval, msgOffset_succ hi, hoff, hcnt]
  congr 1
  omega

/-- The interval of a nonempty run is nonempty. -/
theorem runInterval_start_lt {a b : Nat} (hab : a < b) (hb : b ≤ msgs.length) :
    (runInterval c0 k0 msgs a b).start < (runInterval c0 k0 msgs a b).«end» :=
  msgOffset_lt_msgOffset hc hab hb

/-- Message `i`'s interval touches the run `[a, b)` when the run ends at or after `i` and starts
at or before `i + 1`. -/
theorem touches_runInterval {i a b : Nat} (hi : i < msgs.length) (hb : b ≤ msgs.length)
    (ha : a ≤ msgs.length) :
    Touches (runInterval c0 k0 msgs i (i + 1)) (runInterval c0 k0 msgs a b) ↔
      i ≤ b ∧ a ≤ i + 1 := by
  unfold Touches runInterval
  dsimp only
  rw [msgOffset_le_iff hc (by omega) hb, msgOffset_le_iff hc ha (by omega)]

end Offsets

/-! ## The invariant -/

section Summary

variable (c0 k0 : Int) (msgs : List Message)

/-- The invariant of a run of finishes, `acked` the messages finished so far: the confirmed
offset and count are at the first message not finished, and `confirmedMsgs` holds gapped
intervals, each a maximal run of finished messages above it, that cover every finished message
there. -/
structure Summarizes (acked : List Nat) (c : ConfirmState) : Prop where
  confirmed_eq : c.confirmed = msgOffset c0 msgs (firstGap acked msgs.length)
  confirmedCnt_eq : c.confirmedCnt = k0 + firstGap acked msgs.length
  gapped : Gapped c.confirmedMsgs
  runs : ∀ r ∈ c.confirmedMsgs, ∃ a b,
    IsRun acked msgs.length (firstGap acked msgs.length) a b ∧ r = runInterval c0 k0 msgs a b
  covered : ∀ l, firstGap acked msgs.length < l → l < msgs.length → l ∈ acked →
    ∃ a b, IsRun acked msgs.length (firstGap acked msgs.length) a b ∧ a ≤ l ∧ l < b ∧
      runInterval c0 k0 msgs a b ∈ c.confirmedMsgs

/-- Nothing finished: confirmed where the channel started, nothing held. -/
theorem summarizes_nil : Summarizes c0 k0 msgs [] ⟨c0, k0, []⟩ := by
  have hgap : firstGap [] msgs.length = 0 :=
    firstGap_eq (Nat.zero_le _) (fun _ h => absurd h (Nat.not_lt_zero _))
      fun _ => List.not_mem_nil
  refine ⟨?_, ?_, ⟨List.Pairwise.nil, fun _ h => absurd h List.not_mem_nil⟩,
    fun _ h => absurd h List.not_mem_nil, fun _ _ _ h => absurd h List.not_mem_nil⟩
  · simp [hgap, msgOffset]
  · simp [hgap]

variable {c0 k0 msgs}

/-- The invariant only sees what `acked` holds. -/
theorem Summarizes.congr {acked acked' : List Nat} {c : ConfirmState}
    (hS : Summarizes c0 k0 msgs acked c) (h : ∀ l, l ∈ acked ↔ l ∈ acked') :
    Summarizes c0 k0 msgs acked' c := by
  have hj := @firstGap_congr acked msgs.length acked' h
  refine ⟨hj ▸ hS.confirmed_eq, hj ▸ hS.confirmedCnt_eq, hS.gapped, fun r hr => ?_,
    fun l hjl hl hm => ?_⟩
  · obtain ⟨a, b, hrun, rfl⟩ := hS.runs r hr
    exact ⟨a, b, hj ▸ hrun.congr h, rfl⟩
  · rw [← hj] at hjl ⊢
    obtain ⟨a, b, hrun, hal, hlb, hmem⟩ := hS.covered l hjl hl ((h l).mpr hm)
    exact ⟨a, b, hrun.congr h, hal, hlb, hmem⟩

end Summary

/-! ## One finish -/

section Step

variable [SkipList QueueInterval start]
variable {c0 k0 : Int} {msgs : List Message} (hc : Consecutive c0 k0 msgs) {acked : List Nat}
  {c : ConfirmState} (hS : Summarizes c0 k0 msgs acked c) {i : Nat} (hi : i < msgs.length)
include hc hS hi

/-- A message below the first gap lies below the confirmed offset. -/
theorem confirm_of_lt_firstGap (hlt : i < firstGap acked msgs.length) :
    (confirmBackendQueue c msgs[i]).1 = c := by
  apply confirmBackendQueue_of_lt
  rw [(hc i hi).1, hS.confirmed_eq]
  exact msgOffset_lt_msgOffset hc hlt firstGap_le

/-- A finished message above the first gap lies in a run that is held: adding its interval again
merges it into that run and changes nothing. -/
theorem addOrMerge_of_mem_run {a b : Nat}
    (hrun : IsRun acked msgs.length (firstGap acked msgs.length) a b) (hab : a ≤ i ∧ i < b)
    (hmem : runInterval c0 k0 msgs a b ∈ c.confirmedMsgs) :
    addOrMerge c.confirmedMsgs (runInterval c0 k0 msgs i (i + 1)) =
      (c.confirmedMsgs, runInterval c0 k0 msgs a b) := by
  have hii := runInterval_start_lt hc (Nat.lt_add_one i) hi
  have hT : Touches (runInterval c0 k0 msgs i (i + 1)) (runInterval c0 k0 msgs a b) :=
    (touches_runInterval hc hi hrun.le hrun.start_le).mpr ⟨by omega, by omega⟩
  -- the run of `i` is the only interval that touches its interval
  have honly : ∀ r ∈ c.confirmedMsgs, Touches (runInterval c0 k0 msgs i (i + 1)) r →
      r = runInterval c0 k0 msgs a b := by
    intro r hr hTr
    obtain ⟨a', b', hrun', rfl⟩ := hS.runs r hr
    obtain ⟨rfl, rfl⟩ := hrun.eq_of_near hrun' hab
      ((touches_runInterval hc hi hrun'.le hrun'.start_le).mp hTr)
    rfl
  have hmerged : (addOrMerge c.confirmedMsgs (runInterval c0 k0 msgs i (i + 1))).2 =
      runInterval c0 k0 msgs a b := by
    obtain ⟨hs₁, hs₂, hs₃⟩ := addOrMerge_start hS.gapped.wellFormed (Int.le_of_lt hii)
    obtain ⟨he₁, he₂, he₃⟩ := addOrMerge_end hS.gapped.wellFormed (Int.le_of_lt hii)
    have hsa := hs₃ _ hmem hT
    have heb := he₃ _ hmem hT
    have hai := (msgOffset_le_iff hc (by omega) (by omega)).mpr hab.1
    simp only [runInterval_start, runInterval_end] at hs₂ hsa heb he₂
    -- the merge starts where the run does, and ends where it does
    have hstart : (addOrMerge c.confirmedMsgs (runInterval c0 k0 msgs i (i + 1))).2.start =
        msgOffset c0 msgs a := by
      rcases hs₁ with h | ⟨r, hr, hTr, h⟩
      · rw [runInterval_start] at h
        omega
      · rw [h, honly r hr hTr, runInterval_start]
    have hend : (addOrMerge c.confirmedMsgs (runInterval c0 k0 msgs i (i + 1))).2.«end» =
        msgOffset c0 msgs b ∧
        (addOrMerge c.confirmedMsgs (runInterval c0 k0 msgs i (i + 1))).2.endCnt = k0 + b := by
      rcases he₁ with ⟨h, hcnt⟩ | ⟨r, hr, hTr, h, hcnt⟩
      · -- ending with `i` itself, the run ends at `i + 1`
        rw [runInterval_end] at h
        rw [runInterval_endCnt] at hcnt
        have hb : b ≤ i + 1 :=
          (msgOffset_le_iff hc hrun.le (show i + 1 ≤ msgs.length from hi)).mp (by omega)
        have hb' : b = i + 1 := by omega
        subst hb'
        exact ⟨h, hcnt⟩
      · rw [honly r hr hTr] at h hcnt
        exact ⟨h, hcnt⟩
    ext
    · exact hstart
    · exact hend.1
    · exact hend.2
  refine Prod.ext ?_ hmerged
  -- the list keeps its members: the run goes out and comes back as the merge
  have hg := hS.gapped
  apply SortedList.eq_of_mem_iff start (gapped_addOrMerge hg hii).sorted hg.sorted
  intro x
  rw [mem_addOrMerge hg.wellFormed (Int.le_of_lt hii), hmerged]
  constructor
  · rintro (rfl | ⟨hx, -⟩)
    · exact hmem
    · exact hx
  · intro hx
    by_cases hTx : Touches (runInterval c0 k0 msgs i (i + 1)) x
    · exact Or.inl (honly x hx hTx)
    · exact Or.inr ⟨hx, hTx⟩

/-- A finished message above the first gap is held already: finishing it again changes
nothing. -/
theorem confirm_of_mem_above (hji : firstGap acked msgs.length < i) (hm : i ∈ acked) :
    (confirmBackendQueue c msgs[i]).1 = c := by
  obtain ⟨a, b, hrun, hai, hib, hmem⟩ := hS.covered i hji hi hm
  have hadd := addOrMerge_of_mem_run hc hS hi hrun ⟨hai, hib⟩ hmem
  -- the run lies above the confirmed offset, so the merge is only stored
  have hjn : firstGap acked msgs.length ≤ msgs.length := firstGap_le
  have hja := (msgOffset_lt_iff hc hjn hrun.start_le).mpr hrun.above
  have hjb := (msgOffset_lt_iff hc hjn hrun.le).mpr (by have := hrun.lt; omega)
  have hji' := (msgOffset_le_iff hc hjn (Nat.le_of_lt hi)).mpr (Nat.le_of_lt hji)
  rw [confirmBackendQueue_of_above (msgInterval_eq hc hi) (hc i hi).2.2.2
    (by rw [(hc i hi).1, hS.confirmed_eq]; exact hji')
    (by rw [hadd, hS.confirmed_eq]; exact hja) (by rw [hadd, hS.confirmed_eq]; exact hjb), hadd]

/-- Finishing a finished message again changes nothing. -/
theorem confirm_of_mem (hm : i ∈ acked) : (confirmBackendQueue c msgs[i]).1 = c := by
  rcases Nat.lt_or_ge i (firstGap acked msgs.length) with hlt | hge
  · exact confirm_of_lt_firstGap hc hS hi hlt
  · -- the first gap is not finished, so `i` lies above it
    have hne : firstGap acked msgs.length ≠ i := fun e =>
      firstGap_not_mem (e ▸ hi) (e ▸ hm)
    exact confirm_of_mem_above hc hS hi (by omega) hm

/-- Where the merge of a new message starts: at the run ending at it, or at the message itself
when no finished message above the gap stands just below it. -/
theorem merged_start_new (hni : i ∉ acked) :
    ∃ a, (addOrMerge c.confirmedMsgs (runInterval c0 k0 msgs i (i + 1))).2.start =
        msgOffset c0 msgs a ∧ firstGap acked msgs.length ≤ a ∧ a ≤ i ∧
      (∀ l, a ≤ l → l < i → l ∈ acked) ∧ (firstGap acked msgs.length < a → a - 1 ∉ i :: acked) := by
  have hii := runInterval_start_lt hc (Nat.lt_add_one i) hi
  have hj : firstGap acked msgs.length ≤ i :=
    Nat.le_of_not_lt fun h => hni (mem_of_lt_firstGap h)
  obtain ⟨hs₁, hs₂, hs₃⟩ := addOrMerge_start hS.gapped.wellFormed (Int.le_of_lt hii)
  rcases hs₁ with hstart | ⟨r, hr, hT, hstart⟩
  · -- the message starts the merge: the one before it is the gap, or not finished
    refine ⟨i, hstart, hj, Nat.le_refl i, fun l h₁ h₂ => absurd h₂ (by omega), fun hja hmem => ?_⟩
    have hprev : i - 1 ∈ acked := (List.mem_cons.mp hmem).resolve_left (by omega)
    have hjlt : firstGap acked msgs.length < i - 1 := by
      rcases Nat.lt_or_eq_of_le (show firstGap acked msgs.length ≤ i - 1 by omega) with h | h
      · exact h
      · exact absurd (h ▸ hprev) (firstGap_not_mem (by omega))
    -- otherwise its run touches the message and would start the merge below it
    obtain ⟨a', b', hrun', ha', hb', hmem'⟩ := hS.covered (i - 1) hjlt (by omega) hprev
    have hT' := (touches_runInterval hc hi hrun'.le hrun'.start_le).mpr ⟨by omega, by omega⟩
    have hle := hs₃ _ hmem' hT'
    rw [hstart, runInterval_start, runInterval_start] at hle
    have := (msgOffset_le_iff hc (Nat.le_of_lt hi) hrun'.start_le).mp hle
    omega
  · obtain ⟨a', b', hrun', rfl⟩ := hS.runs r hr
    rcases hrun'.beside_of_not_mem hni
        ((touches_runInterval hc hi hrun'.le hrun'.start_le).mp hT) with hb' | ha'
    · -- the run ending at the message
      rw [hb'] at hrun'
      refine ⟨a', hstart, Nat.le_of_lt hrun'.above, Nat.le_of_lt hrun'.lt, hrun'.mem,
        fun _ hmem => ?_⟩
      rcases List.mem_cons.mp hmem with h | h
      · have := hrun'.lt
        omega
      · exact hrun'.prev h
    · -- a run starting after the message cannot start the merge
      rw [hstart, runInterval_start, runInterval_start, ha'] at hs₂
      have := msgOffset_lt_msgOffset hc (Nat.lt_add_one i) (show i + 1 ≤ msgs.length from hi)
      omega

/-- Where the merge of a new message ends: at the run starting just after it, or at the message
itself when the one after it is not finished. -/
theorem merged_end_new (hni : i ∉ acked) :
    ∃ b, (addOrMerge c.confirmedMsgs (runInterval c0 k0 msgs i (i + 1))).2.«end» =
        msgOffset c0 msgs b ∧
      (addOrMerge c.confirmedMsgs (runInterval c0 k0 msgs i (i + 1))).2.endCnt = k0 + b ∧
      i < b ∧ b ≤ msgs.length ∧ (∀ l, i < l → l < b → l ∈ acked) ∧
      (b < msgs.length → b ∉ i :: acked) := by
  have hii := runInterval_start_lt hc (Nat.lt_add_one i) hi
  have hj : firstGap acked msgs.length ≤ i :=
    Nat.le_of_not_lt fun h => hni (mem_of_lt_firstGap h)
  obtain ⟨he₁, he₂, he₃⟩ := addOrMerge_end hS.gapped.wellFormed (Int.le_of_lt hii)
  rcases he₁ with ⟨hend, hcnt⟩ | ⟨r, hr, hT, hend, hcnt⟩
  · -- the message ends the merge: the one after it is not finished
    refine ⟨i + 1, hend, hcnt, Nat.lt_add_one i, hi, fun l h₁ h₂ => absurd h₂ (by omega),
      fun hbn hmem => ?_⟩
    have hnext : i + 1 ∈ acked := (List.mem_cons.mp hmem).resolve_left (by omega)
    -- otherwise its run touches the message and would end the merge above it
    obtain ⟨a', b', hrun', ha', hb', hmem'⟩ := hS.covered (i + 1) (by omega) hbn hnext
    have hT' := (touches_runInterval hc hi hrun'.le hrun'.start_le).mpr ⟨by omega, by omega⟩
    have hle := he₃ _ hmem' hT'
    rw [hend, runInterval_end, runInterval_end] at hle
    have := (msgOffset_le_iff hc hrun'.le (show i + 1 ≤ msgs.length from hi)).mp hle
    omega
  · obtain ⟨a', b', hrun', rfl⟩ := hS.runs r hr
    rcases hrun'.beside_of_not_mem hni
        ((touches_runInterval hc hi hrun'.le hrun'.start_le).mp hT) with hb' | ha'
    · -- a run ending at the message cannot end the merge
      rw [hend, runInterval_end, runInterval_end, hb'] at he₂
      have := msgOffset_lt_msgOffset hc (Nat.lt_add_one i) (show i + 1 ≤ msgs.length from hi)
      omega
    · -- the run starting just after the message
      rw [ha'] at hrun'
      refine ⟨b', hend, hcnt, by have := hrun'.lt; omega, hrun'.le,
        fun l h₁ h₂ => hrun'.mem l (by omega) h₂, fun hbn hmem => ?_⟩
      rcases List.mem_cons.mp hmem with h | h
      · have := hrun'.lt
        omega
      · exact hrun'.next hbn h

/-- A new message merges into one run `[a, b)` of the messages finished with it: the runs it
touches lie inside, and the run is maximal, save at a start on the gap. -/
theorem merged_new (hni : i ∉ acked) :
    ∃ a b, (addOrMerge c.confirmedMsgs (runInterval c0 k0 msgs i (i + 1))).2 =
        runInterval c0 k0 msgs a b ∧
      firstGap acked msgs.length ≤ a ∧ a ≤ i ∧ i < b ∧ b ≤ msgs.length ∧
      (∀ l, a ≤ l → l < b → l ∈ i :: acked) ∧
      (firstGap acked msgs.length < a → a - 1 ∉ i :: acked) ∧
      (b < msgs.length → b ∉ i :: acked) ∧
      ∀ a' b', runInterval c0 k0 msgs a' b' ∈ c.confirmedMsgs →
        IsRun acked msgs.length (firstGap acked msgs.length) a' b' →
        Touches (runInterval c0 k0 msgs i (i + 1)) (runInterval c0 k0 msgs a' b') →
        a ≤ a' ∧ b' ≤ b := by
  have hii := runInterval_start_lt hc (Nat.lt_add_one i) hi
  obtain ⟨a, hstart, hja, hai, hbelow, hprev⟩ := merged_start_new hc hS hi hni
  obtain ⟨b, hend, hcnt, hib, hbn, habove, hnext⟩ := merged_end_new hc hS hi hni
  refine ⟨a, b, QueueInterval.ext hstart hend hcnt, hja, hai, hib, hbn, fun l h₁ h₂ => ?_,
    hprev, hnext, fun a' b' hmem hrun hT => ?_⟩
  · rcases Nat.lt_trichotomy l i with h | rfl | h
    · exact List.mem_cons_of_mem _ (hbelow l h₁ h)
    · exact List.mem_cons_self
    · exact List.mem_cons_of_mem _ (habove l h h₂)
  · -- a touching run starts no lower and ends no higher than the merge
    have hs := (addOrMerge_start hS.gapped.wellFormed (Int.le_of_lt hii)).2.2 _ hmem hT
    have he := (addOrMerge_end hS.gapped.wellFormed (Int.le_of_lt hii)).2.2 _ hmem hT
    rw [hstart, runInterval_start] at hs
    rw [hend, runInterval_end] at he
    exact ⟨(msgOffset_le_iff hc (by omega) hrun.start_le).mp hs,
      (msgOffset_le_iff hc hrun.le hbn).mp he⟩

/-- A new message above the first gap: its interval merges with the runs beside it into the
run that now holds it, and the confirmed offset stays. -/
theorem summarizes_new_above (hni : i ∉ acked) (hji : firstGap acked msgs.length < i) :
    Summarizes c0 k0 msgs (i :: acked) (confirmBackendQueue c msgs[i]).1 := by
  have hii := runInterval_start_lt hc (Nat.lt_add_one i) hi
  have hjn : firstGap acked msgs.length ≤ msgs.length := firstGap_le
  obtain ⟨a, b, hn, hja, hai, hib, hbn, hin, hprev, hnext, hinside⟩ := merged_new hc hS hi hni
  -- the gap stays, and the merged run starts above it
  have hj' : firstGap (i :: acked) msgs.length = firstGap acked msgs.length :=
    firstGap_eq hjn (fun l hl => List.mem_cons_of_mem _ (mem_of_lt_firstGap hl))
      fun hjl hm => (List.mem_cons.mp hm).elim (fun e => by omega) (firstGap_not_mem hjl)
  have hja' : firstGap acked msgs.length < a := by
    rcases Nat.lt_or_eq_of_le hja with h | h
    · exact h
    · -- a merge starting on the gap would hold the gap, which is not finished
      have hgap := hin (firstGap acked msgs.length) (Nat.le_of_eq h.symm) (by omega)
      rcases List.mem_cons.mp hgap with e | e
      · omega
      · exact absurd e (firstGap_not_mem (by omega : firstGap acked msgs.length < msgs.length))
  have hrun : IsRun (i :: acked) msgs.length (firstGap acked msgs.length) a b :=
    ⟨hja', by omega, hbn, hin, hprev hja', hnext⟩
  have hstep := confirmBackendQueue_of_above (msgInterval_eq hc hi) (hc i hi).2.2.2
    (by rw [(hc i hi).1, hS.confirmed_eq]
        exact (msgOffset_le_iff hc hjn (Nat.le_of_lt hi)).mpr (Nat.le_of_lt hji))
    (by rw [hn, hS.confirmed_eq]; exact (msgOffset_lt_iff hc hjn (by omega)).mpr hja')
    (by rw [hn, hS.confirmed_eq]; exact (msgOffset_lt_iff hc hjn hbn).mpr (by omega))
  have hmem := fun x => mem_addOrMerge (x := x) hS.gapped.wellFormed (Int.le_of_lt hii)
  rw [hstep]
  refine ⟨hj' ▸ hS.confirmed_eq, hj' ▸ hS.confirmedCnt_eq, gapped_addOrMerge hS.gapped hii,
    fun r hr => ?_, fun l hjl hl hm => ?_⟩
  · rw [hj']
    rcases (hmem r).mp hr with rfl | ⟨hr, hnt⟩
    · exact ⟨a, b, hrun, hn⟩
    · -- a run the message does not touch stays maximal
      obtain ⟨a', b', hrun', rfl⟩ := hS.runs r hr
      have hfar := (not_congr (touches_runInterval hc hi hrun'.le hrun'.start_le)).mp hnt
      exact ⟨a', b', hrun'.cons_of_far hfar hrun'.above, rfl⟩
  · rw [hj'] at hjl ⊢
    rcases List.mem_cons.mp hm with h | hm
    · rw [h]
      exact ⟨a, b, hrun, hai, hib, (hmem _).mpr (Or.inl hn.symm)⟩
    · -- an older finished message lies in the merge, or in a run it does not touch
      obtain ⟨a', b', hrun', hal, hlb, hmem'⟩ := hS.covered l hjl hl hm
      by_cases hT : Touches (runInterval c0 k0 msgs i (i + 1)) (runInterval c0 k0 msgs a' b')
      · obtain ⟨h₁, h₂⟩ := hinside a' b' hmem' hrun' hT
        exact ⟨a, b, hrun, by omega, by omega, (hmem _).mpr (Or.inl hn.symm)⟩
      · have hfar := (not_congr (touches_runInterval hc hi hrun'.le hrun'.start_le)).mp hT
        exact ⟨a', b', hrun'.cons_of_far hfar hrun'.above, hal, hlb,
          (hmem _).mpr (Or.inr ⟨hmem', hT⟩)⟩

/-- The message at the first gap: its interval merges with the run after it, the confirmed
offset and count move to that run's end, and the merged interval is dropped. -/
theorem summarizes_new_gap (hc0 : 0 ≤ c0) (hgap : i = firstGap acked msgs.length) :
    Summarizes c0 k0 msgs (i :: acked) (confirmBackendQueue c msgs[i]).1 := by
  have hii := runInterval_start_lt hc (Nat.lt_add_one i) hi
  have hni : i ∉ acked := hgap ▸ firstGap_not_mem (hgap ▸ hi)
  obtain ⟨a, b, hn, hja, hai, hib, hbn, hin, -, hnext, hinside⟩ := merged_new hc hS hi hni
  -- the new gap is the end of the merge
  have hj' : firstGap (i :: acked) msgs.length = b :=
    firstGap_eq hbn (fun l hl => if h : l < i then
        List.mem_cons_of_mem _ (mem_of_lt_firstGap (hgap ▸ h))
      else hin l (by omega) hl) hnext
  have hstep := confirmBackendQueue_of_reach (msgInterval_eq hc hi) (hc i hi).2.2.2
    (by rw [(hc i hi).1, hS.confirmed_eq, ← hgap])
    (by rw [hn, hS.confirmed_eq, ← hgap, runInterval_start, show a = i by omega])
    (by rw [hn, hS.confirmed_eq, ← hgap, runInterval_end]; exact msgOffset_lt_msgOffset hc hib hbn)
  have hmem := fun x => mem_addOrMerge (x := x) hS.gapped.wellFormed (Int.le_of_lt hii)
  have hg := gapped_addOrMerge hS.gapped hii
  -- everything held is at or above `c0`, so `DeleteLower` is a filter
  have hnn : ∀ r ∈ (addOrMerge c.confirmedMsgs (runInterval c0 k0 msgs i (i + 1))).1,
      0 ≤ r.start := by
    intro r hr
    rcases (hmem r).mp hr with rfl | ⟨hr, -⟩
    · rw [hn, runInterval_start]
      exact Int.le_trans hc0 (c0_le_msgOffset hc (by omega))
    · obtain ⟨a', b', hrun', rfl⟩ := hS.runs r hr
      exact Int.le_trans hc0 (c0_le_msgOffset hc hrun'.start_le)
  have hdel := deleteLower_eq_filter hg hnn
  -- a run the message does not touch lies above the merge
  have habove : ∀ a' b', IsRun acked msgs.length (firstGap acked msgs.length) a' b' →
      ¬ Touches (runInterval c0 k0 msgs i (i + 1)) (runInterval c0 k0 msgs a' b') →
      b < a' ∧ ¬ (i ≤ b' ∧ a' ≤ i + 1) := by
    intro a' b' hrun' hnt
    have hfar := (not_congr (touches_runInterval hc hi hrun'.le hrun'.start_le)).mp hnt
    refine ⟨Nat.lt_of_not_le fun hle => ?_, hfar⟩
    have := hrun'.lt
    have := hrun'.above
    rcases List.mem_cons.mp (hin (a' - 1) (by omega) (by omega)) with e | e
    · omega
    · exact hrun'.prev e
  rw [hstep, hn, runInterval_end, runInterval_endCnt, hdel]
  refine ⟨by rw [hj'], by rw [hj'], ⟨hg.1.filter _, fun r hr => hg.2 r (List.mem_filter.mp hr).1⟩,
    fun r hr => ?_, fun l hjl hl hm => ?_⟩
  · rw [hj']
    obtain ⟨hr, hkeep⟩ := List.mem_filter.mp hr
    rcases (hmem r).mp hr with rfl | ⟨hr, hnt⟩
    · -- the merge itself ends at the new confirmed offset and is dropped
      simp [hn] at hkeep
    · obtain ⟨a', b', hrun', rfl⟩ := hS.runs r hr
      obtain ⟨hba, hfar⟩ := habove a' b' hrun' hnt
      exact ⟨a', b', hrun'.cons_of_far hfar hba, rfl⟩
  · rw [hj'] at hjl ⊢
    have hm' : l ∈ acked := (List.mem_cons.mp hm).resolve_left (by omega)
    obtain ⟨a', b', hrun', hal, hlb, hmem'⟩ := hS.covered l (by omega) hl hm'
    -- its run lies above the merge, so the message does not touch it
    have hnt : ¬ Touches (runInterval c0 k0 msgs i (i + 1)) (runInterval c0 k0 msgs a' b') :=
      fun hT => by
        have := hinside a' b' hmem' hrun' hT
        omega
    obtain ⟨hba, hfar⟩ := habove a' b' hrun' hnt
    refine ⟨a', b', hrun'.cons_of_far hfar hba, hal, hlb,
      List.mem_filter.mpr ⟨(hmem _).mpr (Or.inr ⟨hmem', hnt⟩), ?_⟩⟩
    exact decide_eq_true (Int.not_le.mpr ((msgOffset_lt_iff hc hbn hrun'.le).mpr (by omega)))

/-- One finish keeps the invariant, with the message now finished. -/
theorem summarizes_step (hc0 : 0 ≤ c0) :
    Summarizes c0 k0 msgs (i :: acked) (confirmBackendQueue c msgs[i]).1 := by
  by_cases hm : i ∈ acked
  · -- finished already: nothing changes, and neither does what is finished
    rw [confirm_of_mem hc hS hi hm]
    exact hS.congr fun l =>
      ⟨List.mem_cons_of_mem _, fun h => (List.mem_cons.mp h).elim (fun e => e ▸ hm) id⟩
  · have hj : firstGap acked msgs.length ≤ i :=
      Nat.le_of_not_lt fun h => hm (mem_of_lt_firstGap h)
    rcases Nat.lt_or_eq_of_le hj with hlt | heq
    · exact summarizes_new_above hc hS hi hm hlt
    · exact summarizes_new_gap hc hS hi hc0 heq.symm

end Step

section Runs

variable [SkipList QueueInterval start]

/-- A run of finishes keeps the invariant, with its messages finished. -/
theorem summarizes_foldl {c0 k0 : Int} {msgs : List Message} (hc : Consecutive c0 k0 msgs)
    (hc0 : 0 ≤ c0) (is : List (Fin msgs.length)) {acked : List Nat} {c : ConfirmState}
    (hS : Summarizes c0 k0 msgs acked c) :
    Summarizes c0 k0 msgs (acked ++ is.map Fin.val)
      (is.foldl (fun c i => (confirmBackendQueue c msgs[i]).1) c) := by
  induction is generalizing acked c with
  | nil => simpa using hS
  | cons i is ih =>
    -- one finish, then the rest from the state it leaves
    have hstep : Summarizes c0 k0 msgs (acked ++ [i.val]) (confirmBackendQueue c msgs[i]).1 :=
      (summarizes_step hc hS i.isLt hc0).congr fun l => by
        simp only [List.mem_cons, List.mem_append, List.not_mem_nil, or_false]
        exact or_comm
    simpa using ih hstep

/-- Confirmation is the finished prefix: after any sequence of finishes of the messages read
after `c0` and `k0`, repeats allowed, the confirmed offset and count are those at the first
message not finished, `confirmedMsgs` holds exactly the maximal runs of finished messages above
it, in order of their starts, and finishing a finished message again, or any message below the
confirmed offset, changes nothing. -/
theorem confirmAll_spec (c0 k0 : Int) (msgs : List Message) (hc : Consecutive c0 k0 msgs)
    (hc0 : 0 ≤ c0) (is : List (Fin msgs.length)) :
    let c := confirmAll c0 k0 msgs is
    let j := firstGap (is.map Fin.val) msgs.length
    c.confirmed = msgOffset c0 msgs j ∧ c.confirmedCnt = k0 + j ∧
      c.confirmedMsgs.Pairwise (fun r r' => r.start < r'.start) ∧
      (∀ r, r ∈ c.confirmedMsgs ↔
        ∃ a b, IsRun (is.map Fin.val) msgs.length j a b ∧ r = runInterval c0 k0 msgs a b) ∧
      (∀ i ∈ is, (confirmBackendQueue c msgs[i]).1 = c) ∧
      ∀ m : Message, m.offset < c.confirmed → (confirmBackendQueue c m).1 = c := by
  intro c j
  have hS : Summarizes c0 k0 msgs (is.map Fin.val) c := by
    have := summarizes_foldl hc hc0 is (summarizes_nil c0 k0 msgs)
    rwa [List.nil_append] at this
  refine ⟨hS.confirmed_eq, hS.confirmedCnt_eq, hS.gapped.sorted, fun r => ⟨hS.runs r, ?_⟩,
    fun i hi => confirm_of_mem hc hS i.isLt (List.mem_map_of_mem hi),
    fun m hm => confirmBackendQueue_of_lt hm⟩
  -- a maximal run is held: the held run through its first message is that run
  rintro ⟨a, b, hrun, rfl⟩
  obtain ⟨a', b', hrun', ha', hb', hmem⟩ :=
    hS.covered a hrun.above (Nat.lt_of_lt_of_le hrun.lt hrun.le) (hrun.mem a (Nat.le_refl a) hrun.lt)
  obtain ⟨rfl, rfl⟩ := hrun'.eq_of_mem hrun ⟨ha', hb'⟩ ⟨Nat.le_refl a, hrun.lt⟩
  exact hmem

end Runs

/-- Five messages of sizes 3 to 7 read after offset 10 and count 2, the third and fifth
finished, then the first, then the third again: confirmed up to the second. -/
theorem confirmAll_spec_sample :
    Consecutive 10 2 [⟨10, 3, 3, 0⟩, ⟨13, 4, 4, 0⟩, ⟨17, 5, 5, 0⟩, ⟨22, 6, 6, 0⟩, ⟨28, 7, 7, 0⟩] ∧
      (0 : Int) ≤ 10 ∧
      (confirmAll 10 2 [⟨10, 3, 3, 0⟩, ⟨13, 4, 4, 0⟩, ⟨17, 5, 5, 0⟩, ⟨22, 6, 6, 0⟩, ⟨28, 7, 7, 0⟩]
        [⟨2, by decide⟩, ⟨4, by decide⟩, ⟨0, by decide⟩, ⟨2, by decide⟩]).confirmed =
        msgOffset 10 [⟨10, 3, 3, 0⟩, ⟨13, 4, 4, 0⟩, ⟨17, 5, 5, 0⟩, ⟨22, 6, 6, 0⟩, ⟨28, 7, 7, 0⟩]
          (firstGap [2, 4, 0, 2] 5) :=
  ⟨by decide, by decide, (confirmAll_spec 10 2 _ (by decide) (by decide) _).1⟩

end Nsq
