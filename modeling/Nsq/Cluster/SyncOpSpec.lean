import Nsq.Cluster.SyncOp
import Mathlib.Logic.Relation

/-!
# What `doSyncOpToCluster` guarantees, whatever its closures do

The closures of a replicated write are parameters here, so the results are rules: they say
which closure calls a write that answers `nil` made, and in what order, and what a write that
answers an error did to the coordinator. The write's users turn them into facts about their
state with an invariant the closures keep (`Keeps.steps`).

The main rule, `doSyncOpToCluster_committed`, says that a write that answers `nil` wrote
locally, then in one round had every other node of the ISR answer its sync with no error, and
then committed, under data that passed the leader and quorum checks. It needs two facts of the
caller: `handleSyncResult` accepts exactly the rounds where every node of the ISR succeeded with
a quorum, and no node's RPC client fails to be acquired. The second holds of
`acquireRpcClient`, and is needed: a round in which only the acquisition fails records no error,
so after the last round the write would answer `nil` with nothing committed.

`doSyncOpToCluster_cases` says once what the write does before its rounds, and the last section
says once what a replica's `doWriteOpOnSlave` can answer (`doWriteOpOnSlave_cases`).
-/

namespace Nsq.Coord

section Leader

variable {σ : Type} {myID : String} {acquire : String → Option CoordErr} {ops : SyncOps σ}

/-- One call of a closure between the local write and the commit: a sync, a refresh, or a
request to the lookup service. -/
inductive Step (ops : SyncOps σ) : σ → σ → Prop where
  | sync (n : String) (d : CoordData) (s : σ) : Step ops s (ops.doSlaveSync n d s).1
  | refresh (d : CoordData) (s : σ) : Step ops s (ops.doRefresh d s).1
  | send (r : LookupRequest) (s : σ) : Step ops s (ops.send r s)

/-- The states those calls lead to, one after another. -/
abbrev Steps (ops : SyncOps σ) : σ → σ → Prop := Relation.ReflTransGen (Step ops)

/-- A property of the state that every step keeps. -/
structure Keeps (ops : SyncOps σ) (P : σ → Prop) : Prop where
  sync : ∀ n d s, P s → P (ops.doSlaveSync n d s).1
  refresh : ∀ d s, P s → P (ops.doRefresh d s).1
  send : ∀ r s, P s → P (ops.send r s)

theorem Step.of_sync {n : String} {d : CoordData} {s s' : σ} {r : Option CoordErr}
    (h : ops.doSlaveSync n d s = (s', r)) : Step ops s s' := by
  have hstep := @Step.sync σ ops n d s
  rw [h] at hstep
  exact hstep

theorem Step.of_refresh {d : CoordData} {s s' : σ} {r : Option CoordErr}
    (h : ops.doRefresh d s = (s', r)) : Step ops s s' := by
  have hstep := @Step.refresh σ ops d s
  rw [h] at hstep
  exact hstep

theorem Keeps.step {P : σ → Prop} (hk : Keeps ops P) {s t : σ} (h : Step ops s t) (hs : P s) :
    P t := by
  cases h with
  | sync n d => exact hk.sync n d s hs
  | refresh d => exact hk.refresh d s hs
  | send r => exact hk.send r s hs

theorem Keeps.steps {P : σ → Prop} (hk : Keeps ops P) {s t : σ} (h : Steps ops s t) (hs : P s) :
    P t := by
  induction h with
  | refl => exact hs
  | tail _ hstep ih => exact hk.step hstep ih

/-- The data a leader may write under: it leads, and the ISR holds it and a quorum. -/
def Checked (myID : String) (d : CoordData) : Prop :=
  d.checkWriteForLeader myID = none ∧ d.isISRReadyForWrite myID = true

theorem Checked.quorum {d : CoordData} (h : Checked myID d) :
    d.topicInfo.isr.length > d.topicInfo.replica / 2 := by
  have hready := h.2
  simp only [CoordData.isISRReadyForWrite, Bool.and_eq_true, decide_eq_true_eq] at hready
  exact hready.1

theorem Checked.mem {d : CoordData} (h : Checked myID d) : myID ∈ d.topicInfo.isr := by
  have hready := h.2
  simp only [CoordData.isISRReadyForWrite, CoordData.isMineISR, Bool.and_eq_true,
    List.contains_iff_mem] at hready
  exact hready.2

/-- Every other node of the ISR answered a sync under `d` with no error, between `s₁` and `s₂`. -/
def Acked (ops : SyncOps σ) (myID : String) (d : CoordData) (s₁ s₂ : σ) : Prop :=
  ∀ n ∈ d.topicInfo.isr, n ≠ myID →
    ∃ t, Steps ops s₁ t ∧ (ops.doSlaveSync n d t).2 = none ∧ Steps ops (ops.doSlaveSync n d t).1 s₂

theorem Acked.mono {d : CoordData} {s₁ s₂ s₃ : σ} (h : Acked ops myID d s₂ s₃)
    (h₁ : Steps ops s₁ s₂) : Acked ops myID d s₁ s₃ := by
  intro n hn hne
  obtain ⟨t, ht, hok, hrest⟩ := h n hn hne
  exact ⟨t, h₁.trans ht, hok, hrest⟩

/-! ## A pass over the ISR -/

section Pass

variable (d : CoordData) (retryCnt : Nat)

theorem syncPass_steps :
    ∀ (ns : List String) (p : Pass σ),
      Steps ops p.state (syncPass myID acquire ops d retryCnt ns p).1.state
  | [], p => .refl
  | n :: rest, p => by
    rw [syncPass]
    split
    · exact syncPass_steps rest { p with success := p.success + 1 }
    split
    · exact syncPass_steps rest { p with failedNodes := addFailed p.failedNodes n }
    rcases hs : ops.doSlaveSync n d p.state with ⟨s, _ | e⟩
    all_goals
      have hstep : Steps ops p.state s := .single (Step.of_sync hs)
      dsimp only
    · exact hstep.trans (syncPass_steps rest { p with state := s, success := p.success + 1 })
    · split
      · exact hstep.trans (syncPass_steps rest
          { p with state := s, clusterWriteErr := some e, failedNodes := addFailed p.failedNodes n })
      split
      · exact hstep
      · exact hstep.trans (syncPass_steps rest
          { p with state := s, clusterWriteErr := some e, failedNodes := addFailed p.failedNodes n,
                   exitErr := p.exitErr + 1 })

/-- Each node of the pass adds at most one success. -/
theorem syncPass_success_le :
    ∀ (ns : List String) (p : Pass σ),
      (syncPass myID acquire ops d retryCnt ns p).1.success ≤ p.success + ns.length
  | [], p => le_refl _
  | n :: rest, p => by
    have ih := fun q => syncPass_success_le rest q
    rw [syncPass]
    split
    · have := ih { p with success := p.success + 1 }
      simp only [List.length_cons] at this ⊢
      omega
    split
    · have := ih { p with failedNodes := addFailed p.failedNodes n }
      simp only [List.length_cons] at this ⊢
      omega
    rcases ops.doSlaveSync n d p.state with ⟨s, _ | e⟩
    · have := ih { p with state := s, success := p.success + 1 }
      simp only [List.length_cons] at this ⊢
      omega
    · dsimp only
      split
      · have := ih
          { p with state := s, clusterWriteErr := some e, failedNodes := addFailed p.failedNodes n }
        simp only [List.length_cons] at this ⊢
        omega
      split
      · simp only [List.length_cons]
        omega
      · have := ih
          { p with state := s, clusterWriteErr := some e, failedNodes := addFailed p.failedNodes n,
                   exitErr := p.exitErr + 1 }
        simp only [List.length_cons] at this ⊢
        omega

/-- A recorded error stays recorded, and a stopped pass has one. -/
theorem syncPass_err :
    ∀ (ns : List String) (p : Pass σ),
      (p.clusterWriteErr.isSome →
        (syncPass myID acquire ops d retryCnt ns p).1.clusterWriteErr.isSome) ∧
      ((syncPass myID acquire ops d retryCnt ns p).2 = true →
        (syncPass myID acquire ops d retryCnt ns p).1.clusterWriteErr.isSome)
  | [], p => ⟨id, fun h => absurd h Bool.false_ne_true⟩
  | n :: rest, p => by
    rw [syncPass]
    split
    · exact syncPass_err rest { p with success := p.success + 1 }
    split
    · exact syncPass_err rest { p with failedNodes := addFailed p.failedNodes n }
    rcases ops.doSlaveSync n d p.state with ⟨s, _ | e⟩
    · exact syncPass_err rest { p with state := s, success := p.success + 1 }
    · dsimp only
      have ih₁ := syncPass_err rest
        { p with state := s, clusterWriteErr := some e, failedNodes := addFailed p.failedNodes n }
      have ih₂ := syncPass_err rest
        { p with state := s, clusterWriteErr := some e, failedNodes := addFailed p.failedNodes n,
                 exitErr := p.exitErr + 1 }
      split
      · exact ⟨fun _ => ih₁.1 rfl, ih₁.2⟩
      split
      · exact ⟨fun _ => rfl, fun _ => rfl⟩
      · exact ⟨fun _ => ih₂.1 rfl, ih₂.2⟩

/-- When every node gets a client, a node that is not a success records an error. -/
theorem syncPass_err_of_lt (hacq : ∀ n, acquire n = none) :
    ∀ (ns : List String) (p : Pass σ),
      (syncPass myID acquire ops d retryCnt ns p).1.success < p.success + ns.length →
        (syncPass myID acquire ops d retryCnt ns p).1.clusterWriteErr.isSome
  | [], p => fun h => by simp [syncPass] at h
  | n :: rest, p => by
    rw [syncPass]
    split
    · intro h
      exact syncPass_err_of_lt hacq rest ⟨_, _, _, _, _⟩ (by simp only [List.length_cons] at h ⊢; omega)
    rw [hacq n]
    dsimp only
    rcases ops.doSlaveSync n d p.state with ⟨s, _ | e⟩
    · intro h
      exact syncPass_err_of_lt hacq rest ⟨_, _, _, _, _⟩ (by simp only [List.length_cons] at h ⊢; omega)
    · dsimp only
      split
      · exact fun _ => (syncPass_err d retryCnt rest ⟨_, _, _, _, _⟩).1 rfl
      split
      · exact fun _ => rfl
      · exact fun _ => (syncPass_err d retryCnt rest ⟨_, _, _, _, _⟩).1 rfl

/-- A pass in which every node is a success synced every other node with no error. -/
theorem syncPass_acked :
    ∀ (ns : List String) (p : Pass σ),
      (syncPass myID acquire ops d retryCnt ns p).1.success = p.success + ns.length →
        ∀ n ∈ ns, n ≠ myID → ∃ t, Steps ops p.state t ∧ (ops.doSlaveSync n d t).2 = none ∧
          Steps ops (ops.doSlaveSync n d t).1 (syncPass myID acquire ops d retryCnt ns p).1.state
  | [], p => fun _ n hn => absurd hn List.not_mem_nil
  | m :: rest, p => by
    have hle := fun q => @syncPass_success_le σ myID acquire ops d retryCnt rest q
    rw [syncPass]
    split
    · -- this node: the rest must all be successes
      rename_i hme
      intro h n hn hne
      have hrest := syncPass_acked rest { p with success := p.success + 1 }
        (by simp only [List.length_cons] at h ⊢; omega)
      rcases List.mem_cons.mp hn with rfl | hn
      · exact absurd hme hne
      · exact hrest n hn hne
    split
    · -- no client: this node is no success, so the count falls short
      intro h
      have := hle { p with failedNodes := addFailed p.failedNodes m }
      simp only [List.length_cons] at h this
      omega
    rcases hs : ops.doSlaveSync m d p.state with ⟨s, _ | e⟩
    · intro h n hn hne
      have hrest := syncPass_acked rest { p with state := s, success := p.success + 1 }
        (by simp only [List.length_cons] at h ⊢; omega)
      have hstep : Steps ops p.state s := .single (Step.of_sync hs)
      rcases List.mem_cons.mp hn with rfl | hn
      · refine ⟨p.state, .refl, by rw [hs], ?_⟩
        rw [hs]
        exact syncPass_steps d retryCnt rest ⟨_, _, _, _, _⟩
      · obtain ⟨t, ht, hok, hnext⟩ := hrest n hn hne
        exact ⟨t, hstep.trans ht, hok, hnext⟩
    · -- a failed sync is no success either
      dsimp only
      split
      · intro h
        have := hle
          { p with state := s, clusterWriteErr := some e, failedNodes := addFailed p.failedNodes m }
        simp only [List.length_cons] at h this
        omega
      split
      · intro h
        simp only [List.length_cons] at h
        omega
      · intro h
        have := hle
          { p with state := s, clusterWriteErr := some e, failedNodes := addFailed p.failedNodes m,
                   exitErr := p.exitErr + 1 }
        simp only [List.length_cons] at h this
        omega

end Pass

theorem requestLeaves_steps (env : SyncEnv) (retryCnt : Nat) :
    ∀ (nids : List String) (s : σ), Steps ops s (requestLeaves ops env retryCnt nids s)
  | [], s => .refl
  | nid :: rest, s => by
    have hsend : Steps ops s (ops.send (.leaveFromISRByLeader nid) s) := .single (.send _ s)
    rw [requestLeaves]
    split
    · exact hsend
    · exact hsend.trans (requestLeaves_steps env retryCnt rest _)

/-! ## The exit, the refresh and a round -/

theorem exitSync_err {isWrite : Bool} {coord : TopicCoordinator} {l : Loop σ}
    {r : TopicCoordinator × σ × Option CoordErr} (h : exitSync ops isWrite coord l = some r) :
    r.2.2 = l.clusterWriteErr := by
  unfold exitSync at h
  obtain ⟨cs, -, rfl⟩ := Option.map_eq_some_iff.mp h
  rfl

/-- An exit answers `nil` only when no error is recorded. -/
theorem exitSync_none {isWrite : Bool} {coord coord' : TopicCoordinator} {l : Loop σ} {s' : σ}
    (h : exitSync ops isWrite coord l = some (coord', s', none)) : l.clusterWriteErr = none :=
  (exitSync_err h).symm

/-- An exit with no error and no need to leave the ISR keeps the last data read and runs
`doLocalExit`. -/
theorem exitSync_ok {isWrite : Bool} {coord : TopicCoordinator} {l : Loop σ}
    (herr : l.clusterWriteErr = none) (hleave : l.needLeaveISR = false) :
    exitSync ops isWrite coord l = some ({ coord with coordData := l.tcData },
      ops.doLocalExit none { coord with coordData := l.tcData } l.state, none) := by
  simp only [exitSync, hleave, herr, Bool.false_eq_true, if_false, Option.isSome_none,
    Bool.false_and, Option.map_some]

/-- A refresh that exits records an error. -/
theorem refresh_inl {isWrite : Bool} {env : SyncEnv} {retryCnt : Nat} {l l' : Loop σ}
    (h : refresh myID ops isWrite env retryCnt l = .inl l') : l'.clusterWriteErr.isSome := by
  unfold refresh at h
  split at h
  · cases h
  dsimp only at h
  split at h
  · cases h
    rfl
  split at h
  · cases h
    rfl
  · split at h
    · cases h
      rfl
    · cases h

/-- A refresh that goes on either had nothing to do, or read data it may write under, which
`doRefresh` accepted, and cleared the error. -/
theorem refresh_inr {env : SyncEnv} {retryCnt : Nat} {l l' : Loop σ}
    (h : refresh myID ops true env retryCnt l = .inr l') :
    (l.needRefreshISR = false ∧ l' = l) ∨
      (l'.clusterWriteErr = none ∧ Checked myID l'.tcData ∧
        (ops.doRefresh l'.tcData l.state).2 = none ∧ Steps ops l.state l'.state ∧
        Steps ops (ops.doRefresh l'.tcData l.state).1 l'.state) := by
  unfold refresh at h
  split at h
  · rename_i hno
    cases h
    exact Or.inl ⟨by simpa using hno, rfl⟩
  dsimp only at h
  split at h
  · cases h
  rename_i hlead
  rcases hr : ops.doRefresh (env.getData retryCnt) l.state with ⟨s, _ | e⟩
  · rw [hr] at h
    dsimp only at h
    split at h
    · cases h
    · rename_i hready
      cases h
      have hstep : Steps ops l.state s := .single (Step.of_refresh hr)
      have hsend : Steps ops s (if retryCnt > 3 then ops.send .notifyNewTopicInfo s else s) := by
        split
        · exact .single (.send _ s)
        · exact .refl
      refine Or.inr ⟨rfl, ⟨hlead, by simpa using hready⟩, by rw [hr], hstep.trans hsend, ?_⟩
      rw [hr]
      exact hsend
  · rw [hr] at h
    cases h

/-- A round that fails records an error, when every node gets a client, `handleSyncResult`
accepts a full round and the round's data has a quorum. -/
theorem round_inr {env : SyncEnv} {retryCnt : Nat} {l l' : Loop σ}
    (hacq : ∀ n, acquire n = none)
    (hfull : ops.handleSyncResult l.tcData.topicInfo.isr.length l.tcData = true)
    (h : round myID acquire ops env retryCnt l = .inr l') : l'.clusterWriteErr.isSome := by
  unfold round at h
  dsimp only at h
  split at h
  · cases h
  split at h
  · split at h <;> cases h
  · rename_i hnot
    cases h
    -- the pass fell short of a full round, so one of its nodes recorded an error
    have hle := @syncPass_success_le σ myID acquire ops l.tcData retryCnt l.tcData.topicInfo.isr
      ⟨l.state, 0, [], 0, l.clusterWriteErr⟩
    have hne : (syncPass myID acquire ops l.tcData retryCnt l.tcData.topicInfo.isr
        ⟨l.state, 0, [], 0, l.clusterWriteErr⟩).1.success ≠ l.tcData.topicInfo.isr.length :=
      fun heq => hnot (heq ▸ hfull)
    exact syncPass_err_of_lt l.tcData retryCnt hacq _ _ (by dsimp only at hle ⊢; omega)

/-- A failed round keeps its data, asks for a refresh, and only steps the state. -/
theorem round_inr_next {env : SyncEnv} {retryCnt : Nat} {l l' : Loop σ}
    (h : round myID acquire ops env retryCnt l = .inr l') :
    l'.needRefreshISR = true ∧ l'.tcData = l.tcData ∧ Steps ops l.state l'.state := by
  unfold round at h
  dsimp only at h
  split at h
  · cases h
  split at h
  · split at h <;> cases h
  · cases h
    have hpass := @syncPass_steps σ myID acquire ops l.tcData retryCnt
      l.tcData.topicInfo.isr ⟨l.state, 0, [], 0, l.clusterWriteErr⟩
    refine ⟨rfl, rfl, ?_⟩
    dsimp only
    split
    · exact hpass.trans (requestLeaves_steps env retryCnt _ _)
    · exact hpass

/-- A round that exits with no error committed after a full round. -/
theorem round_inl_ok {env : SyncEnv} {retryCnt : Nat} {l l' : Loop σ}
    (hlen : ∀ k d, ops.handleSyncResult k d = true → k = d.topicInfo.isr.length)
    (h : round myID acquire ops env retryCnt l = .inl l') (herr : l'.clusterWriteErr = none) :
    l'.needLeaveISR = false ∧ l'.tcData = l.tcData ∧
      ∃ s₂, Acked ops myID l.tcData l.state s₂ ∧ Steps ops l.state s₂ ∧
        ops.doLocalCommit s₂ = (l'.state, none) := by
  unfold round at h
  dsimp only at h
  split at h
  · rename_i hstop
    cases h
    have hsome := (syncPass_err l.tcData retryCnt _ _).2 hstop
    dsimp only at herr
    rw [herr] at hsome
    exact absurd hsome (by simp)
  split at h
  · rename_i hacc
    rcases hc : ops.doLocalCommit (syncPass myID acquire ops l.tcData retryCnt
        l.tcData.topicInfo.isr ⟨l.state, 0, [], 0, l.clusterWriteErr⟩).1.state with ⟨s, _ | m⟩
    · rw [hc] at h
      cases h
      refine ⟨rfl, rfl, _, ?_, syncPass_steps l.tcData retryCnt l.tcData.topicInfo.isr
        ⟨l.state, 0, [], 0, l.clusterWriteErr⟩, hc⟩
      exact syncPass_acked l.tcData retryCnt _ _ (by rw [hlen _ _ hacc]; simp)
    · rw [hc] at h
      cases h
      cases herr
  · cases h

/-! ## The rounds and the whole write -/

/-- On entry to a round, either a refresh is due, or the error is clear and the data is the
data `d₀` the write began with, which passed the checks. -/
def RoundEntry (myID : String) (d₀ : CoordData) (l : Loop σ) : Prop :=
  l.needRefreshISR = true ∨ (l.clusterWriteErr = none ∧ l.tcData = d₀ ∧ Checked myID d₀)

theorem RoundEntry.late {d₀ : CoordData} {l : Loop σ} (h : RoundEntry myID d₀ l)
    (retryCnt : Nat) : RoundEntry myID d₀ (l.late retryCnt) := by
  unfold Loop.late
  split
  · exact Or.inl rfl
  · exact h

theorem late_state (l : Loop σ) (retryCnt : Nat) : (l.late retryCnt).state = l.state := by
  unfold Loop.late
  split <;> rfl

/-- What a write that answers no error went through after its local write: a round under data
`d` that passed the checks (the data it began with, or data a refresh accepted), in which every
other node of the ISR acknowledged, then the commit, and the exit. -/
structure Committed (ops : SyncOps σ) (myID : String) (coord : TopicCoordinator) (d₀ : CoordData)
    (s₁ : σ) (coord' : TopicCoordinator) (s' : σ) : Prop where
  exists_round : ∃ d s₂ s₃,
    (d = d₀ ∨ ∃ t, Steps ops s₁ t ∧ (ops.doRefresh d t).2 = none ∧
      Steps ops (ops.doRefresh d t).1 s₂) ∧
    Checked myID d ∧ Acked ops myID d s₁ s₂ ∧ Steps ops s₁ s₂ ∧
    ops.doLocalCommit s₂ = (s₃, none) ∧
    coord' = { coord with coordData := d } ∧ s' = ops.doLocalExit none coord' s₃

/-- The data of a round that passed its refresh: the data the write began with, or data a
refresh accepted; either way it passed the checks and the error is clear. -/
theorem refresh_inr_entry {env : SyncEnv} {retryCnt : Nat} {d₀ : CoordData} {s₁ : σ}
    {l l₂ : Loop σ} (hentry : RoundEntry myID d₀ l) (hsteps : Steps ops s₁ l.state)
    (hr : refresh myID ops true env retryCnt (l.late retryCnt) = .inr l₂) :
    l₂.clusterWriteErr = none ∧ Checked myID l₂.tcData ∧ Steps ops s₁ l₂.state ∧
      (l₂.tcData = d₀ ∨ ∃ t, Steps ops s₁ t ∧ (ops.doRefresh l₂.tcData t).2 = none ∧
        Steps ops (ops.doRefresh l₂.tcData t).1 l₂.state) := by
  rcases refresh_inr hr with ⟨hno, rfl⟩ | ⟨herr, hck, hok, hst, hnext⟩
  · rcases hentry.late retryCnt with hyes | ⟨herr, htc, hck⟩
    · rw [hno] at hyes
      cases hyes
    · rw [late_state]
      exact ⟨herr, htc ▸ hck, hsteps, Or.inl htc⟩
  · rw [late_state] at hst hok hnext
    exact ⟨herr, hck, hsteps.trans hst, Or.inr ⟨l.state, hsteps, hok, hnext⟩⟩

theorem retrySync_committed {env : SyncEnv} {coord coord' : TopicCoordinator} {d₀ : CoordData}
    {s₁ s' : σ} (hacq : ∀ n, acquire n = none)
    (hhandle : ∀ k d, ops.handleSyncResult k d = true ↔
      k = d.topicInfo.isr.length ∧ k > d.topicInfo.replica / 2)
    (retryCnt : Nat) (l : Loop σ) (hentry : RoundEntry myID d₀ l) (hsteps : Steps ops s₁ l.state)
    (h : retrySync myID acquire ops true env coord retryCnt l = some (coord', s', none)) :
    Committed ops myID coord d₀ s₁ coord' s' := by
  rw [retrySync] at h
  by_cases hex : retryCnt > maxWriteRetry ∧ env.exiting retryCnt = true
  · -- the leader is exiting
    rw [if_pos hex] at h
    cases exitSync_none h
  rw [if_neg hex] at h
  rcases hr : refresh myID ops true env retryCnt (l.late retryCnt) with l₂ | l₂ <;>
    rw [hr] at h <;> dsimp only at h
  · -- the refresh gave up with an error
    have hsome := refresh_inl hr
    rw [exitSync_none h] at hsome
    cases hsome
  obtain ⟨herr₂, hck₂, hsteps₂, hdata₂⟩ := refresh_inr_entry hentry hsteps hr
  rcases hround : round myID acquire ops env (retryCnt + 1) l₂ with l₃ | l₃ <;>
    rw [hround] at h <;> dsimp only at h
  · -- the round ended the write with no error: it committed
    have herr₃ := exitSync_none h
    obtain ⟨hleave, htc, s₂, hacked, hst₂, hcommit⟩ :=
      round_inl_ok (fun k d hk => ((hhandle k d).mp hk).1) hround herr₃
    rw [exitSync_ok herr₃ hleave] at h
    simp only [Option.some.injEq, Prod.mk.injEq] at h
    obtain ⟨rfl, rfl, -⟩ := h
    refine ⟨⟨l₂.tcData, s₂, l₃.state, ?_, hck₂, hacked.mono hsteps₂, hsteps₂.trans hst₂, hcommit,
      by rw [htc], by rw [htc]⟩⟩
    rcases hdata₂ with hd | ⟨t, ht, hok, hnext⟩
    · exact Or.inl hd
    · exact Or.inr ⟨t, ht, hok, hnext.trans hst₂⟩
  obtain ⟨hrefresh₃, htc₃, hst₃⟩ := round_inr_next hround
  split at h
  · -- the last round failed: its error is the answer
    have hfull : ops.handleSyncResult l₂.tcData.topicInfo.isr.length l₂.tcData = true :=
      (hhandle _ _).mpr ⟨rfl, hck₂.quorum⟩
    have hsome := round_inr hacq hfull hround
    rw [exitSync_none h] at hsome
    cases hsome
  · exact retrySync_committed hacq hhandle (retryCnt + 1) l₃ (Or.inl hrefresh₃)
      (hsteps₂.trans hst₃) h
termination_by maxWriteRetry * 2 + 1 - retryCnt
decreasing_by omega

/-- What `doSyncOpToCluster` of a write can do: answer one of the checks before the local write
at once, with the coordinator and the state as they were; or write locally under the
coordinator's data, which passed the checks, and go to `exitsync` when that write fails and to
the rounds when it succeeds. -/
theorem doSyncOpToCluster_cases {env : SyncEnv} {coord : TopicCoordinator} {s : σ}
    {r : Option (TopicCoordinator × σ × Option CoordErr)}
    (h : doSyncOpToCluster myID acquire ops true env coord s = r) :
    (∃ e, r = some (coord, s, some e)) ∨
      ∃ s₁ x, ops.doLocalWrite coord.coordData s = (s₁, x) ∧ Checked myID coord.coordData ∧
        (x.isSome ∧ r = exitSync ops true coord ⟨coord.coordData, x, false, false, s₁⟩ ∨
          x = none ∧
            r = retrySync myID acquire ops true env coord 0 ⟨coord.coordData, none, false, true, s₁⟩) := by
  unfold doSyncOpToCluster at h
  by_cases hex : coord.exiting = true
  · simp only [hex, if_true] at h
    exact Or.inl ⟨_, h.symm⟩
  by_cases hdis : coord.disableWrite = true
  · simp only [hex, hdis, Bool.false_eq_true, if_false, Bool.and_self, if_true] at h
    exact Or.inl ⟨_, h.symm⟩
  simp only [hex, hdis, Bool.false_eq_true, if_false, Bool.and_false] at h
  rcases hlead : coord.coordData.checkWriteForLeader myID with _ | e
  · rw [hlead] at h
    dsimp only at h
    by_cases hready : coord.coordData.isISRReadyForWrite myID = true
    · rw [if_neg (by simp [hready])] at h
      right
      -- past the checks: the local write decides where the write goes
      rcases hw : ops.doLocalWrite coord.coordData s with ⟨s₁, _ | e⟩ <;> rw [hw] at h <;>
        dsimp only at h
      · exact ⟨s₁, none, rfl, ⟨hlead, hready⟩, Or.inr ⟨rfl, h.symm⟩⟩
      · exact ⟨s₁, some e, rfl, ⟨hlead, hready⟩, Or.inl ⟨rfl, h.symm⟩⟩
    · simp only [hready, Bool.not_false, Bool.and_self, if_true] at h
      exact Or.inl ⟨_, h.symm⟩
  · rw [hlead] at h
    exact Or.inl ⟨_, h.symm⟩

/-! ## What every answer's state keeps -/

/-- A property of the state that the calls of `exitsync` keep: the rollback, a request to the
lookup service and `doLocalExit`. -/
structure KeepsExit (ops : SyncOps σ) (P : σ → Prop) : Prop where
  rollback : ∀ s s', ops.doLocalRollback s = some s' → P s → P s'
  send : ∀ r s, P s → P (ops.send r s)
  exit : ∀ e c s, P s → P (ops.doLocalExit e c s)

theorem exitSync_keeps {P : σ → Prop} (hk : KeepsExit ops P) {isWrite : Bool}
    {coord coord' : TopicCoordinator} {l : Loop σ} {s' : σ} {e : Option CoordErr}
    (h : exitSync ops isWrite coord l = some (coord', s', e)) (hl : P l.state) : P s' := by
  unfold exitSync at h
  obtain ⟨cs, hleft, hcs⟩ := Option.map_eq_some_iff.mp h
  -- the state after leaving the ISR, when the leader must
  have hcs₂ : P cs.2 := by
    split at hleft
    · obtain ⟨s₁, hroll, rfl⟩ := Option.map_eq_some_iff.mp hleft
      exact hk.send _ _ (hk.rollback _ _ hroll hl)
    · cases hleft
      exact hl
  dsimp only at hcs
  simp only [Prod.mk.injEq] at hcs
  obtain ⟨-, rfl, -⟩ := hcs
  apply hk.exit
  split
  · exact hk.send _ _ hcs₂
  · exact hcs₂

/-- Wherever a refresh goes, it only stepped the state. -/
theorem refresh_steps {isWrite : Bool} {env : SyncEnv} {retryCnt : Nat} {l l' : Loop σ}
    (h : refresh myID ops isWrite env retryCnt l = .inl l' ∨
      refresh myID ops isWrite env retryCnt l = .inr l') :
    Steps ops l.state l'.state := by
  unfold refresh at h
  split at h
  · rcases h with h | h <;> cases h
    exact .refl
  dsimp only at h
  split at h
  · rcases h with h | h <;> cases h
    exact .refl
  rcases hr : ops.doRefresh (env.getData retryCnt) l.state with ⟨s, _ | e⟩ <;> rw [hr] at h <;>
    dsimp only at h
  · have hstep : Steps ops l.state s := .single (Step.of_refresh hr)
    split at h
    · rcases h with h | h <;> cases h
      exact hstep
    · rcases h with h | h <;> cases h
      dsimp only
      split
      · exact hstep.tail (.send _ s)
      · exact hstep
  · rcases h with h | h <;> cases h
    exact .single (Step.of_refresh hr)

/-- Wherever a round goes, it stepped the state and then committed at most once. -/
theorem round_keeps {P : σ → Prop} (hk : Keeps ops P) (hc : ∀ s, P s → P (ops.doLocalCommit s).1)
    {env : SyncEnv} {retryCnt : Nat} {l l' : Loop σ}
    (h : round myID acquire ops env retryCnt l = .inl l' ∨
      round myID acquire ops env retryCnt l = .inr l')
    (hl : P l.state) : P l'.state := by
  have hpass := hk.steps (@syncPass_steps σ myID acquire ops l.tcData retryCnt
    l.tcData.topicInfo.isr ⟨l.state, 0, [], 0, l.clusterWriteErr⟩) hl
  unfold round at h
  dsimp only at h
  split at h
  · rcases h with h | h <;> cases h
    exact hpass
  split at h
  · have hcommit := hc _ hpass
    split at h <;> rename_i heq <;> rw [heq] at hcommit <;> rcases h with h | h <;> cases h
    · exact hcommit
    · exact hcommit
  · rcases h with h | h <;> cases h
    dsimp only
    split
    · exact hk.steps (requestLeaves_steps env _ _ _) hpass
    · exact hpass

/-- Every answer of the rounds leaves a state that every call keeps a property in, from the
state the rounds began with. -/
theorem retrySync_keeps {P : σ → Prop} (hk : Keeps ops P) (hc : ∀ s, P s → P (ops.doLocalCommit s).1)
    (he : KeepsExit ops P) {isWrite : Bool} {env : SyncEnv} {coord coord' : TopicCoordinator}
    {s' : σ} {e : Option CoordErr} (retryCnt : Nat) (l : Loop σ)
    (h : retrySync myID acquire ops isWrite env coord retryCnt l = some (coord', s', e))
    (hl : P l.state) : P s' := by
  rw [retrySync] at h
  split at h
  · exact exitSync_keeps he h hl
  have hlate : P (l.late retryCnt).state := by
    rw [late_state]
    exact hl
  rcases hr : refresh myID ops isWrite env retryCnt (l.late retryCnt) with l₂ | l₂ <;>
    rw [hr] at h <;> dsimp only at h
  · exact exitSync_keeps he h (hk.steps (refresh_steps (.inl hr)) hlate)
  have h₂ := hk.steps (refresh_steps (.inr hr)) hlate
  rcases hround : round myID acquire ops env (retryCnt + 1) l₂ with l₃ | l₃ <;>
    rw [hround] at h <;> dsimp only at h
  · exact exitSync_keeps he h (round_keeps hk hc (.inl hround) h₂)
  have h₃ := round_keeps hk hc (.inr hround) h₂
  split at h
  · exact exitSync_keeps he h h₃
  · exact retrySync_keeps hk hc he (retryCnt + 1) l₃ h h₃
termination_by maxWriteRetry * 2 + 1 - retryCnt
decreasing_by omega

/-! ## Running the loop on a small cluster -/

/-- Closures that record which of them ran: the syncs to `a` and `b` and the commit succeed, a
sync to any other node answers `ErrNotTopicLeader`, and `handleSyncResult` accepts the rounds the
callers' closures accept. -/
def recordingOps : SyncOps (List String) where
  doLocalWrite _ s := (s ++ ["write"], none)
  doLocalExit _ _ s := s ++ ["exit"]
  doLocalCommit s := (s ++ ["commit"], none)
  doLocalRollback s := some (s ++ ["rollback"])
  doRefresh _ s := (s ++ ["refresh"], none)
  doSlaveSync n _ s :=
    (s ++ ["sync " ++ n], if n = "a" ∨ n = "b" then none else some errNotTopicLeader)
  handleSyncResult k d := decide (k = d.topicInfo.isr.length ∧ k > d.topicInfo.replica / 2)
  send _ s := s ++ ["send"]

/-- Partition 0 of two replicas led by `a`, with the ISR `[a, b]`. -/
def twoNodeCoord : TopicCoordinator :=
  ⟨⟨⟨"a", ["a", "b"], 2, 1, 0⟩, ⟨some "a", "s1"⟩, false⟩, false, false⟩

/-- Nothing changes while the leader writes. -/
def quietEnv (d : CoordData) : SyncEnv := ⟨fun _ => false, fun _ => d, fun _ _ => none⟩

/-- **A write that answers `nil` committed on the whole ISR**: it wrote locally under data
that passed the leader and quorum checks, then in one round, under data that is the write's or a
refreshed one that passed them too, every other node of the ISR answered its sync with no error,
and the leader committed. -/
theorem doSyncOpToCluster_committed {env : SyncEnv} {coord coord' : TopicCoordinator} {s s' : σ}
    (hacq : ∀ n, acquire n = none)
    (hhandle : ∀ k d, ops.handleSyncResult k d = true ↔
      k = d.topicInfo.isr.length ∧ k > d.topicInfo.replica / 2)
    (h : doSyncOpToCluster myID acquire ops true env coord s = some (coord', s', none)) :
    ∃ s₁, ops.doLocalWrite coord.coordData s = (s₁, none) ∧ Checked myID coord.coordData ∧
      Committed ops myID coord coord.coordData s₁ coord' s' := by
  rcases doSyncOpToCluster_cases h with ⟨e, he⟩ | ⟨s₁, x, hw, hck, ⟨hx, hexit⟩ | ⟨rfl, hrun⟩⟩
  · -- a check before the local write answers an error
    simp at he
  · -- the local write failed, and the exit answers its error
    have hnone : x = none := exitSync_none hexit.symm
    rw [hnone] at hx
    cases hx
  · exact ⟨s₁, hw, hck,
      retrySync_committed hacq hhandle 0 _ (Or.inr ⟨rfl, rfl, hck⟩) .refl hrun.symm⟩

/-- On two nodes where every call succeeds, the write commits in its first round. -/
theorem doSyncOpToCluster_committed_two_nodes :
    ∃ s₁, recordingOps.doLocalWrite twoNodeCoord.coordData [] = (s₁, none) ∧
      Checked "a" twoNodeCoord.coordData ∧
      Committed recordingOps "a" twoNodeCoord twoNodeCoord.coordData s₁ twoNodeCoord
        ["write", "sync b", "commit", "exit"] :=
  @doSyncOpToCluster_committed (List String) "a" acquireRpcClient recordingOps
    (quietEnv twoNodeCoord.coordData) twoNodeCoord twoNodeCoord [] ["write", "sync b", "commit", "exit"]
    (fun _ => rfl) (fun k d => by simp only [recordingOps, decide_eq_true_eq]) (by
      have hrun : retrySync "a" acquireRpcClient recordingOps true (quietEnv twoNodeCoord.coordData)
          twoNodeCoord 0 ⟨twoNodeCoord.coordData, none, false, true, ["write"]⟩ =
          some (twoNodeCoord, ["write", "sync b", "commit", "exit"], none) := by
        rw [retrySync]
        decide
      exact hrun)

end Leader

/-! ## The replica's side -/

section Slave

variable {σ : Type} {myID : String} {ops : SlaveOps σ}

/-- What a replica's write can answer: a duplicate at once, with the state as it was; the error of
one of its three checks, with the state as it was; or the answer of its write and commit, with
the state after the request to leave the ISR on an error and after `doLocalExit`. -/
theorem doWriteOpOnSlave_cases {coord : TopicCoordinator} {s s' : σ} {r : Option CoordErr}
    (h : doWriteOpOnSlave myID ops coord s = (s', r)) :
    (ops.checkDupOnSlave coord.coordData s = true ∧ s' = s ∧ r = none) ∨
      (s' = s ∧ (r = some errTopicExitingOnSlave ∨ r = some errWriteDisabled ∨
        r = some errTopicWriteOnNonISR)) ∨
      ∃ s₁, ops.writeAndCommit coord.coordData s = (s₁, r) ∧
        s' = ops.doLocalExit r (if r.isSome then ops.send .leaveFromISR s₁ else s₁) := by
  unfold doWriteOpOnSlave at h
  dsimp only at h
  split at h
  · rename_i hdup
    simp only [Prod.mk.injEq] at h
    exact Or.inl ⟨hdup, h.1.symm, h.2.symm⟩
  split at h
  · simp only [Prod.mk.injEq] at h
    exact Or.inr (Or.inl ⟨h.1.symm, Or.inl h.2.symm⟩)
  split at h
  · simp only [Prod.mk.injEq] at h
    exact Or.inr (Or.inl ⟨h.1.symm, Or.inr (Or.inl h.2.symm)⟩)
  split at h
  · simp only [Prod.mk.injEq] at h
    exact Or.inr (Or.inl ⟨h.1.symm, Or.inr (Or.inr h.2.symm)⟩)
  · simp only [Prod.mk.injEq] at h
    obtain ⟨rfl, rfl⟩ := h
    exact Or.inr (Or.inr ⟨_, rfl, rfl⟩)

end Slave

end Nsq.Coord
