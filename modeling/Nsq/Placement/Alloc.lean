import Nsq.Placement.Leader

/-!
# Placing a new topic

`allocTopicLeaderAndISR` (data_placement_mgr.go) places the partitions of a topic that is not
ordered on the current nodes. It keeps the existing partitions `existPart` as they are and collects
their nodes: the leaders into `existLeaders`, the others into `existSlaves`. It reads the stats of
each current node, skipping those that fail. A first greedy scan over the stats sorted by
`LeaderLessLoader` gives each new partition, in order, the next node that is neither an existing
leader nor an existing slave, and adds it to `existLeaders`. A second scan over the stats sorted by
`SlaveLessLoader` gives each new partition the next nodes that are not its leader, not slaves and
not leaders, until its ISR holds `replica` nodes, adding each to `existSlaves`. A scan that runs out
of nodes answers `ErrNodeUnavailable`.

The existing partitions are an association list from partition numbers, the sets are lists, and
`getNsqdTopicStat` is an oracle from node IDs to stats, whose `NodeID` is `nodeID`. The two sorts
are functions of the stats lists: any sort is a permutation, and the results hold for every
permutation.
-/

namespace Nsq

namespace Placement

section Alloc

variable {σ : Type} (nodeID : σ → String)

/-- `existLeaders` as the existing partitions fill it: each ISR's leader. -/
def existLeadersOf (existPart : List (Nat × TopicPartitionMetaInfo)) : List String :=
  existPart.flatMap fun e => e.2.isr.filter fun n => decide (n = e.2.leader)

/-- `existSlaves` as the existing partitions fill it: each ISR's other nodes. -/
def existSlavesOf (existPart : List (Nat × TopicPartitionMetaInfo)) : List String :=
  existPart.flatMap fun e => e.2.isr.filter fun n => decide (n ≠ e.2.leader)

/-- The inner loop choosing a new partition's leader: the first node of the stats left that is
neither a leader nor a slave of another partition, with the stats after it. -/
def pickLeader (existLeaders existSlaves : List String) : List σ → Option (String × List σ)
  | [] => none
  | nodeInfo :: rest =>
    if nodeID nodeInfo ∈ existLeaders then pickLeader existLeaders existSlaves rest
    else if nodeID nodeInfo ∈ existSlaves then pickLeader existLeaders existSlaves rest
    else some (nodeID nodeInfo, rest)

/-- The leader loop over `n` partitions from `p`, with the leaders chosen so far, `existLeaders`
and the stats left: the leaders and `existLeaders` at its end. -/
def leaderLoop (existPart : List (Nat × TopicPartitionMetaInfo)) (existSlaves : List String) :
    Nat → Nat → List String → List String → List σ →
      Except CoordErr (List String × List String)
  | 0, _, leaders, existLeaders, _ => .ok (leaders, existLeaders)
  | n + 1, p, leaders, existLeaders, nodeTopicStats =>
    match existPart.lookup p with
    | some elem =>
      leaderLoop existPart existSlaves n (p + 1) (leaders ++ [elem.leader]) existLeaders
        nodeTopicStats
    | none =>
      match pickLeader nodeID existLeaders existSlaves nodeTopicStats with
      | none => .error .nodeUnavailable
      | some (l, rest) =>
        leaderLoop existPart existSlaves n (p + 1) (leaders ++ [l]) (existLeaders ++ [l]) rest

/-- The inner loop choosing a new partition's slaves from the stats left: the nodes that are not
its leader, not slaves and not leaders, each added to `existSlaves` and the ISR, until the ISR
holds `replica` nodes; with the stats after the last. -/
def pickSlaves (replica : Nat) (leader : String) (existLeaders : List String) :
    List σ → List String → List String →
      Except CoordErr (List String × List String × List σ)
  | [], _, _ => .error .nodeUnavailable
  | nodeInfo :: rest, existSlaves, isr =>
    if nodeID nodeInfo = leader then pickSlaves replica leader existLeaders rest existSlaves isr
    else if nodeID nodeInfo ∈ existSlaves then
      pickSlaves replica leader existLeaders rest existSlaves isr
    else if nodeID nodeInfo ∈ existLeaders then
      pickSlaves replica leader existLeaders rest existSlaves isr
    else
      let existSlaves := existSlaves ++ [nodeID nodeInfo]
      let isr := isr ++ [nodeID nodeInfo]
      if isr.length ≥ replica then .ok (isr, existSlaves, rest)
      else pickSlaves replica leader existLeaders rest existSlaves isr

/-- The ISR loop over the partitions' leaders from partition `p`, with the ISRs so far,
`existSlaves` and the stats left. -/
def slaveLoop (replica : Nat) (existPart : List (Nat × TopicPartitionMetaInfo))
    (existLeaders : List String) :
    List String → Nat → List (List String) → List String → List σ →
      Except CoordErr (List (List String))
  | [], _, isrlist, _, _ => .ok isrlist
  | leader :: leaders, p, isrlist, existSlaves, nodeTopicStats =>
    let isr := [leader]
    if isr.length ≥ replica then
      -- already done with replica
      slaveLoop replica existPart existLeaders leaders (p + 1) (isrlist ++ [isr]) existSlaves
        nodeTopicStats
    else
      match existPart.lookup p with
      | some elem =>
        slaveLoop replica existPart existLeaders leaders (p + 1) (isrlist ++ [elem.isr])
          existSlaves nodeTopicStats
      | none =>
        match pickSlaves nodeID replica leader existLeaders nodeTopicStats existSlaves isr with
        | .error e => .error e
        | .ok (isr, existSlaves, rest) =>
          slaveLoop replica existPart existLeaders leaders (p + 1) (isrlist ++ [isr]) existSlaves
            rest

variable (getNsqdTopicStat : String → Option σ) (leaderSort slaveSort : List σ → List σ)

/-- `allocTopicLeaderAndISR` for a topic that is not ordered: the partitions' leaders and ISRs. -/
def allocTopicLeaderAndISR (currentNodes : List String) (replica partitionNum : Nat)
    (existPart : List (Nat × TopicPartitionMetaInfo)) :
    Except CoordErr (List String × List (List String)) :=
  if currentNodes.length < replica ∨ currentNodes.length < partitionNum then .error .nodeUnavailable
  else if currentNodes.length < replica * partitionNum then .error .nodeUnavailable
  else
    let existLeaders := existLeadersOf existPart
    let existSlaves := existSlavesOf existPart
    -- a node whose stats cannot be read is passed
    let nodeTopicStats := currentNodes.filterMap getNsqdTopicStat
    if nodeTopicStats.length < partitionNum * replica then .error .nodeUnavailable
    else
      let nodeTopicStats := leaderSort nodeTopicStats
      match leaderLoop nodeID existPart existSlaves partitionNum 0 [] existLeaders
          nodeTopicStats with
      | .error e => .error e
      | .ok (leaders, existLeaders) =>
        let nodeTopicStats := slaveSort nodeTopicStats
        match slaveLoop nodeID replica existPart existLeaders leaders 0 [] existSlaves
            nodeTopicStats with
        | .error e => .error e
        | .ok isrlist => .ok (leaders, isrlist)

end Alloc

/-! ## The picks -/

section Picks

variable {σ : Type} (nodeID : σ → String)

/-- The leader picked is a node of the stats that is neither a leader nor a slave, and the stats
left after it are a suffix of the stats. -/
theorem pickLeader_eq_some {existLeaders existSlaves : List String} {l : String} {rest : List σ} :
    ∀ {nodeTopicStats : List σ},
      pickLeader nodeID existLeaders existSlaves nodeTopicStats = some (l, rest) →
        (∃ s ∈ nodeTopicStats, nodeID s = l) ∧ l ∉ existLeaders ∧ l ∉ existSlaves ∧
          rest <:+ nodeTopicStats
  | [], h => by cases h
  | s :: stats, h => by
    have hskip : pickLeader nodeID existLeaders existSlaves stats = some (l, rest) →
        (∃ t ∈ s :: stats, nodeID t = l) ∧ l ∉ existLeaders ∧ l ∉ existSlaves ∧
          rest <:+ s :: stats := fun h => by
      obtain ⟨⟨t, ht, hl⟩, hL, hS, hrest⟩ := pickLeader_eq_some h
      exact ⟨⟨t, List.mem_cons_of_mem s ht, hl⟩, hL, hS, hrest.trans (List.suffix_cons s stats)⟩
    unfold pickLeader at h
    split at h
    · exact hskip h
    split at h
    · exact hskip h
    rename_i hL hS
    injection h with h
    injection h with hl hrest
    subst hl hrest
    exact ⟨⟨s, List.mem_cons_self, rfl⟩, hL, hS, List.suffix_cons s stats⟩

/-- The slaves picked for an ISR below `replica` nodes: new nodes of the stats, none the leader,
a slave or a leader, appended to `existSlaves` and to the ISR, which then holds `replica` nodes. -/
theorem pickSlaves_eq_ok {replica : Nat} {leader : String} {existLeaders : List String}
    {isr' existSlaves' : List String} {rest : List σ} :
    ∀ {nodeTopicStats : List σ} {existSlaves isr : List String}, isr.length < replica →
      pickSlaves nodeID replica leader existLeaders nodeTopicStats existSlaves isr =
        .ok (isr', existSlaves', rest) →
      ∃ picked : List String, isr' = isr ++ picked ∧ existSlaves' = existSlaves ++ picked ∧
        isr'.length = replica ∧ picked.Nodup ∧
        (∀ x ∈ picked, x ≠ leader ∧ x ∉ existSlaves ∧ x ∉ existLeaders ∧
          ∃ s ∈ nodeTopicStats, nodeID s = x) ∧ rest <:+ nodeTopicStats
  | [], _, _, _, h => by cases h
  | s :: stats, existSlaves, isr, hlt, h => by
    have hskip : pickSlaves nodeID replica leader existLeaders stats existSlaves isr =
        .ok (isr', existSlaves', rest) →
        ∃ picked : List String, isr' = isr ++ picked ∧ existSlaves' = existSlaves ++ picked ∧
          isr'.length = replica ∧ picked.Nodup ∧
          (∀ x ∈ picked, x ≠ leader ∧ x ∉ existSlaves ∧ x ∉ existLeaders ∧
            ∃ t ∈ s :: stats, nodeID t = x) ∧ rest <:+ s :: stats := fun h => by
      obtain ⟨picked, hisr, hES, hlen, hnd, hpicked, hrest⟩ := pickSlaves_eq_ok hlt h
      refine ⟨picked, hisr, hES, hlen, hnd, fun x hx => ?_, hrest.trans (List.suffix_cons s stats)⟩
      obtain ⟨h1, h2, h3, t, ht, hx⟩ := hpicked x hx
      exact ⟨h1, h2, h3, t, List.mem_cons_of_mem s ht, hx⟩
    unfold pickSlaves at h
    split at h
    · exact hskip h
    split at h
    · exact hskip h
    split at h
    · exact hskip h
    rename_i hne hS hL
    dsimp only at h
    split at h
    · -- the ISR is full with this node
      rename_i hge
      injection h with h
      simp only [Prod.mk.injEq] at h
      obtain ⟨rfl, rfl, rfl⟩ := h
      rw [List.length_append, List.length_singleton] at hge
      refine ⟨[nodeID s], rfl, rfl, ?_, List.pairwise_singleton _ _, fun x hx => ?_,
        List.suffix_cons s stats⟩
      · rw [List.length_append, List.length_singleton]
        omega
      · rw [List.mem_singleton.mp hx]
        exact ⟨hne, hS, hL, s, List.mem_cons_self, rfl⟩
    · -- the node is added and the scan goes on
      rename_i hlt'
      obtain ⟨picked, hisr, hES, hlen, hnd, hpicked, hrest⟩ :=
        pickSlaves_eq_ok (Nat.lt_of_not_le hlt') h
      have hnotin : nodeID s ∉ picked := fun hx =>
        (hpicked _ hx).2.1 (List.mem_append_right _ (List.mem_singleton_self _))
      refine ⟨nodeID s :: picked, by rw [hisr, List.append_assoc]; rfl,
        by rw [hES, List.append_assoc]; rfl, hlen, List.nodup_cons.mpr ⟨hnotin, hnd⟩,
        fun x hx => ?_, hrest.trans (List.suffix_cons s stats)⟩
      rcases List.mem_cons.mp hx with rfl | hx
      · exact ⟨hne, hS, hL, s, List.mem_cons_self, rfl⟩
      · obtain ⟨h1, h2, h3, t, ht, htx⟩ := hpicked x hx
        exact ⟨h1, fun h => h2 (List.mem_append_left _ h), h3, t, List.mem_cons_of_mem s ht, htx⟩

end Picks

/-! ## The leader loop -/

/-- A node of an existing partition's ISR: one of `existLeaders` or `existSlaves`. -/
def InExist (existPart : List (Nat × TopicPartitionMetaInfo)) (n : String) : Prop :=
  n ∈ existLeadersOf existPart ∨ n ∈ existSlavesOf existPart

/-- Every node of an existing partition's ISR is a node of the existing partitions. -/
theorem inExist_of_lookup {existPart : List (Nat × TopicPartitionMetaInfo)} {p : Nat}
    {elem : TopicPartitionMetaInfo} (he : existPart.lookup p = some elem) {n : String}
    (hn : n ∈ elem.isr) : InExist existPart n := by
  obtain ⟨l₁, l₂, rfl, -⟩ := List.lookup_eq_some_iff.mp he
  have hmem : (p, elem) ∈ l₁ ++ (p, elem) :: l₂ := by simp
  by_cases hl : n = elem.leader
  · exact Or.inl (List.mem_flatMap.mpr ⟨_, hmem, List.mem_filter.mpr ⟨hn, decide_eq_true hl⟩⟩)
  · exact Or.inr (List.mem_flatMap.mpr ⟨_, hmem, List.mem_filter.mpr ⟨hn, decide_eq_true hl⟩⟩)

/-- An entry of a list with one more element is an entry of the list or the new element. -/
theorem getElem?_append_singleton_eq_some {α : Type} {l : List α} {a x : α} {j : Nat}
    (h : (l ++ [a])[j]? = some x) : (j < l.length ∧ l[j]? = some x) ∨ (j = l.length ∧ x = a) := by
  rcases Nat.lt_or_ge j l.length with hj | hj
  · exact Or.inl ⟨hj, by rwa [List.getElem?_append_left hj] at h⟩
  · rw [List.getElem?_append_right hj] at h
    have hlt := (List.getElem?_eq_some_iff.mp h).1
    rw [List.length_singleton] at hlt
    rw [show j - l.length = 0 by omega, List.getElem?_cons_zero, Option.some.injEq] at h
    exact Or.inr ⟨by omega, h.symm⟩

section Leaders

variable {existPart : List (Nat × TopicPartitionMetaInfo)} {currentNodes : List String}

/-- What the leader loop keeps of the leaders chosen so far: each existing partition has its
leader; each new one a current node outside the existing partitions' ISRs, added to
`existLeaders`; no two new partitions share a leader; and `existLeaders` keeps its start. -/
structure LeaderInv (existPart : List (Nat × TopicPartitionMetaInfo)) (currentNodes : List String)
    (leaders existLeaders : List String) : Prop where
  exist : ∀ j elem, existPart.lookup j = some elem → j < leaders.length →
    leaders[j]? = some elem.leader
  fresh : ∀ j x, existPart.lookup j = none → leaders[j]? = some x →
    ¬InExist existPart x ∧ x ∈ currentNodes ∧ x ∈ existLeaders
  distinct : ∀ j k x, existPart.lookup j = none → existPart.lookup k = none →
    leaders[j]? = some x → leaders[k]? = some x → j = k
  base : ∀ x ∈ existLeadersOf existPart, x ∈ existLeaders

theorem LeaderInv.init : LeaderInv existPart currentNodes [] (existLeadersOf existPart) where
  exist _ _ _ hlt := absurd hlt (Nat.not_lt_zero _)
  fresh _ _ _ hx := by cases hx
  distinct _ _ _ _ _ hx := by cases hx
  base _ hx := hx

variable {leaders existLeaders : List String}

/-- An existing partition keeps its leader. -/
theorem LeaderInv.keep (h : LeaderInv existPart currentNodes leaders existLeaders)
    {elem : TopicPartitionMetaInfo} (he : existPart.lookup leaders.length = some elem) :
    LeaderInv existPart currentNodes (leaders ++ [elem.leader]) existLeaders where
  exist j e hj hlt := by
    rw [List.length_append, List.length_singleton] at hlt
    rcases Nat.lt_or_ge j leaders.length with hj' | hj'
    · rw [List.getElem?_append_left hj']
      exact h.exist j e hj hj'
    · obtain rfl : j = leaders.length := by omega
      rw [he, Option.some.injEq] at hj
      rw [← hj]
      exact List.getElem?_concat_length
  fresh j x hj hx := by
    rcases getElem?_append_singleton_eq_some hx with ⟨-, hx⟩ | ⟨rfl, -⟩
    · exact h.fresh j x hj hx
    · rw [he] at hj
      cases hj
  distinct j k x hj hk hxj hxk := by
    rcases getElem?_append_singleton_eq_some hxj with ⟨-, hxj⟩ | ⟨rfl, -⟩
    · rcases getElem?_append_singleton_eq_some hxk with ⟨-, hxk⟩ | ⟨rfl, -⟩
      · exact h.distinct j k x hj hk hxj hxk
      · rw [he] at hk
        cases hk
    · rw [he] at hj
      cases hj
  base := h.base

/-- A new partition's leader is a current node that is neither a leader nor an existing slave. -/
theorem LeaderInv.pick (h : LeaderInv existPart currentNodes leaders existLeaders)
    (hn : existPart.lookup leaders.length = none) {x : String} (hxL : x ∉ existLeaders)
    (hxS : x ∉ existSlavesOf existPart) (hxc : x ∈ currentNodes) :
    LeaderInv existPart currentNodes (leaders ++ [x]) (existLeaders ++ [x]) where
  exist j e hj hlt := by
    rw [List.length_append, List.length_singleton] at hlt
    have hj' : j < leaders.length := by
      rcases Nat.lt_or_ge j leaders.length with hj' | hj'
      · exact hj'
      · obtain rfl : j = leaders.length := by omega
        rw [hn] at hj
        cases hj
    rw [List.getElem?_append_left hj']
    exact h.exist j e hj hj'
  fresh j y hj hy := by
    rcases getElem?_append_singleton_eq_some hy with ⟨-, hy⟩ | ⟨-, rfl⟩
    · obtain ⟨hex, hc, hl⟩ := h.fresh j y hj hy
      exact ⟨hex, hc, List.mem_append_left _ hl⟩
    · exact ⟨fun hin => hin.elim (fun hl => hxL (h.base _ hl)) hxS, hxc,
        List.mem_append_right _ (List.mem_singleton_self _)⟩
  distinct j k y hj hk hyj hyk := by
    -- an earlier new leader is in `existLeaders`, which the new one is not
    rcases getElem?_append_singleton_eq_some hyj with ⟨-, hj'⟩ | ⟨rfl, rfl⟩
    · rcases getElem?_append_singleton_eq_some hyk with ⟨-, hk'⟩ | ⟨-, rfl⟩
      · exact h.distinct j k y hj hk hj' hk'
      · exact absurd (h.fresh j _ hj hj').2.2 hxL
    · rcases getElem?_append_singleton_eq_some hyk with ⟨-, hk'⟩ | ⟨rfl, -⟩
      · exact absurd (h.fresh k _ hk hk').2.2 hxL
      · rfl
  base y hy := List.mem_append_left _ (h.base y hy)

variable {σ : Type} (nodeID : σ → String) (existPart currentNodes) in
/-- The leader loop keeps `LeaderInv` and adds one leader for each partition it runs over. -/
theorem leaderLoop_inv {L EL : List String} :
    ∀ (n : Nat) (leaders existLeaders : List String) (nodeTopicStats : List σ),
      (∀ s ∈ nodeTopicStats, nodeID s ∈ currentNodes) →
      LeaderInv existPart currentNodes leaders existLeaders →
      leaderLoop nodeID existPart (existSlavesOf existPart) n leaders.length leaders existLeaders
        nodeTopicStats = .ok (L, EL) →
      LeaderInv existPart currentNodes L EL ∧ L.length = leaders.length + n
  | 0, leaders, existLeaders, _, _, h, hrun => by
    simp only [leaderLoop, Except.ok.injEq, Prod.mk.injEq] at hrun
    obtain ⟨rfl, rfl⟩ := hrun
    exact ⟨h, rfl⟩
  | n + 1, leaders, existLeaders, stats, hstats, h, hrun => by
    unfold leaderLoop at hrun
    split at hrun
    · -- an existing partition
      rename_i elem he
      rw [show leaders.length + 1 = (leaders ++ [elem.leader]).length by simp] at hrun
      obtain ⟨hinv, hlen⟩ := leaderLoop_inv n _ _ stats hstats (h.keep he) hrun
      exact ⟨hinv, by rw [hlen, List.length_append, List.length_singleton]; omega⟩
    · rename_i hn
      split at hrun
      · cases hrun
      · -- a new partition: the leader picked from the stats left
        rename_i l rest hpick
        obtain ⟨⟨s, hs, rfl⟩, hL, hS, hrest⟩ := pickLeader_eq_some nodeID hpick
        rw [show leaders.length + 1 = (leaders ++ [nodeID s]).length by simp] at hrun
        obtain ⟨hinv, hlen⟩ := leaderLoop_inv n _ _ rest
          (fun t ht => hstats t (hrest.subset ht)) (h.pick hn hL hS (hstats s hs)) hrun
        exact ⟨hinv, by rw [hlen, List.length_append, List.length_singleton]; omega⟩

end Leaders

/-! ## The ISR loop -/

/-- The existing partitions' ISRs are pairwise disjoint. -/
def ExistDisjoint (existPart : List (Nat × TopicPartitionMetaInfo)) : Prop :=
  ∀ j k elem elem', j ≠ k → existPart.lookup j = some elem → existPart.lookup k = some elem' →
    elem.isr.Disjoint elem'.isr

section Slaves

variable {existPart : List (Nat × TopicPartitionMetaInfo)} {currentNodes : List String}
  {replica : Nat} {leaders existLeaders : List String}

/-- A new partition's ISR: `replica` distinct current nodes headed by the partition's leader,
each other node a slave outside the existing partitions and not a leader. -/
structure NewISR (existPart : List (Nat × TopicPartitionMetaInfo)) (currentNodes : List String)
    (replica : Nat) (leaders existLeaders : List String) (p : Nat)
    (isr existSlaves : List String) : Prop where
  length : isr.length = replica
  nodup : isr.Nodup
  head : isr.head? = leaders[p]?
  mem : ∀ n ∈ isr, n ∈ currentNodes
  slave : ∀ n ∈ isr, leaders[p]? = some n ∨
    (n ∈ existSlaves ∧ ¬InExist existPart n ∧ n ∉ existLeaders)

theorem NewISR.mono {p : Nat} {isr existSlaves existSlaves' : List String}
    (h : NewISR existPart currentNodes replica leaders existLeaders p isr existSlaves)
    (hsub : ∀ x ∈ existSlaves, x ∈ existSlaves') :
    NewISR existPart currentNodes replica leaders existLeaders p isr existSlaves' :=
  { h with
    slave := fun n hn => (h.slave n hn).imp_right fun ⟨hs, hex, hl⟩ => ⟨hsub n hs, hex, hl⟩ }

/-- What the ISR loop keeps of the ISRs chosen so far: each existing partition has its ISR, each
new one is a `NewISR`, the ISRs are pairwise disjoint, and `existSlaves` keeps its start. -/
structure SlaveInv (existPart : List (Nat × TopicPartitionMetaInfo)) (currentNodes : List String)
    (replica : Nat) (leaders existLeaders : List String) (isrlist : List (List String))
    (existSlaves : List String) : Prop where
  exist : ∀ j elem, existPart.lookup j = some elem → j < isrlist.length →
    isrlist[j]? = some elem.isr
  fresh : ∀ j isr, existPart.lookup j = none → isrlist[j]? = some isr →
    NewISR existPart currentNodes replica leaders existLeaders j isr existSlaves
  disjoint : isrlist.Pairwise List.Disjoint
  base : ∀ x ∈ existSlavesOf existPart, x ∈ existSlaves

theorem SlaveInv.init :
    SlaveInv existPart currentNodes replica leaders existLeaders [] (existSlavesOf existPart) where
  exist _ _ _ hlt := absurd hlt (Nat.not_lt_zero _)
  fresh _ _ _ hx := by cases hx
  disjoint := List.Pairwise.nil
  base _ hx := hx

variable {isrlist : List (List String)} {existSlaves : List String}

/-- A node that is neither a slave nor a leader is not a node of the existing partitions. -/
theorem SlaveInv.not_inExist
    (h : SlaveInv existPart currentNodes replica leaders existLeaders isrlist existSlaves)
    (hL : LeaderInv existPart currentNodes leaders existLeaders) {n : String}
    (hS : n ∉ existSlaves) (hEL : n ∉ existLeaders) : ¬InExist existPart n :=
  fun hin => hin.elim (fun hl => hEL (hL.base n hl)) (fun hs => hS (h.base n hs))

/-- An existing partition's ISR is disjoint from every ISR before it. -/
theorem SlaveInv.disjoint_exist
    (h : SlaveInv existPart currentNodes replica leaders existLeaders isrlist existSlaves)
    (hL : LeaderInv existPart currentNodes leaders existLeaders) (hdisj : ExistDisjoint existPart)
    {elem : TopicPartitionMetaInfo} (hq : existPart.lookup isrlist.length = some elem) :
    ∀ J ∈ isrlist, J.Disjoint elem.isr := by
  intro J hJ n hnJ hnI
  obtain ⟨j, hj⟩ := List.mem_iff_getElem?.mp hJ
  have hjq : j < isrlist.length := (List.getElem?_eq_some_iff.mp hj).1
  have hex : InExist existPart n := inExist_of_lookup hq hnI
  cases hk : existPart.lookup j with
  | some elem' =>
    -- two existing partitions
    have hJ' : J = elem'.isr := by
      rw [h.exist j elem' hk hjq, Option.some.injEq] at hj
      exact hj.symm
    exact hdisj j _ elem' elem (Nat.ne_of_lt hjq) hk hq (hJ' ▸ hnJ) hnI
  | none =>
    -- a new partition's nodes are all outside the existing partitions
    rcases (h.fresh j J hk hj).slave n hnJ with hl | ⟨-, hne, -⟩
    · exact (hL.fresh j n hk hl).1 hex
    · exact hne hex

/-- A new partition's ISR, of its leader and nodes that are neither slaves nor leaders nor nodes
of the existing partitions, is disjoint from every ISR before it. -/
theorem SlaveInv.disjoint_new
    (h : SlaveInv existPart currentNodes replica leaders existLeaders isrlist existSlaves)
    (hL : LeaderInv existPart currentNodes leaders existLeaders)
    (hq : existPart.lookup isrlist.length = none) {isr : List String}
    (hI : ∀ n ∈ isr, leaders[isrlist.length]? = some n ∨
      (n ∉ existSlaves ∧ ¬InExist existPart n ∧ n ∉ existLeaders)) :
    ∀ J ∈ isrlist, J.Disjoint isr := by
  intro J hJ n hnJ hnI
  obtain ⟨j, hj⟩ := List.mem_iff_getElem?.mp hJ
  have hjq : j < isrlist.length := (List.getElem?_eq_some_iff.mp hj).1
  cases hk : existPart.lookup j with
  | some elem =>
    have hJ' : J = elem.isr := by
      rw [h.exist j elem hk hjq, Option.some.injEq] at hj
      exact hj.symm
    have hex : InExist existPart n := inExist_of_lookup hk (hJ' ▸ hnJ)
    rcases hI n hnI with hl | ⟨-, hne, -⟩
    · exact (hL.fresh _ n hq hl).1 hex
    · exact hne hex
  | none =>
    -- the leaders are distinct and in `existLeaders`; the slaves are in `existSlaves`
    have hnew := (h.fresh j J hk hj).slave n hnJ
    rcases hI n hnI with hl | ⟨hES, -, hEL⟩
    · rcases hnew with hl' | ⟨-, -, hEL'⟩
      · exact Nat.ne_of_lt hjq (hL.distinct j _ n hk hq hl' hl)
      · exact hEL' (hL.fresh _ n hq hl).2.2
    · rcases hnew with hl' | ⟨hES', -, -⟩
      · exact hEL (hL.fresh j n hk hl').2.2
      · exact hES hES'

/-- An existing partition keeps its ISR. -/
theorem SlaveInv.keep
    (h : SlaveInv existPart currentNodes replica leaders existLeaders isrlist existSlaves)
    (hL : LeaderInv existPart currentNodes leaders existLeaders) (hdisj : ExistDisjoint existPart)
    {elem : TopicPartitionMetaInfo} (hq : existPart.lookup isrlist.length = some elem) :
    SlaveInv existPart currentNodes replica leaders existLeaders (isrlist ++ [elem.isr])
      existSlaves where
  exist j e hj hlt := by
    rw [List.length_append, List.length_singleton] at hlt
    rcases Nat.lt_or_ge j isrlist.length with hj' | hj'
    · rw [List.getElem?_append_left hj']
      exact h.exist j e hj hj'
    · obtain rfl : j = isrlist.length := by omega
      rw [hq, Option.some.injEq] at hj
      rw [← hj]
      exact List.getElem?_concat_length
  fresh j isr hj hisr := by
    rcases getElem?_append_singleton_eq_some hisr with ⟨-, hisr'⟩ | ⟨rfl, -⟩
    · exact h.fresh j isr hj hisr'
    · rw [hq] at hj
      cases hj
  disjoint := List.pairwise_append.mpr ⟨h.disjoint, List.pairwise_singleton _ _,
    fun J hJ I hI => List.mem_singleton.mp hI ▸ h.disjoint_exist hL hdisj hq J hJ⟩
  base := h.base

/-- A new partition takes an ISR of its leader and nodes that are neither slaves nor leaders. -/
theorem SlaveInv.add
    (h : SlaveInv existPart currentNodes replica leaders existLeaders isrlist existSlaves)
    (hL : LeaderInv existPart currentNodes leaders existLeaders)
    (hq : existPart.lookup isrlist.length = none) {isr existSlaves' : List String}
    (hnew : NewISR existPart currentNodes replica leaders existLeaders isrlist.length isr
      existSlaves')
    (hsub : ∀ x ∈ existSlaves, x ∈ existSlaves')
    (hI : ∀ n ∈ isr, leaders[isrlist.length]? = some n ∨
      (n ∉ existSlaves ∧ ¬InExist existPart n ∧ n ∉ existLeaders)) :
    SlaveInv existPart currentNodes replica leaders existLeaders (isrlist ++ [isr])
      existSlaves' where
  exist j e hj hlt := by
    rw [List.length_append, List.length_singleton] at hlt
    have hj' : j < isrlist.length := by
      rcases Nat.lt_or_ge j isrlist.length with hj' | hj'
      · exact hj'
      · obtain rfl : j = isrlist.length := by omega
        rw [hq] at hj
        cases hj
    rw [List.getElem?_append_left hj']
    exact h.exist j e hj hj'
  fresh j I hj hI' := by
    rcases getElem?_append_singleton_eq_some hI' with ⟨-, hI''⟩ | ⟨rfl, rfl⟩
    · exact (h.fresh j I hj hI'').mono hsub
    · exact hnew
  disjoint := List.pairwise_append.mpr ⟨h.disjoint, List.pairwise_singleton _ _,
    fun J hJ I hmem => List.mem_singleton.mp hmem ▸ h.disjoint_new hL hq hI J hJ⟩
  base x hx := hsub x (h.base x hx)

variable {σ : Type} (nodeID : σ → String) (existPart currentNodes replica leaders existLeaders) in
/-- The ISR loop over the leaders from partition `isrlist.length` on keeps `SlaveInv` and adds
one ISR for each of them. -/
theorem slaveLoop_inv (hL : LeaderInv existPart currentNodes leaders existLeaders)
    (hrep : 1 ≤ replica)
    (hone : replica = 1 → ∀ p elem, existPart.lookup p = some elem → elem.isr = [elem.leader])
    (hdisj : ExistDisjoint existPart) {R : List (List String)} :
    ∀ (rest : List String) (isrlist : List (List String)) (existSlaves : List String)
      (nodeTopicStats : List σ), leaders.drop isrlist.length = rest →
      (∀ s ∈ nodeTopicStats, nodeID s ∈ currentNodes) →
      SlaveInv existPart currentNodes replica leaders existLeaders isrlist existSlaves →
      slaveLoop nodeID replica existPart existLeaders rest isrlist.length isrlist existSlaves
        nodeTopicStats = .ok R →
      (∃ existSlaves', SlaveInv existPart currentNodes replica leaders existLeaders R
        existSlaves') ∧ R.length = isrlist.length + rest.length
  | [], isrlist, existSlaves, _, _, _, h, hrun => by
    simp only [slaveLoop, Except.ok.injEq] at hrun
    subst hrun
    exact ⟨⟨existSlaves, h⟩, rfl⟩
  | leader :: rest, isrlist, existSlaves, stats, hdrop, hstats, h, hrun => by
    have hq : leaders[isrlist.length]? = some leader := by
      rw [← Nat.add_zero isrlist.length, ← List.getElem?_drop, hdrop]
      rfl
    -- the loop goes on at the next partition with the leaders after this one
    have hnext : ∀ (X existSlaves' : List String) (stats' : List σ),
        (∀ s ∈ stats', nodeID s ∈ currentNodes) →
        SlaveInv existPart currentNodes replica leaders existLeaders (isrlist ++ [X])
          existSlaves' →
        slaveLoop nodeID replica existPart existLeaders rest (isrlist.length + 1)
          (isrlist ++ [X]) existSlaves' stats' = .ok R →
        (∃ existSlaves'', SlaveInv existPart currentNodes replica leaders existLeaders R
          existSlaves'') ∧ R.length = isrlist.length + (leader :: rest).length := by
      intro X existSlaves' stats' hstats' hinv hrun'
      have hlen : isrlist.length + 1 = (isrlist ++ [X]).length := by simp
      have hdrop' : leaders.drop (isrlist ++ [X]).length = rest := by
        rw [← hlen, ← List.drop_drop, hdrop]
        rfl
      rw [hlen] at hrun'
      obtain ⟨hR, hRlen⟩ := slaveLoop_inv hL hrep hone hdisj rest _ existSlaves' stats' hdrop' hstats' hinv hrun'
      exact ⟨hR, by rw [hRlen, ← hlen, List.length_cons]; omega⟩
    unfold slaveLoop at hrun
    dsimp only at hrun
    split at hrun
    · -- `replica` is 1: the ISR is the leader alone
      rename_i hge
      rw [List.length_singleton] at hge
      have hr : replica = 1 := by omega
      cases hk : existPart.lookup isrlist.length with
      | some elem =>
        -- an existing partition's ISR is then its leader alone, found again
        have hlead : leader = elem.leader := by
          have := hL.exist _ elem hk (List.getElem?_eq_some_iff.mp hq).1
          rw [hq, Option.some.injEq] at this
          exact this
        rw [show [leader] = elem.isr by rw [hone hr _ elem hk, hlead]] at hrun
        exact hnext _ existSlaves stats hstats (h.keep hL hdisj hk) hrun
      | none =>
        have hI : ∀ n ∈ [leader], leaders[isrlist.length]? = some n := fun n hn => by
          rw [List.mem_singleton.mp hn]
          exact hq
        have hnew : NewISR existPart currentNodes replica leaders existLeaders isrlist.length
            [leader] existSlaves :=
          { length := by rw [List.length_singleton, hr]
            nodup := List.pairwise_singleton _ _
            head := by rw [hq]; rfl
            mem := fun n hn => (hL.fresh _ n hk (hI n hn)).2.1
            slave := fun n hn => Or.inl (hI n hn) }
        exact hnext _ existSlaves stats hstats
          (h.add hL hk hnew (fun _ hx => hx) fun n hn => Or.inl (hI n hn)) hrun
    · rename_i hlt
      rw [List.length_singleton] at hlt
      split at hrun
      · -- an existing partition
        rename_i elem hk
        exact hnext _ existSlaves stats hstats (h.keep hL hdisj hk) hrun
      · rename_i hk
        split at hrun
        · cases hrun
        · -- a new partition: its leader and the slaves picked from the stats left
          rename_i isr' existSlaves' rest' hpick
          obtain ⟨picked, rfl, rfl, hlen, hnd, hpicked, hrest⟩ :=
            pickSlaves_eq_ok nodeID (by rw [List.length_singleton]; omega) hpick
          have hfresh := hL.fresh _ _ hk hq
          have hI : ∀ n ∈ [leader] ++ picked, leaders[isrlist.length]? = some n ∨
              (n ∉ existSlaves ∧ ¬InExist existPart n ∧ n ∉ existLeaders) := by
            intro n hn
            rcases List.mem_cons.mp hn with rfl | hn
            · exact Or.inl hq
            · obtain ⟨-, hS, hEL, -⟩ := hpicked n hn
              exact Or.inr ⟨hS, h.not_inExist hL hS hEL, hEL⟩
          have hnew : NewISR existPart currentNodes replica leaders existLeaders isrlist.length
              ([leader] ++ picked) (existSlaves ++ picked) :=
            { length := hlen
              nodup := List.nodup_cons.mpr ⟨fun hx => (hpicked leader hx).1 rfl, hnd⟩
              head := by rw [hq]; rfl
              mem := fun n hn => by
                rcases List.mem_cons.mp hn with rfl | hn
                · exact hfresh.2.1
                · obtain ⟨-, -, -, s, hs, rfl⟩ := hpicked n hn
                  exact hstats s hs
              slave := fun n hn => by
                rcases List.mem_cons.mp hn with rfl | hn
                · exact Or.inl hq
                · obtain ⟨-, hS, hEL, -⟩ := hpicked n hn
                  exact Or.inr ⟨List.mem_append_right _ hn, h.not_inExist hL hS hEL, hEL⟩ }
          exact hnext _ _ rest' (fun t ht => hstats t (hrest.subset ht))
            (h.add hL hk hnew (fun _ hx => List.mem_append_left _ hx) hI) hrun

end Slaves

/-! ## Placement -/

section Placing

variable {σ : Type} (nodeID : σ → String) (getNsqdTopicStat : String → Option σ)
  (leaderSort slaveSort : List σ → List σ)

/-- When the stats read name their nodes and the sorts are permutations, every stats the loops
scan is of a current node. -/
theorem nodeID_mem_of_sorted (hstat : ∀ n s, getNsqdTopicStat n = some s → nodeID s = n)
    {sort : List σ → List σ} (hsort : ∀ l, (sort l).Perm l) (currentNodes : List String) :
    ∀ s ∈ sort (currentNodes.filterMap getNsqdTopicStat), nodeID s ∈ currentNodes := by
  intro s hs
  obtain ⟨n, hn, hns⟩ := List.mem_filterMap.mp ((hsort _).mem_iff.mp hs)
  rw [hstat n s hns]
  exact hn

/-- `allocTopicLeaderAndISR` places each partition: an existing one keeps its leader and ISR,
and a new one gets `replica` distinct current nodes headed by its leader; no node is in two
partitions' ISRs. This needs `replica ≥ 1`, existing ISRs that are pairwise disjoint and, when
`replica` is 1, an existing ISR of its leader alone: the ISR loop then gives every partition its
leader alone. The stats read must name their nodes and the sorts be permutations. -/
theorem allocTopicLeaderAndISR_disjoint {currentNodes : List String} {replica partitionNum : Nat}
    {existPart : List (Nat × TopicPartitionMetaInfo)} {leaders : List String}
    {isrlist : List (List String)}
    (hstat : ∀ n s, getNsqdTopicStat n = some s → nodeID s = n)
    (hleaderSort : ∀ l, (leaderSort l).Perm l) (hslaveSort : ∀ l, (slaveSort l).Perm l)
    (hrep : 1 ≤ replica) (hdisj : ExistDisjoint existPart)
    (hone : replica = 1 → ∀ p elem, existPart.lookup p = some elem → elem.isr = [elem.leader])
    (h : allocTopicLeaderAndISR nodeID getNsqdTopicStat leaderSort slaveSort currentNodes replica
      partitionNum existPart = .ok (leaders, isrlist)) :
    leaders.length = partitionNum ∧ isrlist.length = partitionNum ∧
      (∀ p elem, existPart.lookup p = some elem → p < partitionNum →
        leaders[p]? = some elem.leader ∧ isrlist[p]? = some elem.isr) ∧
      (∀ p isr, existPart.lookup p = none → isrlist[p]? = some isr →
        isr.length = replica ∧ isr.Nodup ∧ isr.head? = leaders[p]? ∧ ∀ n ∈ isr, n ∈ currentNodes) ∧
      isrlist.Pairwise List.Disjoint := by
  unfold allocTopicLeaderAndISR at h
  -- the node count checks passed
  split at h
  · cases h
  split at h
  · cases h
  dsimp only at h
  split at h
  · cases h
  split at h
  · cases h
  rename_i L EL hlead
  split at h
  · cases h
  rename_i R hslave
  injection h with h
  simp only [Prod.mk.injEq] at h
  obtain ⟨rfl, rfl⟩ := h
  have hstatsL := nodeID_mem_of_sorted nodeID getNsqdTopicStat hstat hleaderSort currentNodes
  have hstatsS : ∀ s ∈ slaveSort (leaderSort (currentNodes.filterMap getNsqdTopicStat)),
      nodeID s ∈ currentNodes := fun s hs =>
    hstatsL s ((hslaveSort _).mem_iff.mp hs)
  -- the leader loop from no leaders, then the ISR loop from no ISRs
  obtain ⟨hL, hLlen⟩ := leaderLoop_inv existPart currentNodes nodeID partitionNum [] _ _ hstatsL
    LeaderInv.init hlead
  obtain ⟨⟨_, hS⟩, hSlen⟩ := slaveLoop_inv existPart currentNodes replica L EL nodeID hL
    hrep hone hdisj L [] _ _ List.drop_zero hstatsS SlaveInv.init hslave
  rw [List.length_nil, Nat.zero_add] at hLlen hSlen
  refine ⟨hLlen, hSlen.trans hLlen, fun p elem hp hlt => ⟨hL.exist p elem hp (hLlen ▸ hlt),
    hS.exist p elem hp (hSlen ▸ hLlen ▸ hlt)⟩, fun p isr hp hisr => ?_, hS.disjoint⟩
  have hnew := hS.fresh p isr hp hisr
  exact ⟨hnew.length, hnew.nodup, hnew.head, hnew.mem⟩

/- Four nodes whose stats name them, two partitions of two replicas, partition 0 existing on
`a` and `b`: partition 1 gets `c` as leader and `d` as slave. -/
example :
    allocTopicLeaderAndISR id some id id ["a", "b", "c", "d"] 2 2 [(0, ⟨"a", ["a", "b"]⟩)] =
        .ok (["a", "c"], [["a", "b"], ["c", "d"]]) ∧
      ["a", "c"].length = 2 ∧ [["a", "b"], ["c", "d"]].length = 2 ∧
      (∀ p elem, [(0, (⟨"a", ["a", "b"]⟩ : TopicPartitionMetaInfo))].lookup p = some elem →
        p < 2 → ["a", "c"][p]? = some elem.leader ∧ [["a", "b"], ["c", "d"]][p]? = some elem.isr) ∧
      (∀ p isr, [(0, (⟨"a", ["a", "b"]⟩ : TopicPartitionMetaInfo))].lookup p = none →
        [["a", "b"], ["c", "d"]][p]? = some isr →
        isr.length = 2 ∧ isr.Nodup ∧ isr.head? = ["a", "c"][p]? ∧
          ∀ n ∈ isr, n ∈ ["a", "b", "c", "d"]) ∧
      [["a", "b"], ["c", "d"]].Pairwise List.Disjoint := by
  have h : allocTopicLeaderAndISR id some id id ["a", "b", "c", "d"] 2 2
      [(0, ⟨"a", ["a", "b"]⟩)] = .ok (["a", "c"], [["a", "b"], ["c", "d"]]) := by decide
  -- one existing partition: its key is the only one
  have hdisj : ExistDisjoint [(0, (⟨"a", ["a", "b"]⟩ : TopicPartitionMetaInfo))] := by
    intro j k elem elem' hjk hj hk
    have hj0 : j = 0 := by
      rcases j with _ | j
      · rfl
      · cases hj
    have hk0 : k = 0 := by
      rcases k with _ | k
      · rfl
      · cases hk
    exact absurd (hj0.trans hk0.symm) hjk
  exact ⟨h, allocTopicLeaderAndISR_disjoint id some id id (fun _ _ hs => (Option.some.inj hs).symm)
    List.Perm.refl List.Perm.refl (by decide) hdisj (fun h => absurd h (by decide)) h⟩

/-- With one replica, the ISR loop gives a partition its leader alone, even an existing partition
whose ISR holds two nodes: partition 0, existing on `a` and `b`, is placed on `a` alone. -/
theorem allocTopicLeaderAndISR_replica_one :
    allocTopicLeaderAndISR id some id id ["a", "b"] 1 1 [(0, ⟨"a", ["a", "b"]⟩)] =
      .ok (["a"], [["a"]]) := by
  decide

end Placing

end Placement

end Nsq
