import Mathlib

/-!
# Electing a new topic leader

`chooseNewLeaderFromISR` (data_placement_mgr.go) picks the new leader of a topic partition that is
not ordered in two passes over its ISR. The first keeps the replicas that are alive (in
`currentNodes`), are not the old leader and answer `getNsqdLastCommitLogID`, with a running maximum
of their IDs, from 0, and the list of the replicas at it. The second, when that list holds several
replicas, is meant to pick the least loaded of them by `GetNodeLeaderLoadFactor`, skipping those
whose stats cannot be read.

The two RPCs are oracles: each replica answers a commit log ID, and stats, or an error. The second
loop is written over any order of load factors; the election uses `GetNodeLeaderLoadFactor`
(`getNodeLeaderLoadFactor`, with the `float64` arithmetic in `ℚ`), and `minLF` starts at
`float64(math.MaxInt64)`.

The first pass does what it is for: the replicas it keeps are exactly the alive non-leader replicas
that answered the newest ID, which no answered ID exceeds (`newestLoop_spec`), so an elected leader
is one of them (`chooseNewLeaderFromISR_newest`). The second pass never lowers `minLF`, so every
load factor below `maxLF` replaces the choice: it elects the last replica whose stats it reads
(`leastLoadLoop_last`). Every load factor is capped at 100 (`getNodeLeaderLoadFactor_le`), so
the election answers the last newest replica whose stats it reads, whatever the load factors
(`chooseNewLeaderFromISR_last_readable`, `chooseNewLeaderFromISR_not_least_loaded`).
-/

namespace Nsq

namespace Placement

/-- The part of `TopicPartitionMetaInfo` placement reads: the leader and the ISR. -/
structure TopicPartitionMetaInfo where
  leader : String
  isr : List String
  deriving DecidableEq, Repr

/-- The coordinator errors placement answers. -/
inductive CoordErr where
  /-- `ErrNoLeaderCanBeElected` -/
  | noLeaderCanBeElected
  /-- `ErrNodeUnavailable` -/
  | nodeUnavailable
  deriving DecidableEq, Repr

section Election

variable {σ β : Type} (getNsqdLastCommitLogID : String → Option Int)
  (getNsqdTopicStat : String → Option σ) (loadFactor : σ → β)

/-- The first loop of `chooseNewLeaderFromISR` over the replicas left: the newest replicas and
their ID, updated by each alive non-leader replica that answers its last commit log ID. -/
def newestLoop (currentNodes : List String) (leader : String) :
    List String → List String → Int → List String × Int
  | [], newestReplicas, newestLogID => (newestReplicas, newestLogID)
  | replica :: rest, newestReplicas, newestLogID =>
    if replica ∉ currentNodes then newestLoop currentNodes leader rest newestReplicas newestLogID
    else if replica = leader then newestLoop currentNodes leader rest newestReplicas newestLogID
    else
      match getNsqdLastCommitLogID replica with
      | none => newestLoop currentNodes leader rest newestReplicas newestLogID
      | some cid =>
        if cid > newestLogID then newestLoop currentNodes leader rest [replica] cid
        else if cid = newestLogID then
          newestLoop currentNodes leader rest (newestReplicas ++ [replica]) newestLogID
        else newestLoop currentNodes leader rest newestReplicas newestLogID

variable [LT β] [DecidableRel (α := β) (· < ·)]

/-- The second loop of `chooseNewLeaderFromISR` over the newest replicas left: a replica whose stats
answer replaces the choice when there is none yet or its load factor is below `minLF`, which the
loop never updates. -/
def leastLoadLoop (minLF : β) : List String → String → String
  | [], newLeader => newLeader
  | replica :: rest, newLeader =>
    match getNsqdTopicStat replica with
    | none => leastLoadLoop minLF rest newLeader
    | some stat =>
      let lf := loadFactor stat
      if newLeader = "" ∨ lf < minLF then leastLoadLoop minLF rest replica
      else leastLoadLoop minLF rest newLeader

/-- The choice among the newest replicas: the only one, else the least loaded by the second loop,
`minLF` starting at `float64(math.MaxInt64)`. -/
def selectLeastLoad (maxLF : β) (newestReplicas : List String) : String :=
  match newestReplicas with
  | [r] => r
  | _ => leastLoadLoop getNsqdTopicStat loadFactor maxLF newestReplicas ""

end Election

/-! ## The load factor -/

/-- The fields of `NodeTopicStats` the leader load factor reads: the values of the maps
`ChannelDepthData` and `TopicLeaderDataSize` (MB), and the node's average write level, which
`GetNodeAvgWriteLevel` computes from the hourly publish statistics. -/
structure NodeTopicStats where
  channelDepthData : List Int
  topicLeaderDataSize : List Int
  avgWriteLevel : ℚ
  deriving DecidableEq, Repr

/-- `HIGHEST_PUB_QPS_LEVEL` -/
def highestPubQpsLevel : ℚ := 100

/-- `HIGHEST_LEFT_CONSUME_MB_SIZE` -/
def highestLeftConsumeMBSize : Int := 50 * 1024

/-- `HIGHEST_LEFT_DATA_MB_SIZE` -/
def highestLeftDataMBSize : Int := 200 * 1024

/-- `GetNodeLeaderLoadFactor`: the write level, the data left to consume and the leader data on
disk, each capped, weighted 70, 20 and 10. The `float64` arithmetic is taken exact, in `ℚ`, and
the `int64` sums of MB sizes as integers. -/
def getNodeLeaderLoadFactor (stat : NodeTopicStats) : ℚ :=
  let leftConsumed := min (stat.channelDepthData.sum + stat.channelDepthData.length)
    highestLeftConsumeMBSize
  let totalLeaderDataSize := min (stat.topicLeaderDataSize.sum + stat.topicLeaderDataSize.length)
    highestLeftDataMBSize
  let avgWrite := min stat.avgWriteLevel highestPubQpsLevel
  avgWrite / highestPubQpsLevel * 70 + (leftConsumed : ℚ) / highestLeftConsumeMBSize * 20 +
    (totalLeaderDataSize : ℚ) / highestLeftDataMBSize * 10

/-- `float64(math.MaxInt64)`, the start of `minLF`: `2 ^ 63 - 1` rounds to `2 ^ 63`. -/
def maxInt64Float : ℚ := 2 ^ 63

/-- A part of the load factor: a value capped at `H`, over `H`, times its weight. -/
theorem capped_div_mul_le {x H k : ℚ} (hH : 0 < H) (hk : 0 ≤ k) (hx : x ≤ H) : x / H * k ≤ k :=
  calc x / H * k ≤ 1 * k := mul_le_mul_of_nonneg_right ((div_le_one hH).mpr hx) hk
    _ = k := one_mul k

/-- Every load factor is at most 100: each of its three parts is capped. -/
theorem getNodeLeaderLoadFactor_le (stat : NodeTopicStats) : getNodeLeaderLoadFactor stat ≤ 100 := by
  unfold getNodeLeaderLoadFactor
  dsimp only
  have hw := capped_div_mul_le (k := 70) (by norm_num [highestPubQpsLevel]) (by norm_num)
    (min_le_right stat.avgWriteLevel highestPubQpsLevel)
  have hc := capped_div_mul_le (k := 20) (H := (highestLeftConsumeMBSize : ℚ))
    (by norm_num [highestLeftConsumeMBSize]) (by norm_num)
    (x := ((min (stat.channelDepthData.sum + stat.channelDepthData.length)
      highestLeftConsumeMBSize : Int) : ℚ)) (by exact_mod_cast min_le_right _ _)
  have hd := capped_div_mul_le (k := 10) (H := (highestLeftDataMBSize : ℚ))
    (by norm_num [highestLeftDataMBSize]) (by norm_num)
    (x := ((min (stat.topicLeaderDataSize.sum + stat.topicLeaderDataSize.length)
      highestLeftDataMBSize : Int) : ℚ)) (by exact_mod_cast min_le_right _ _)
  linarith

/-- Every load factor is below `minLF`'s start. -/
theorem getNodeLeaderLoadFactor_lt (stat : NodeTopicStats) :
    getNodeLeaderLoadFactor stat < maxInt64Float :=
  calc getNodeLeaderLoadFactor stat ≤ 100 := getNodeLeaderLoadFactor_le stat
    _ < maxInt64Float := by norm_num [maxInt64Float]

/-- `chooseNewLeaderFromISR` for a topic that is not ordered: the new leader and its last commit log
ID. The two RPCs are oracles by node. -/
def chooseNewLeaderFromISR (getNsqdLastCommitLogID : String → Option Int)
    (getNsqdTopicStat : String → Option NodeTopicStats) (topicInfo : TopicPartitionMetaInfo)
    (currentNodes : List String) : Except CoordErr (String × Int) :=
  let (newestReplicas, newestLogID) :=
    newestLoop getNsqdLastCommitLogID currentNodes topicInfo.leader topicInfo.isr [] 0
  let newLeader :=
    selectLeastLoad getNsqdTopicStat getNodeLeaderLoadFactor maxInt64Float newestReplicas
  if newLeader = "" then .error .noLeaderCanBeElected else .ok (newLeader, newestLogID)

/-! ## The first pass: the newest replicas -/

section Newest

variable {getNsqdLastCommitLogID : String → Option Int} {currentNodes : List String}
  {leader : String}

variable (getNsqdLastCommitLogID currentNodes leader) in
/-- After the replicas `seen`, the newest replicas `acc` at ID `id`: each is an alive non-leader
replica seen that answered `id`, no alive non-leader replica seen answered more, and each that
answered `id` is kept. -/
structure Newest (seen acc : List String) (id : Int) : Prop where
  mem : ∀ r ∈ acc, r ∈ seen ∧ r ∈ currentNodes ∧ r ≠ leader ∧ getNsqdLastCommitLogID r = some id
  le : ∀ r ∈ seen, r ∈ currentNodes → r ≠ leader →
    ∀ c, getNsqdLastCommitLogID r = some c → c ≤ id
  complete : ∀ r ∈ seen, r ∈ currentNodes → r ≠ leader →
    getNsqdLastCommitLogID r = some id → r ∈ acc

variable {seen acc : List String} {id : Int} {r : String}

theorem newest_nil : Newest getNsqdLastCommitLogID currentNodes leader [] [] id :=
  ⟨nofun, nofun, nofun⟩

/-- A replica that is dead, the leader, silent or behind changes nothing. -/
theorem Newest.skip (h : Newest getNsqdLastCommitLogID currentNodes leader seen acc id)
    (hr : r ∈ currentNodes → r ≠ leader → ∀ c, getNsqdLastCommitLogID r = some c → c < id) :
    Newest getNsqdLastCommitLogID currentNodes leader (seen ++ [r]) acc id where
  mem x hx := by
    obtain ⟨hs, hrest⟩ := h.mem x hx
    exact ⟨List.mem_append_left _ hs, hrest⟩
  le x hx halive hne c hc := by
    rcases List.mem_append.mp hx with hx | hx
    · exact h.le x hx halive hne c hc
    · rw [List.mem_singleton.mp hx] at halive hne hc
      exact Int.le_of_lt (hr halive hne c hc)
  complete x hx halive hne hc := by
    rcases List.mem_append.mp hx with hx | hx
    · exact h.complete x hx halive hne hc
    · rw [List.mem_singleton.mp hx] at halive hne hc
      exact absurd (hr halive hne id hc) (Int.lt_irrefl id)

/-- A replica past the newest ID starts the newest replicas afresh. -/
theorem Newest.reset (h : Newest getNsqdLastCommitLogID currentNodes leader seen acc id)
    (halive : r ∈ currentNodes) (hne : r ≠ leader) {c : Int}
    (hc : getNsqdLastCommitLogID r = some c) (hlt : id < c) :
    Newest getNsqdLastCommitLogID currentNodes leader (seen ++ [r]) [r] c where
  mem x hx := by
    rw [List.mem_singleton.mp hx]
    exact ⟨List.mem_append_right _ (List.mem_singleton_self r), halive, hne, hc⟩
  le x hx halive' hne' c' hc' := by
    rcases List.mem_append.mp hx with hx | hx
    · exact Int.le_of_lt (Int.lt_of_le_of_lt (h.le x hx halive' hne' c' hc') hlt)
    · rw [List.mem_singleton.mp hx, hc, Option.some.injEq] at hc'
      exact Int.le_of_eq hc'.symm
  complete x hx halive' hne' hc' := by
    rcases List.mem_append.mp hx with hx | hx
    · -- a replica seen before answered at most `id`, below `c`
      have := h.le x hx halive' hne' c hc'
      omega
    · exact hx

/-- A replica at the newest ID joins the newest replicas. -/
theorem Newest.tie (h : Newest getNsqdLastCommitLogID currentNodes leader seen acc id)
    (halive : r ∈ currentNodes) (hne : r ≠ leader) (hc : getNsqdLastCommitLogID r = some id) :
    Newest getNsqdLastCommitLogID currentNodes leader (seen ++ [r]) (acc ++ [r]) id where
  mem x hx := by
    rcases List.mem_append.mp hx with hx | hx
    · obtain ⟨hs, hrest⟩ := h.mem x hx
      exact ⟨List.mem_append_left _ hs, hrest⟩
    · rw [List.mem_singleton.mp hx]
      exact ⟨List.mem_append_right _ (List.mem_singleton_self r), halive, hne, hc⟩
  le x hx halive' hne' c' hc' := by
    rcases List.mem_append.mp hx with hx | hx
    · exact h.le x hx halive' hne' c' hc'
    · rw [List.mem_singleton.mp hx, hc, Option.some.injEq] at hc'
      exact Int.le_of_eq hc'.symm
  complete x hx halive' hne' hc' := by
    rcases List.mem_append.mp hx with hx | hx
    · exact List.mem_append_left _ (h.complete x hx halive' hne' hc')
    · exact List.mem_append_right _ hx

variable (getNsqdLastCommitLogID currentNodes leader) in
/-- The first loop keeps the newest replicas over the replicas it passes, and never lowers the
newest ID. -/
theorem newestLoop_newest : ∀ (rest : List String) {seen acc : List String} {id : Int},
    Newest getNsqdLastCommitLogID currentNodes leader seen acc id →
      Newest getNsqdLastCommitLogID currentNodes leader (seen ++ rest)
        (newestLoop getNsqdLastCommitLogID currentNodes leader rest acc id).1
        (newestLoop getNsqdLastCommitLogID currentNodes leader rest acc id).2 ∧
      id ≤ (newestLoop getNsqdLastCommitLogID currentNodes leader rest acc id).2
  | [], _, _, _, h => by
    rw [List.append_nil]
    exact ⟨h, Int.le_refl _⟩
  | r :: rest, seen, acc, id, h => by
    -- each branch of the loop body keeps `Newest` over `seen ++ [r]`, then the loop goes on
    have hnext : ∀ {acc' : List String} {id' : Int}, id ≤ id' →
        Newest getNsqdLastCommitLogID currentNodes leader (seen ++ [r]) acc' id' →
        Newest getNsqdLastCommitLogID currentNodes leader (seen ++ r :: rest)
          (newestLoop getNsqdLastCommitLogID currentNodes leader rest acc' id').1
          (newestLoop getNsqdLastCommitLogID currentNodes leader rest acc' id').2 ∧
        id ≤ (newestLoop getNsqdLastCommitLogID currentNodes leader rest acc' id').2 := by
      intro acc' id' hle h'
      obtain ⟨hrest, hmono⟩ := newestLoop_newest rest h'
      rw [List.append_assoc, List.singleton_append] at hrest
      exact ⟨hrest, Int.le_trans hle hmono⟩
    unfold newestLoop
    by_cases halive : r ∈ currentNodes
    · rw [if_neg (not_not.mpr halive)]
      by_cases hne : r = leader
      · rw [if_pos hne]
        exact hnext (Int.le_refl _) (h.skip fun _ h' => absurd hne h')
      · rw [if_neg hne]
        cases hc : getNsqdLastCommitLogID r with
        | none => exact hnext (Int.le_refl _) (h.skip fun _ _ c h' => by rw [hc] at h'; cases h')
        | some c =>
          dsimp only
          by_cases hlt : c > id
          · rw [if_pos hlt]
            exact hnext (Int.le_of_lt hlt) (h.reset halive hne hc hlt)
          · rw [if_neg hlt]
            by_cases heq : c = id
            · rw [if_pos heq]
              rw [heq] at hc
              exact hnext (Int.le_refl _) (h.tie halive hne hc)
            · rw [if_neg heq]
              refine hnext (Int.le_refl _) (h.skip fun _ _ c' h' => ?_)
              rw [hc, Option.some.injEq] at h'
              omega
    · rw [if_pos halive]
      exact hnext (Int.le_refl _) (h.skip fun h' => absurd h' halive)

variable (getNsqdLastCommitLogID currentNodes leader) in
/-- The first pass of `chooseNewLeaderFromISR` keeps exactly the alive non-leader replicas of the
ISR that answered the newest ID, at least 0 and no smaller than any answered ID. -/
theorem newestLoop_spec (isr : List String) :
    Newest getNsqdLastCommitLogID currentNodes leader isr
        (newestLoop getNsqdLastCommitLogID currentNodes leader isr [] 0).1
        (newestLoop getNsqdLastCommitLogID currentNodes leader isr [] 0).2 ∧
      0 ≤ (newestLoop getNsqdLastCommitLogID currentNodes leader isr [] 0).2 := by
  have h := newestLoop_newest getNsqdLastCommitLogID currentNodes leader isr
    (newest_nil : Newest getNsqdLastCommitLogID currentNodes leader [] [] 0)
  rw [List.nil_append] at h
  exact h

end Newest

/-! ## The second pass: the last readable replica -/

section LeastLoad

variable {getNsqdTopicStat : String → Option σ} {loadFactor : σ → β}
  [LT β] [DecidableRel (α := β) (· < ·)] {minLF : β}

variable (getNsqdTopicStat loadFactor minLF) in
/-- The second loop answers its first choice or one of the replicas it passes. -/
theorem leastLoadLoop_mem : ∀ (rest : List String) (newLeader : String),
    leastLoadLoop getNsqdTopicStat loadFactor minLF rest newLeader = newLeader ∨
      leastLoadLoop getNsqdTopicStat loadFactor minLF rest newLeader ∈ rest
  | [], _ => .inl rfl
  | r :: rest, newLeader => by
    unfold leastLoadLoop
    cases getNsqdTopicStat r with
    | none =>
      rcases leastLoadLoop_mem rest newLeader with h | h
      · exact .inl h
      · exact .inr (List.mem_cons_of_mem r h)
    | some stat =>
      dsimp only
      split
      · rcases leastLoadLoop_mem rest r with h | h
        · rw [h]
          exact .inr List.mem_cons_self
        · exact .inr (List.mem_cons_of_mem r h)
      · rcases leastLoadLoop_mem rest newLeader with h | h
        · exact .inl h
        · exact .inr (List.mem_cons_of_mem r h)

/-- A choice among the newest replicas that is not empty is one of them. -/
theorem selectLeastLoad_mem {maxLF : β} {newest : List String}
    (h : selectLeastLoad getNsqdTopicStat loadFactor maxLF newest ≠ "") :
    selectLeastLoad getNsqdTopicStat loadFactor maxLF newest ∈ newest := by
  revert h
  unfold selectLeastLoad
  split
  · intro _
    exact List.mem_singleton_self _
  · intro h
    rcases leastLoadLoop_mem getNsqdTopicStat loadFactor maxLF newest "" with h' | h'
    · exact absurd h' h
    · exact h'

/-- With every load factor below `minLF`, the second loop answers the last replica whose stats it
reads, or its first choice when it reads none: `minLF` is never lowered to the best seen. -/
theorem leastLoadLoop_last (hlf : ∀ stat, loadFactor stat < minLF) :
    ∀ (rest : List String) (newLeader : String),
      leastLoadLoop getNsqdTopicStat loadFactor minLF rest newLeader =
        ((rest.filter fun r => (getNsqdTopicStat r).isSome).getLast?).getD newLeader
  | [], _ => rfl
  | r :: rest, newLeader => by
    unfold leastLoadLoop
    cases hs : getNsqdTopicStat r with
    | none =>
      rw [leastLoadLoop_last hlf rest newLeader,
        List.filter_cons_of_neg (by rw [hs, Option.isSome_none]; exact Bool.false_ne_true)]
    | some stat =>
      dsimp only
      rw [if_pos (.inr (hlf stat)), leastLoadLoop_last hlf rest r,
        List.filter_cons_of_pos (by rw [hs]; rfl), List.getLast?_cons, Option.getD_some]

end LeastLoad

/-! ## The election -/

section Choose

variable {getNsqdLastCommitLogID : String → Option Int}
  {getNsqdTopicStat : String → Option NodeTopicStats} {topicInfo : TopicPartitionMetaInfo}
  {currentNodes : List String}

/-- An elected leader is an alive replica of the ISR other than the old leader, at the newest last
commit log ID, which no alive non-leader replica that answered exceeds. -/
theorem chooseNewLeaderFromISR_newest {newLeader : String} {newestLogID : Int}
    (h : chooseNewLeaderFromISR getNsqdLastCommitLogID getNsqdTopicStat topicInfo currentNodes =
      .ok (newLeader, newestLogID)) :
    newLeader ∈ topicInfo.isr ∧ newLeader ∈ currentNodes ∧ newLeader ≠ topicInfo.leader ∧
      getNsqdLastCommitLogID newLeader = some newestLogID ∧
      ∀ r ∈ topicInfo.isr, r ∈ currentNodes → r ≠ topicInfo.leader →
        ∀ c, getNsqdLastCommitLogID r = some c → c ≤ newestLogID := by
  obtain ⟨hnew, -⟩ :=
    newestLoop_spec getNsqdLastCommitLogID currentNodes topicInfo.leader topicInfo.isr
  unfold chooseNewLeaderFromISR at h
  generalize newestLoop getNsqdLastCommitLogID currentNodes topicInfo.leader topicInfo.isr [] 0 = res
    at h hnew
  obtain ⟨newest, id⟩ := res
  dsimp only at h hnew
  by_cases hne : selectLeastLoad getNsqdTopicStat getNodeLeaderLoadFactor maxInt64Float newest = ""
  · rw [if_pos hne] at h
    cases h
  · rw [if_neg hne] at h
    injection h with h
    rw [Prod.mk.injEq] at h
    obtain ⟨hleader, rfl⟩ := h
    rw [← hleader]
    -- the leader elected is one of the newest replicas
    obtain ⟨hisr, halive, hold, hid⟩ := hnew.mem _ (selectLeastLoad_mem hne)
    exact ⟨hisr, halive, hold, hid, hnew.le⟩

/-- Among several newest replicas the election answers the last one whose stats it reads,
whatever their load factors: every load factor is below `minLF`, which is never lowered. When it
reads none, no leader is elected. -/
theorem chooseNewLeaderFromISR_last_readable {newest : List String} {newestLogID : Int}
    (hnewest : newestLoop getNsqdLastCommitLogID currentNodes topicInfo.leader topicInfo.isr [] 0 =
      (newest, newestLogID)) (hmany : newest.length ≠ 1) :
    ((newest.filter fun r => (getNsqdTopicStat r).isSome).getLast? = none →
      chooseNewLeaderFromISR getNsqdLastCommitLogID getNsqdTopicStat topicInfo currentNodes =
        .error .noLeaderCanBeElected) ∧
    ∀ r, (newest.filter fun r => (getNsqdTopicStat r).isSome).getLast? = some r → r ≠ "" →
      chooseNewLeaderFromISR getNsqdLastCommitLogID getNsqdTopicStat topicInfo currentNodes =
        .ok (r, newestLogID) := by
  have hsel : selectLeastLoad getNsqdTopicStat getNodeLeaderLoadFactor maxInt64Float newest =
      ((newest.filter fun r => (getNsqdTopicStat r).isSome).getLast?).getD "" := by
    unfold selectLeastLoad
    split
    · simp at hmany
    · exact leastLoadLoop_last getNodeLeaderLoadFactor_lt newest ""
  unfold chooseNewLeaderFromISR
  rw [hnewest]
  dsimp only
  rw [hsel]
  constructor
  · intro hnone
    rw [hnone]
    rfl
  · intro r hr hne
    rw [hr, Option.getD_some, if_neg hne]

/-- Replicas `a` and `b` of the ISR, alive and at the same newest ID 5, with average write levels 1
and 3 and nothing else, so load factors `7 / 10` and `21 / 10`: the election picks `b`, the more
loaded, read last. And when neither's stats can be read, no leader is elected although both are at
the newest ID. -/
theorem chooseNewLeaderFromISR_not_least_loaded :
    getNodeLeaderLoadFactor ⟨[], [], 1⟩ = 7 / 10 ∧ getNodeLeaderLoadFactor ⟨[], [], 3⟩ = 21 / 10 ∧
      chooseNewLeaderFromISR (fun _ => some 5)
        (fun r => if r = "a" then some ⟨[], [], 1⟩ else if r = "b" then some ⟨[], [], 3⟩ else none)
        ⟨"c", ["c", "a", "b"]⟩ ["a", "b", "c"] = .ok ("b", 5) ∧
      chooseNewLeaderFromISR (fun _ => some 5) (fun _ => none) ⟨"c", ["c", "a", "b"]⟩
        ["a", "b", "c"] = .error .noLeaderCanBeElected := by
  decide +kernel

end Choose

end Placement

end Nsq
