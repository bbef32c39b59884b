import Nsq.Lookup.Registration
import Mathlib.Data.Set.Basic

/-!
# The registration database refines a registry of sets

What `nsqlookupd`'s database is for: for each topic, the set of its producers (partition, peer)
and the set of its channels (partition, peer, channel), which `REGISTER` adds to, `UNREGISTER`
takes from (a channel, or a topic with all its channels), and the end of a connection clears of
its peer (`Registry.step`). In this registry every channel has its producer
(`Registry.channelsHaveProducers_run`).

The database holds the registry in its slices (`RegistrationDB.registry`). Each slice stays
without duplicates (`RegistrationDB.WF`), each database operation does to the registry what its
name says (the `registry_*` lemmas), and its answer says whether it changed it. Over a whole run
the database's registry is the registry's run (`registry_run`) as long as no peer's id is `"*"`,
the wildcard of `ChannelReg.IsMatch`: a peer's id is its remote address, which never is. Then
the queries answer the registry (`Agrees`): `FindTopicProducers` and `FindChannelRegs` each
registration of a partition once, all of them for `"*"`, and `FindPeerTopics` a peer's.
-/

namespace Nsq.Lookup

/-! ## The registry -/

/-- For each topic, its producers and its channels. -/
@[ext]
structure Registry where
  producers : String → Set TopicProducerReg
  channels : String → Set ChannelReg

namespace Registry

/-- No registration. -/
def empty : Registry := ⟨fun _ => ∅, fun _ => ∅⟩

variable (S : Registry)

/-- The registry with the producers of `topic` set to `X`. -/
def setProducersAt (topic : String) (X : Set TopicProducerReg) : Registry :=
  { S with producers := Function.update S.producers topic X }

/-- The registry with the channels of `topic` set to `X`. -/
def setChannelsAt (topic : String) (X : Set ChannelReg) : Registry :=
  { S with channels := Function.update S.channels topic X }

@[simp] theorem setProducersAt_producers (topic : String) (X : Set TopicProducerReg) :
    (S.setProducersAt topic X).producers = Function.update S.producers topic X := rfl

@[simp] theorem setProducersAt_channels (topic : String) (X : Set TopicProducerReg) :
    (S.setProducersAt topic X).channels = S.channels := rfl

@[simp] theorem setChannelsAt_producers (topic : String) (X : Set ChannelReg) :
    (S.setChannelsAt topic X).producers = S.producers := rfl

@[simp] theorem setChannelsAt_channels (topic : String) (X : Set ChannelReg) :
    (S.setChannelsAt topic X).channels = Function.update S.channels topic X := rfl

theorem setProducersAt_self (topic : String) : S.setProducersAt topic (S.producers topic) = S := by
  rw [setProducersAt, Function.update_eq_self]

theorem setChannelsAt_self (topic : String) : S.setChannelsAt topic (S.channels topic) = S := by
  rw [setChannelsAt, Function.update_eq_self]

/-- A peer holds the channel of `topic` in partition `pid` if it names one, and produces
`topic` there. -/
def register (topic channel pid peer : String) : Registry :=
  let S := if channel ≠ "" then
      S.setChannelsAt topic (insert ⟨pid, peer, channel⟩ (S.channels topic))
    else S
  S.setProducersAt topic (insert ⟨pid, peer⟩ (S.producers topic))

/-- A peer gives up a channel of `topic` in partition `pid`. -/
def unregisterChannel (topic channel pid peer : String) : Registry :=
  S.setChannelsAt topic (S.channels topic \ {⟨pid, peer, channel⟩})

/-- A peer gives up its channels of `topic` in partition `pid`, and stops producing it there. -/
def unregisterTopic (topic pid peer : String) : Registry :=
  (S.setChannelsAt topic
      {c | c ∈ S.channels topic ∧ ¬(c.partitionID = pid ∧ c.peerId = peer)}).setProducersAt
    topic (S.producers topic \ {⟨pid, peer⟩})

/-- A peer is gone: none of its registrations is left. -/
def removePeer (id : String) : Registry where
  producers topic := {r | r ∈ S.producers topic ∧ r.peerId ≠ id}
  channels topic := {c | c ∈ S.channels topic ∧ c.peerId ≠ id}

/-- What an event means, with the commands read as the protocol reads them. -/
def step : Event → Registry
  | .register (some peer) params =>
    match topicChanOf "REGISTER" peer params with
    | .ok (topic, channel, pid) => S.register topic channel pid peer.id
    | .error _ => S
  | .register none _ => S
  | .unregister (some peer) params =>
    match topicChanOf "UNREGISTER" peer params with
    | .ok (topic, channel, pid) =>
      if channel ≠ "" then S.unregisterChannel topic channel pid peer.id
      else S.unregisterTopic topic pid peer.id
    | .error _ => S
  | .unregister none _ => S
  | .close (some peer) => S.removePeer peer.id
  | .close none => S

/-- The events one after another. -/
def run (events : List Event) : Registry := events.foldl step S

/-- Every channel registration has the producer registration of its partition and peer. -/
def ChannelsHaveProducers : Prop :=
  ∀ topic c, c ∈ S.channels topic → (⟨c.partitionID, c.peerId⟩ : TopicProducerReg) ∈ S.producers topic

variable {S}

theorem mem_register_producers {topic channel pid peer t : String} {r : TopicProducerReg} :
    r ∈ (S.register topic channel pid peer).producers t ↔
      r ∈ S.producers t ∨ (t = topic ∧ r = ⟨pid, peer⟩) := by
  unfold Registry.register
  by_cases ht : t = topic
  · subst ht
    split_ifs <;> simp [or_comm]
  · split_ifs <;> simp [ht]

theorem mem_register_channels {topic channel pid peer t : String} {c : ChannelReg} :
    c ∈ (S.register topic channel pid peer).channels t ↔
      c ∈ S.channels t ∨ (channel ≠ "" ∧ t = topic ∧ c = ⟨pid, peer, channel⟩) := by
  unfold Registry.register
  by_cases ht : t = topic
  · subst ht
    split_ifs with hch <;> simp [or_comm, hch]
  · split_ifs <;> simp [ht]

theorem ChannelsHaveProducers.register (h : S.ChannelsHaveProducers) (topic channel pid peer : String) :
    (S.register topic channel pid peer).ChannelsHaveProducers := by
  intro t c hc
  rw [mem_register_channels] at hc
  rw [mem_register_producers]
  rcases hc with hc | ⟨-, rfl, rfl⟩
  · exact Or.inl (h t c hc)
  · exact Or.inr ⟨rfl, rfl⟩

theorem ChannelsHaveProducers.unregisterChannel (h : S.ChannelsHaveProducers)
    (topic channel pid peer : String) :
    (S.unregisterChannel topic channel pid peer).ChannelsHaveProducers := by
  intro t c hc
  simp only [Registry.unregisterChannel, setChannelsAt_channels, setChannelsAt_producers] at hc ⊢
  by_cases ht : t = topic
  · subst ht
    rw [Function.update_self] at hc
    exact h t c hc.1
  · rw [Function.update_of_ne ht] at hc
    exact h t c hc

theorem ChannelsHaveProducers.unregisterTopic (h : S.ChannelsHaveProducers)
    (topic pid peer : String) : (S.unregisterTopic topic pid peer).ChannelsHaveProducers := by
  intro t c hc
  simp only [Registry.unregisterTopic, setProducersAt_channels, setProducersAt_producers,
    setChannelsAt_channels, setChannelsAt_producers] at hc ⊢
  by_cases ht : t = topic
  · subst ht
    rw [Function.update_self] at hc ⊢
    -- the producer taken away is one whose channels went with it
    refine ⟨h t c hc.1, fun hp => hc.2 ?_⟩
    rw [Set.mem_singleton_iff, TopicProducerReg.mk.injEq] at hp
    exact hp
  · rw [Function.update_of_ne ht] at hc ⊢
    exact h t c hc

theorem ChannelsHaveProducers.removePeer (h : S.ChannelsHaveProducers) (id : String) :
    (S.removePeer id).ChannelsHaveProducers :=
  fun t c hc => ⟨h t c hc.1, hc.2⟩

theorem ChannelsHaveProducers.step (h : S.ChannelsHaveProducers) (e : Event) :
    (S.step e).ChannelsHaveProducers := by
  cases e with
  | register peerInfo params =>
    cases peerInfo with
    | none => exact h
    | some peer =>
      simp only [Registry.step]
      split
      · exact h.register _ _ _ _
      · exact h
  | unregister peerInfo params =>
    cases peerInfo with
    | none => exact h
    | some peer =>
      simp only [Registry.step]
      split
      · split
        · exact h.unregisterChannel _ _ _ _
        · exact h.unregisterTopic _ _ _
      · exact h
  | close peerInfo =>
    cases peerInfo with
    | none => exact h
    | some peer => exact h.removePeer _

theorem channelsHaveProducers_run (h : S.ChannelsHaveProducers) (events : List Event) :
    (S.run events).ChannelsHaveProducers := by
  induction events generalizing S with
  | nil => exact h
  | cons e events ih => exact ih (h.step e)

theorem channelsHaveProducers_empty : empty.ChannelsHaveProducers := fun _ _ hc => hc.elim

end Registry

/-! ## The registry a database holds -/

namespace RegistrationDB

variable (db : RegistrationDB)

/-- The registrations in the database's slices; an empty slice and a missing key hold none. -/
def registry : Registry where
  producers topic := {r | r ∈ (db.registrationTopicMap topic).getD []}
  channels topic := {c | c ∈ (db.registrationChannelMap topic).getD []}

/-- No slice holds a registration twice. -/
structure WF : Prop where
  producers_nodup : ∀ topic, ((db.registrationTopicMap topic).getD []).Nodup
  channels_nodup : ∀ topic, ((db.registrationChannelMap topic).getD []).Nodup

variable {db}

theorem wf_new : newRegistrationDB.WF := ⟨fun _ => List.nodup_nil, fun _ => List.nodup_nil⟩

@[simp] theorem mem_registry_producers {topic : String} {r : TopicProducerReg} :
    r ∈ db.registry.producers topic ↔ r ∈ (db.registrationTopicMap topic).getD [] := Iff.rfl

@[simp] theorem mem_registry_channels {topic : String} {c : ChannelReg} :
    c ∈ db.registry.channels topic ↔ c ∈ (db.registrationChannelMap topic).getD [] := Iff.rfl

theorem setChannels_setChannels (topic : String) (v w : Option (List ChannelReg)) :
    (db.setChannels topic v).setChannels topic w = db.setChannels topic w := by
  simp only [setChannels, Function.update_idem]

theorem setProducers_setProducers (topic : String) (v w : Option (List TopicProducerReg)) :
    (db.setProducers topic v).setProducers topic w = db.setProducers topic w := by
  simp only [setProducers, Function.update_idem]

theorem registry_setChannels (topic : String) (v : Option (List ChannelReg)) :
    (db.setChannels topic v).registry = db.registry.setChannelsAt topic {c | c ∈ v.getD []} := by
  ext t c
  · rfl
  · by_cases ht : t = topic
    · subst ht
      simp [setChannels]
    · simp [setChannels, Function.update_of_ne ht]

theorem registry_setProducers (topic : String) (v : Option (List TopicProducerReg)) :
    (db.setProducers topic v).registry =
      db.registry.setProducersAt topic {r | r ∈ v.getD []} := by
  ext t r
  · by_cases ht : t = topic
    · subst ht
      simp [setProducers]
    · simp [setProducers, Function.update_of_ne ht]
  · rfl

theorem WF.setChannels (h : db.WF) {topic : String} {v : Option (List ChannelReg)}
    (hv : (v.getD []).Nodup) : (db.setChannels topic v).WF where
  producers_nodup := h.producers_nodup
  channels_nodup t := by
    by_cases ht : t = topic
    · subst ht
      simpa [RegistrationDB.setChannels] using hv
    · simpa [RegistrationDB.setChannels, Function.update_of_ne ht] using h.channels_nodup t

theorem WF.setProducers (h : db.WF) {topic : String} {v : Option (List TopicProducerReg)}
    (hv : (v.getD []).Nodup) : (db.setProducers topic v).WF where
  producers_nodup t := by
    by_cases ht : t = topic
    · subst ht
      simpa [RegistrationDB.setProducers] using hv
    · simpa [RegistrationDB.setProducers, Function.update_of_ne ht] using h.producers_nodup t
  channels_nodup := h.channels_nodup

end RegistrationDB

/-! ## Channel registrations -/

section ChannelOps

open RegistrationDB SliceEdit

variable {db : RegistrationDB} {topic : String}

theorem isMatch_eq_true_iff {c : ChannelReg} {pid peerId ch : String} :
    c.isMatch pid peerId ch = true ↔
      (pid = "*" ∨ c.partitionID = pid) ∧ (peerId = "*" ∨ c.peerId = peerId) ∧
        (ch = "*" ∨ c.channel = ch) := by
  unfold ChannelReg.isMatch
  by_cases h1 : pid ≠ "*" ∧ c.partitionID ≠ pid
  · rw [if_pos h1]
    exact ⟨fun h => absurd h Bool.false_ne_true, fun ⟨h, _⟩ => (h1.2 (h.resolve_left h1.1)).elim⟩
  rw [if_neg h1]
  by_cases h2 : peerId ≠ "*" ∧ c.peerId ≠ peerId
  · rw [if_pos h2]
    exact ⟨fun h => absurd h Bool.false_ne_true, fun ⟨_, h, _⟩ => (h2.2 (h.resolve_left h2.1)).elim⟩
  rw [if_neg h2]
  by_cases h3 : ch ≠ "*" ∧ c.channel ≠ ch
  · rw [if_pos h3]
    exact ⟨fun h => absurd h Bool.false_ne_true, fun ⟨_, _, h⟩ => (h3.2 (h.resolve_left h3.1)).elim⟩
  rw [if_neg h3]
  -- no field refuses the registration
  exact ⟨fun _ => ⟨by tauto, by tauto, by tauto⟩, fun _ => rfl⟩

/-- Without a wildcard, a key matches itself alone. -/
theorem isMatch_eq_true_iff_eq {c : ChannelReg} {pid peerId ch : String} (hpid : pid ≠ "*")
    (hpeer : peerId ≠ "*") (hch : ch ≠ "*") : c.isMatch pid peerId ch = true ↔ c = ⟨pid, peerId, ch⟩ := by
  rw [isMatch_eq_true_iff]
  cases c
  simp [hpid, hpeer, hch]

/-- `AddChannelReg` in one piece: the slice of `topic`, empty when the key is missing, with `k`
appended unless it holds `k`. -/
theorem addChannelReg_eq (db : RegistrationDB) (topic : String) (k : ChannelReg) :
    addChannelReg db topic k =
      if k ∈ (db.registrationChannelMap topic).getD [] then (db, false)
      else (db.setChannels topic (some ((db.registrationChannelMap topic).getD [] ++ [k])),
        true) := by
  unfold addChannelReg
  cases hm : db.registrationChannelMap topic with
  | none =>
    -- the key is created with an empty slice and then set to `[k]`
    simp [setChannels_setChannels]
  | some channels =>
    simp only [Option.getD_some]
    by_cases hk : k ∈ channels
    · have hany : channels.any (fun ch => ch == k) = true :=
        List.any_eq_true.mpr ⟨k, hk, beq_self_eq_true k⟩
      rw [if_pos hany, if_pos hk]
    · have hany : ¬channels.any (fun ch => ch == k) = true := fun ha => by
        obtain ⟨ch, hch, he⟩ := List.any_eq_true.mp ha
        exact hk (beq_iff_eq.mp he ▸ hch)
      rw [if_neg hany, if_neg hk]

theorem registry_addChannelReg (db : RegistrationDB) (topic : String) (k : ChannelReg) :
    (addChannelReg db topic k).1.registry =
      db.registry.setChannelsAt topic (insert k (db.registry.channels topic)) := by
  rw [addChannelReg_eq]
  split_ifs with hk
  · -- already held: inserting it changes nothing
    rw [Set.insert_eq_of_mem (show k ∈ db.registry.channels topic from hk),
      Registry.setChannelsAt_self]
  · rw [registry_setChannels]
    congr 1
    ext c
    simp [or_comm]

theorem addChannelReg_snd (db : RegistrationDB) (topic : String) (k : ChannelReg) :
    (addChannelReg db topic k).2 = true ↔ k ∉ db.registry.channels topic := by
  rw [addChannelReg_eq]
  split_ifs with hk <;> simp [hk]

theorem RegistrationDB.WF.addChannelReg (h : db.WF) (k : ChannelReg) : (addChannelReg db topic k).1.WF := by
  rw [addChannelReg_eq]
  split_ifs with hk
  · exact h
  · exact h.setChannels ((h.channels_nodup topic).append (List.nodup_singleton k)
      (List.disjoint_singleton.mpr hk))

/-- `RemoveChannelReg` in one piece: the slice of `topic` without what `k` matches, the key
deleted when nothing is left, if `k` matched anything. -/
theorem removeChannelReg_eq (db : RegistrationDB) (topic : String) (k : ChannelReg) :
    removeChannelReg db topic k =
      let m := fun ch : ChannelReg => ch.isMatch k.partitionID k.peerId k.channel
      let cleaned := ((db.registrationChannelMap topic).getD []).filter (fun ch => !m ch)
      if ((db.registrationChannelMap topic).getD []).any m then
        (db.setChannels topic (if cleaned.length = 0 then none else some cleaned), true)
      else (db, false) := by
  unfold removeChannelReg
  cases hm : db.registrationChannelMap topic with
  | none => rfl
  | some channels =>
    dsimp only
    rw [cleanLoop_eq]
    dsimp only [Option.getD_some]
    split_ifs with hr <;> first | rfl | rw [Bool.eq_false_iff.mpr hr]

theorem registry_removeChannelReg (db : RegistrationDB) (topic : String) (k : ChannelReg) :
    (removeChannelReg db topic k).1.registry =
      db.registry.setChannelsAt topic
        {c | c ∈ db.registry.channels topic ∧
          c.isMatch k.partitionID k.peerId k.channel = false} := by
  rw [removeChannelReg_eq]
  dsimp only
  split_ifs with hr hlen
  · -- everything matched: the key is deleted
    rw [registry_setChannels]
    congr 1
    ext c
    have hnil := List.filter_eq_nil_iff.mp (List.length_eq_zero_iff.mp hlen)
    simp only [Option.getD_none, List.not_mem_nil, Set.mem_ofPred_eq, false_iff, not_and,
      mem_registry_channels]
    intro hc hm
    simpa [hm] using hnil c hc
  · rw [registry_setChannels]
    congr 1
    ext c
    simp [List.mem_filter]
  · -- nothing matched: the slice stays
    have hkeep : {c | c ∈ db.registry.channels topic ∧
        c.isMatch k.partitionID k.peerId k.channel = false} = db.registry.channels topic := by
      ext c
      simp only [Set.mem_ofPred_eq, and_iff_left_iff_imp, mem_registry_channels]
      intro hc
      simpa using fun hm => hr (List.any_eq_true.mpr ⟨c, hc, hm⟩)
    rw [hkeep, Registry.setChannelsAt_self]

theorem removeChannelReg_snd (db : RegistrationDB) (topic : String) (k : ChannelReg) :
    (removeChannelReg db topic k).2 = true ↔
      ∃ c ∈ db.registry.channels topic, c.isMatch k.partitionID k.peerId k.channel = true := by
  rw [removeChannelReg_eq]
  dsimp only
  by_cases hr : ((db.registrationChannelMap topic).getD []).any
      (fun ch => ch.isMatch k.partitionID k.peerId k.channel) = true
  · rw [if_pos hr]
    exact ⟨fun _ => List.any_eq_true.mp hr, fun _ => rfl⟩
  · rw [if_neg hr]
    exact ⟨fun h => absurd h Bool.false_ne_true, fun h => absurd (List.any_eq_true.mpr h) hr⟩

theorem RegistrationDB.WF.removeChannelReg (h : db.WF) (k : ChannelReg) :
    (removeChannelReg db topic k).1.WF := by
  rw [removeChannelReg_eq]
  dsimp only
  split_ifs with hr hlen
  · exact h.setChannels List.nodup_nil
  · exact h.setChannels ((h.channels_nodup topic).filter _)
  · exact h

theorem findChannelRegs_mem {pid : String} {c : ChannelReg} :
    c ∈ findChannelRegs db topic pid ↔
      c ∈ db.registry.channels topic ∧ (pid = "*" ∨ c.partitionID = pid) := by
  unfold findChannelRegs
  cases hm : db.registrationChannelMap topic with
  | none => simp [hm]
  | some channels => simp [hm, List.mem_filter, isMatch_eq_true_iff]

theorem findChannelRegs_nodup (h : db.WF) (pid : String) : (findChannelRegs db topic pid).Nodup := by
  have hnd := h.channels_nodup topic
  unfold findChannelRegs
  cases hm : db.registrationChannelMap topic with
  | none => exact List.nodup_nil
  | some channels =>
    rw [hm, Option.getD_some] at hnd
    exact hnd.filter _

end ChannelOps

/-! ## Producer registrations -/

section ProducerOps

open RegistrationDB SliceEdit

variable {db : RegistrationDB} {topic : String}

/-- A producer registration is its partition and its peer's id, so the scans for both find it. -/
theorem any_producer_eq_true_iff {producers : List TopicProducerReg} {pid id : String} :
    producers.any (fun r => r.partitionID == pid && r.peerId == id) = true ↔
      (⟨pid, id⟩ : TopicProducerReg) ∈ producers := by
  rw [List.any_eq_true]
  constructor
  · rintro ⟨⟨pid', id'⟩, hr, he⟩
    simp only [Bool.and_eq_true, beq_iff_eq] at he
    rwa [he.1, he.2] at hr
  · intro h
    exact ⟨_, h, by simp⟩

theorem addTopicProducer_of_not_ok (db : RegistrationDB) (topic : String) {pid : String}
    (peer : String) (hpid : producerPidOk pid = false) :
    addTopicProducer db topic pid peer = (db, false) := by
  rw [addTopicProducer, hpid]
  rfl

/-- `AddTopicProducer` of a partition it accepts, in one piece: the slice of `topic`, empty when
the key is missing, with the producer appended unless it holds it. -/
theorem addTopicProducer_eq (db : RegistrationDB) (topic : String) {pid : String} (peer : String)
    (hpid : producerPidOk pid = true) :
    addTopicProducer db topic pid peer =
      if (⟨pid, peer⟩ : TopicProducerReg) ∈ (db.registrationTopicMap topic).getD [] then (db, false)
      else (db.setProducers topic
        (some ((db.registrationTopicMap topic).getD [] ++ [⟨pid, peer⟩])), true) := by
  unfold addTopicProducer
  rw [hpid]
  cases hm : db.registrationTopicMap topic with
  | none =>
    -- the key is created with an empty slice and then set to the one producer
    simp [setProducers_setProducers]
  | some producers =>
    simp only [Option.getD_some, Bool.not_true, Bool.false_eq_true, if_false]
    by_cases hk : (⟨pid, peer⟩ : TopicProducerReg) ∈ producers
    · rw [if_neg (by simpa using any_producer_eq_true_iff.mpr hk), if_pos hk,
        any_producer_eq_true_iff.mpr hk]
      rfl
    · have hany := mt any_producer_eq_true_iff.mp hk
      rw [if_pos (by simpa using hany), if_neg hk, Bool.eq_false_iff.mpr hany]
      rfl

theorem registry_addTopicProducer (db : RegistrationDB) (topic : String) {pid : String}
    (peer : String) (hpid : producerPidOk pid = true) :
    (addTopicProducer db topic pid peer).1.registry =
      db.registry.setProducersAt topic (insert ⟨pid, peer⟩ (db.registry.producers topic)) := by
  rw [addTopicProducer_eq db topic peer hpid]
  split_ifs with hk
  · rw [Set.insert_eq_of_mem (show _ ∈ db.registry.producers topic from hk),
      Registry.setProducersAt_self]
  · rw [registry_setProducers]
    congr 1
    ext r
    simp [or_comm]

theorem addTopicProducer_snd (db : RegistrationDB) (topic : String) {pid : String}
    (peer : String) (hpid : producerPidOk pid = true) :
    (addTopicProducer db topic pid peer).2 = true ↔
      (⟨pid, peer⟩ : TopicProducerReg) ∉ db.registry.producers topic := by
  rw [addTopicProducer_eq db topic peer hpid]
  split_ifs with hk <;> simp [hk]

theorem RegistrationDB.WF.addTopicProducer (h : db.WF) (pid peer : String) :
    (addTopicProducer db topic pid peer).1.WF := by
  cases hpid : producerPidOk pid with
  | false =>
    rw [addTopicProducer_of_not_ok db topic peer hpid]
    exact h
  | true =>
    rw [addTopicProducer_eq db topic peer hpid]
    split_ifs with hk
    · exact h
    · exact h.setProducers ((h.producers_nodup topic).append (List.nodup_singleton _)
        (List.disjoint_singleton.mpr hk))

/-- A `RemoveTopicProducer` that finds no producer changes nothing. -/
theorem removeTopicProducer_of_not_mem (db : RegistrationDB) (topic : String) {pid id : String}
    (hk : (⟨pid, id⟩ : TopicProducerReg) ∉ db.registry.producers topic) :
    removeTopicProducer db topic pid id = (db, false) := by
  unfold removeTopicProducer
  cases hm : db.registrationTopicMap topic with
  | none => rfl
  | some producers =>
    rw [mem_registry_producers, hm, Option.getD_some] at hk
    dsimp only
    rw [List.findIdx?_eq_none_iff.mpr fun r hr => Bool.eq_false_iff.mpr fun he =>
      hk (any_producer_eq_true_iff.mp (List.any_eq_true.mpr ⟨r, hr, he⟩))]

/-- Swap-removing the one registration of a producer from a slice without duplicates leaves the
others. -/
theorem removeTopicProducer_of_mem (db : RegistrationDB) (topic : String) {pid id : String}
    (h : db.WF) (hk : (⟨pid, id⟩ : TopicProducerReg) ∈ db.registry.producers topic) :
    ∃ rest : List TopicProducerReg, rest.Nodup ∧
      (∀ r, r ∈ rest ↔ r ≠ ⟨pid, id⟩ ∧ r ∈ db.registry.producers topic) ∧
      removeTopicProducer db topic pid id =
        (db.setProducers topic (if rest.length = 0 then none else some rest), true) := by
  have hnd := h.producers_nodup topic
  unfold removeTopicProducer
  cases hm : db.registrationTopicMap topic with
  | none =>
    rw [mem_registry_producers, hm] at hk
    exact absurd hk List.not_mem_nil
  | some producers =>
    rw [mem_registry_producers, hm, Option.getD_some] at hk
    rw [hm, Option.getD_some] at hnd
    dsimp only
    have hex : producers.any (fun r => r.partitionID == pid && r.peerId == id) = true :=
      any_producer_eq_true_iff.mpr hk
    obtain ⟨idx, hf⟩ := Option.isSome_iff_exists.mp (List.findIdx?_isSome.trans hex)
    obtain ⟨hidx, hget, -⟩ := List.findIdx?_eq_some_iff_getElem.mp hf
    -- the index found holds the producer itself
    have hat : producers[idx] = ⟨pid, id⟩ := by
      simp only [Bool.and_eq_true, beq_iff_eq] at hget
      calc producers[idx] = ⟨producers[idx].partitionID, producers[idx].peerId⟩ := rfl
        _ = ⟨pid, id⟩ := by rw [hget.1, hget.2]
    rw [hf]
    refine ⟨swapRemove producers idx, nodup_swapRemove hnd hidx, fun r => ?_, ?_⟩
    · rw [mem_swapRemove hnd hidx, hat, mem_registry_producers, hm, Option.getD_some]
    · dsimp only
      split_ifs <;> rfl

theorem registry_removeTopicProducer (db : RegistrationDB) (topic : String) (pid id : String)
    (h : db.WF) :
    (removeTopicProducer db topic pid id).1.registry =
      db.registry.setProducersAt topic (db.registry.producers topic \ {⟨pid, id⟩}) := by
  by_cases hk : (⟨pid, id⟩ : TopicProducerReg) ∈ db.registry.producers topic
  · obtain ⟨rest, -, hrest, heq⟩ := removeTopicProducer_of_mem db topic h hk
    have hset : {r | r ∈ rest} = db.registry.producers topic \ {⟨pid, id⟩} := by
      ext r
      rw [Set.mem_ofPred_eq, hrest, Set.mem_sdiff, Set.mem_singleton_iff, and_comm]
    rw [heq, registry_setProducers, ← hset]
    split_ifs with hlen
    · rw [List.eq_nil_of_length_eq_zero hlen]
      rfl
    · rfl
  · rw [removeTopicProducer_of_not_mem db topic hk, Set.sdiff_singleton_eq_self hk,
      Registry.setProducersAt_self]

theorem removeTopicProducer_snd (db : RegistrationDB) (topic : String) (pid id : String)
    (h : db.WF) :
    (removeTopicProducer db topic pid id).2 = true ↔
      (⟨pid, id⟩ : TopicProducerReg) ∈ db.registry.producers topic := by
  by_cases hk : (⟨pid, id⟩ : TopicProducerReg) ∈ db.registry.producers topic
  · obtain ⟨rest, -, -, heq⟩ := removeTopicProducer_of_mem db topic h hk
    rw [heq]
    exact ⟨fun _ => hk, fun _ => rfl⟩
  · rw [removeTopicProducer_of_not_mem db topic hk]
    exact ⟨fun h => absurd h Bool.false_ne_true, fun h => absurd h hk⟩

theorem RegistrationDB.WF.removeTopicProducer (h : db.WF) (pid id : String) :
    (removeTopicProducer db topic pid id).1.WF := by
  by_cases hk : (⟨pid, id⟩ : TopicProducerReg) ∈ db.registry.producers topic
  · obtain ⟨rest, hnd, -, heq⟩ := removeTopicProducer_of_mem db topic h hk
    rw [heq]
    split_ifs
    · exact h.setProducers List.nodup_nil
    · exact h.setProducers hnd
  · rw [removeTopicProducer_of_not_mem db topic hk]
    exact h

theorem findTopicProducers_mem {pid : String} {r : TopicProducerReg} :
    r ∈ findTopicProducers db topic pid ↔
      r ∈ db.registry.producers topic ∧ (pid = "*" ∨ r.partitionID = pid) := by
  unfold findTopicProducers
  cases hm : db.registrationTopicMap topic with
  | none => simp [hm]
  | some producers =>
    simp only [hm, List.mem_filter, mem_registry_producers, Option.getD_some]
    simp
    exact fun _ => or_congr_right eq_comm

theorem findTopicProducers_nodup (h : db.WF) (pid : String) :
    (findTopicProducers db topic pid).Nodup := by
  have hnd := h.producers_nodup topic
  unfold findTopicProducers
  cases hm : db.registrationTopicMap topic with
  | none => exact List.nodup_nil
  | some producers =>
    rw [hm, Option.getD_some] at hnd
    exact hnd.filter _

theorem findPeerTopics_mem (id : String) {r : TopicProducerReg} :
    r ∈ (findPeerTopics db id topic).getD [] ↔
      r ∈ db.registry.producers topic ∧ r.peerId = id := by
  unfold findPeerTopics
  cases hm : db.registrationTopicMap topic with
  | none => simp [hm]
  | some regs =>
    simp only [hm, mem_registry_producers, Option.getD_some]
    split_ifs with hpos
    · simp [List.mem_filter]
    · -- no registration of the peer: the topic is left out
      have hnil := List.filter_eq_nil_iff.mp (List.length_eq_zero_iff.mp (Nat.eq_zero_of_not_pos hpos))
      simp only [Option.getD_none, List.not_mem_nil, false_iff, not_and]
      intro hr he
      simpa [he] using hnil r hr

theorem findPeerTopics_ne_nil (id : String) : findPeerTopics db id topic ≠ some [] := by
  unfold findPeerTopics
  cases db.registrationTopicMap topic with
  | none => exact fun h => by cases h
  | some regs =>
    dsimp only
    split_ifs with hpos
    · exact fun h => by
        injection h with h
        rw [h] at hpos
        exact absurd hpos (Nat.lt_irrefl 0)
    · exact fun h => by cases h

theorem findPeerTopics_nodup (h : db.WF) (id : String) :
    ((findPeerTopics db id topic).getD []).Nodup := by
  have hnd := h.producers_nodup topic
  unfold findPeerTopics
  cases hm : db.registrationTopicMap topic with
  | none => exact List.nodup_nil
  | some regs =>
    rw [hm, Option.getD_some] at hnd
    dsimp only
    split_ifs
    · exact hnd.filter _
    · exact List.nodup_nil

/-- The slice `RemoveAllByPeerId` leaves: the registrations of other peers. -/
theorem mem_cleaned {β : Type} {xs : List β} {peerOf : β → String} {id : String} {x : β} :
    x ∈ (if (cleanLoop (fun y => peerOf y == id) xs).2 then
        some (cleanLoop (fun y => peerOf y == id) xs).1 else some xs).getD [] ↔
      x ∈ xs ∧ peerOf x ≠ id := by
  rw [cleanLoop_eq]
  dsimp only
  split_ifs with hr
  · simp [List.mem_filter]
  · -- no registration of the peer was there
    rw [Option.getD_some]
    refine ⟨fun hx => ⟨hx, fun he => hr (List.any_eq_true.mpr ⟨x, hx, by simp [he]⟩)⟩, fun h => h.1⟩

theorem registry_removeAllByPeerId (db : RegistrationDB) (id : String) :
    (removeAllByPeerId db id).registry = db.registry.removePeer id := by
  ext t x
  · simp only [mem_registry_producers, Registry.removePeer, Set.mem_ofPred_eq, removeAllByPeerId]
    cases db.registrationTopicMap t with
    | none => simp
    | some producers =>
      dsimp only [Option.getD_some]
      exact mem_cleaned
  · simp only [mem_registry_channels, Registry.removePeer, Set.mem_ofPred_eq, removeAllByPeerId]
    cases db.registrationChannelMap t with
    | none => simp
    | some chRegs =>
      dsimp only [Option.getD_some]
      exact mem_cleaned

theorem RegistrationDB.WF.removeAllByPeerId (h : db.WF) (id : String) : (removeAllByPeerId db id).WF where
  producers_nodup t := by
    have hnd := h.producers_nodup t
    unfold Nsq.Lookup.removeAllByPeerId
    dsimp only
    cases hm : db.registrationTopicMap t with
    | none => exact List.nodup_nil
    | some producers =>
      rw [hm, Option.getD_some] at hnd
      dsimp only
      rw [cleanLoop_eq]
      split_ifs
      · exact hnd.filter _
      · exact hnd
  channels_nodup t := by
    have hnd := h.channels_nodup t
    unfold Nsq.Lookup.removeAllByPeerId
    dsimp only
    cases hm : db.registrationChannelMap t with
    | none => exact List.nodup_nil
    | some chRegs =>
      rw [hm, Option.getD_some] at hnd
      dsimp only
      rw [cleanLoop_eq]
      split_ifs
      · exact hnd.filter _
      · exact hnd

end ProducerOps

/-! ## What the commands read -/

section Commands

variable {command : String} {params : List String} {topic channel pid : String}

/-- What `getTopicChan` accepts: a partition `GetValidPartitionID` accepts, and no channel or a
valid one. -/
theorem getTopicChan_eq_ok (h : getTopicChan command params = .ok (topic, channel, pid)) :
    (getValidPartitionID pid).isSome ∧ (channel = "" ∨ isValidChannelName channel = true) := by
  unfold getTopicChan at h
  by_cases h1 : params.length ≤ 1
  · rw [if_pos h1] at h
    cases h
  rw [if_neg h1] at h
  dsimp only at h
  generalize (if params.length ≥ 3 then params[2]! else "") = channelName at h
  by_cases h2 : (!isValidTopicName params[0]!) = true
  · rw [if_pos h2] at h
    cases h
  rw [if_neg h2] at h
  by_cases h3 : channelName ≠ "" ∧ (!isValidChannelName channelName) = true
  · rw [if_pos h3] at h
    cases h
  rw [if_neg h3] at h
  by_cases h4 : (getValidPartitionID params[1]!).isNone = true
  · rw [if_pos h4] at h
    cases h
  rw [if_neg h4] at h
  injection h with h
  simp only [Prod.mk.injEq] at h
  obtain ⟨-, hc, hp⟩ := h
  rw [← hc, ← hp]
  refine ⟨Option.isSome_iff_ne_none.mpr (by simpa using h4), ?_⟩
  by_cases he : channelName = ""
  · exact Or.inl he
  · exact Or.inr (by simpa [he] using h3)

/-- What `getTopicChanFromOld` accepts: no channel or a valid one. -/
theorem getTopicChanFromOld_eq_ok (h : getTopicChanFromOld command params = .ok (topic, channel)) :
    channel = "" ∨ isValidChannelName channel = true := by
  unfold getTopicChanFromOld at h
  by_cases h1 : params.length ≤ 0
  · rw [if_pos h1] at h
    cases h
  rw [if_neg h1] at h
  dsimp only at h
  generalize (if params.length ≥ 2 then params[1]! else "") = channelName at h
  by_cases h2 : (!isValidTopicName params[0]!) = true
  · rw [if_pos h2] at h
    cases h
  rw [if_neg h2] at h
  by_cases h3 : channelName ≠ "" ∧ (!isValidChannelName channelName) = true
  · rw [if_pos h3] at h
    cases h
  rw [if_neg h3] at h
  injection h with h
  simp only [Prod.mk.injEq] at h
  rw [← h.2]
  by_cases he : channelName = ""
  · exact Or.inl he
  · exact Or.inr (by simpa [he] using h3)

/-- A partition `GetValidPartitionID` accepts passes `AddTopicProducer`'s check. -/
theorem producerPidOk_of_getValidPartitionID (h : (getValidPartitionID pid).isSome) :
    producerPidOk pid = true := by
  unfold getValidPartitionID at h
  unfold producerPidOk
  cases ha : Protocol.strconvAtoi pid with
  | none =>
    rw [ha] at h
    cases h
  | some n =>
    rw [ha] at h
    dsimp only at h
    -- `strconv.Atoi` refuses the empty string
    have hne : pid ≠ "" := fun he => by
      have hempty : Protocol.strconvAtoi "" = none := by decide
      rw [he, hempty] at ha
      cases ha
    rw [if_neg hne]
    dsimp only
    split_ifs at h with h0 h11
    · rw [if_neg (by omega)]
    · rw [if_pos (by rw [h11]; decide), h11]
      rfl
    · cases h

theorem ne_star_of_getValidPartitionID (h : (getValidPartitionID pid).isSome) : pid ≠ "*" := by
  rintro rfl
  exact absurd h (by decide)

theorem ne_star_of_channel (h : channel = "" ∨ isValidChannelName channel = true) :
    channel ≠ "*" := by
  rintro rfl
  rcases h with h | h
  · exact absurd h (by decide)
  · exact absurd h (by decide)

/-- What `REGISTER` and `UNREGISTER` go on with: a partition `AddTopicProducer` accepts, and
neither it nor the channel the wildcard. -/
theorem topicChanOf_eq_ok {peer : PeerInfo}
    (h : topicChanOf command peer params = .ok (topic, channel, pid)) :
    producerPidOk pid = true ∧ pid ≠ "*" ∧ channel ≠ "*" := by
  unfold topicChanOf at h
  cases hg : getTopicChan command params with
  | ok r =>
    rw [hg] at h
    injection h with h
    rw [h] at hg
    obtain ⟨hp, hc⟩ := getTopicChan_eq_ok hg
    exact ⟨producerPidOk_of_getValidPartitionID hp, ne_star_of_getValidPartitionID hp,
      ne_star_of_channel hc⟩
  | error err =>
    rw [hg] at h
    dsimp only at h
    split_ifs at h
    · -- an old `nsqd`: the partition is `OLD_VERSION_PID`
      cases ho : getTopicChanFromOld command params with
      | error e =>
        rw [ho] at h
        cases h
      | ok tc =>
        rw [ho] at h
        injection h with h
        simp only [Prod.mk.injEq] at h
        obtain ⟨-, hc, hp⟩ := h
        rw [← hp, ← hc]
        exact ⟨by decide, by decide, ne_star_of_channel (getTopicChanFromOld_eq_ok ho)⟩

end Commands

/-! ## The database refines the registry -/

/-- The connection's peer of an event. -/
def Event.peerInfo : Event → Option PeerInfo
  | .register peerInfo _ => peerInfo
  | .unregister peerInfo _ => peerInfo
  | .close peerInfo => peerInfo

/-- The event's peer, if any, does not have the wildcard `"*"` for its id. -/
def Event.peerOk (e : Event) : Bool :=
  match e.peerInfo with
  | some peer => peer.id != "*"
  | none => true

section Refinement

open RegistrationDB

variable {db : RegistrationDB}

/-- Without wildcards, a key matches its own registration alone. -/
theorem keep_exact {X : Set ChannelReg} {pid peer ch : String} (hpid : pid ≠ "*")
    (hpeer : peer ≠ "*") (hch : ch ≠ "*") :
    {c | c ∈ X ∧ c.isMatch pid peer ch = false} = X \ {⟨pid, peer, ch⟩} := by
  ext c
  rw [Set.mem_ofPred_eq, Set.mem_sdiff, Set.mem_singleton_iff,
    ← isMatch_eq_true_iff_eq hpid hpeer hch, Bool.not_eq_true]

/-- With the channel `"*"`, a key matches every channel of its partition and peer. -/
theorem keep_channels {X : Set ChannelReg} {pid peer : String} (hpid : pid ≠ "*")
    (hpeer : peer ≠ "*") :
    {c | c ∈ X ∧ c.isMatch pid peer "*" = false} =
      {c | c ∈ X ∧ ¬(c.partitionID = pid ∧ c.peerId = peer)} := by
  ext c
  simp only [Set.mem_ofPred_eq, ← Bool.not_eq_true, isMatch_eq_true_iff, hpid, hpeer,
    false_or, true_or, and_true]

/-- One event does to the database's registry what it means, and keeps the slices without
duplicates. -/
theorem registry_step (h : db.WF) {e : Event} (he : e.peerOk = true) :
    (step db e).registry = db.registry.step e ∧ (step db e).WF := by
  cases e with
  | register peerInfo params =>
    cases peerInfo with
    | none => exact ⟨rfl, h⟩
    | some peer =>
      cases ht : topicChanOf "REGISTER" peer params with
      | error err =>
        have hreg : register db (some peer) params = .error err := by
          unfold register
          dsimp only
          rw [ht]
          rfl
        rw [step, hreg]
        exact ⟨by simp only [Registry.step, ht], h⟩
      | ok r =>
        obtain ⟨topic, channel, pid⟩ := r
        obtain ⟨hpid, -, -⟩ := topicChanOf_eq_ok ht
        have hreg : register db (some peer) params = .ok (addTopicProducer
            (if channel ≠ "" then (addChannelReg db topic ⟨pid, peer.id, channel⟩).1 else db)
            topic pid peer.id).1 := by
          unfold register
          dsimp only
          rw [ht]
          rfl
        have habs : db.registry.step (.register (some peer) params) =
            db.registry.register topic channel pid peer.id := by
          simp only [Registry.step, ht]
        rw [step, hreg, habs]
        dsimp only
        -- the channel first, then the producer, on both sides
        by_cases hch : channel ≠ ""
        · rw [if_pos hch, registry_addTopicProducer _ _ _ hpid, registry_addChannelReg]
          exact ⟨by rw [Registry.register, if_pos hch], (h.addChannelReg _).addTopicProducer _ _⟩
        · rw [if_neg hch, registry_addTopicProducer _ _ _ hpid]
          exact ⟨by rw [Registry.register, if_neg hch], h.addTopicProducer _ _⟩
  | unregister peerInfo params =>
    cases peerInfo with
    | none => exact ⟨rfl, h⟩
    | some peer =>
      have hpeer : peer.id ≠ "*" := by simpa [Event.peerOk, Event.peerInfo] using he
      cases ht : topicChanOf "UNREGISTER" peer params with
      | error err =>
        have hun : unregister db (some peer) params = .error err := by
          unfold unregister
          dsimp only
          rw [ht]
          rfl
        rw [step, hun]
        exact ⟨by simp only [Registry.step, ht], h⟩
      | ok r =>
        obtain ⟨topic, channel, pid⟩ := r
        obtain ⟨-, hpid, hstar⟩ := topicChanOf_eq_ok ht
        by_cases hch : channel ≠ ""
        · -- one channel: the key has no wildcard
          have hun : unregister db (some peer) params =
              .ok (removeChannelReg db topic ⟨pid, peer.id, channel⟩).1 := by
            unfold unregister
            dsimp only
            rw [ht]
            exact if_pos hch
          have habs : db.registry.step (.unregister (some peer) params) =
              db.registry.unregisterChannel topic channel pid peer.id := by
            simp only [Registry.step, ht, if_pos hch]
          rw [step, hun, habs]
          dsimp only
          rw [registry_removeChannelReg]
          exact ⟨by rw [keep_exact hpid hpeer hstar]; rfl, h.removeChannelReg _⟩
        · -- the topic: the key `"*"` takes every channel of the partition and peer with it
          have hun : unregister db (some peer) params =
              .ok (removeTopicProducer (removeChannelReg db topic ⟨pid, peer.id, "*"⟩).1
                topic pid peer.id).1 := by
            unfold unregister
            dsimp only
            rw [ht]
            exact if_neg hch
          have habs : db.registry.step (.unregister (some peer) params) =
              db.registry.unregisterTopic topic pid peer.id := by
            simp only [Registry.step, ht, if_neg hch]
          rw [step, hun, habs]
          dsimp only
          have hwf : (removeChannelReg db topic ⟨pid, peer.id, "*"⟩).1.WF := h.removeChannelReg _
          rw [registry_removeTopicProducer _ _ _ _ hwf, registry_removeChannelReg]
          exact ⟨by rw [keep_channels hpid hpeer]; rfl, hwf.removeTopicProducer _ _⟩
  | close peerInfo =>
    cases peerInfo with
    | none => exact ⟨rfl, h⟩
    | some peer => exact ⟨registry_removeAllByPeerId db peer.id, h.removeAllByPeerId _⟩

/-- Over a run, the database's registry is the registry's run. -/
theorem registry_run (h : db.WF) {events : List Event} (he : ∀ e ∈ events, e.peerOk = true) :
    (run db events).registry = db.registry.run events ∧ (run db events).WF := by
  induction events generalizing db with
  | nil => exact ⟨rfl, h⟩
  | cons e events ih =>
    obtain ⟨hstep, hwf⟩ := registry_step h (he e List.mem_cons_self)
    obtain ⟨hrun, hwf'⟩ := ih hwf fun e' he' => he e' (List.mem_cons_of_mem _ he')
    refine ⟨?_, hwf'⟩
    rw [run, List.foldl_cons, ← run, hrun, hstep]
    rfl

theorem registry_new : newRegistrationDB.registry = Registry.empty := by
  ext t x <;> simp [newRegistrationDB, Registry.empty]

end Refinement

/-- A database agrees with a registry: its queries answer the registry, each registration once,
and its updates answer whether they change it. -/
structure Agrees (db : RegistrationDB) (S : Registry) : Prop where
  producers : ∀ topic pid, (findTopicProducers db topic pid).Nodup ∧
    ∀ r, r ∈ findTopicProducers db topic pid ↔
      r ∈ S.producers topic ∧ (pid = "*" ∨ r.partitionID = pid)
  channels : ∀ topic pid, (findChannelRegs db topic pid).Nodup ∧
    ∀ c, c ∈ findChannelRegs db topic pid ↔
      c ∈ S.channels topic ∧ (pid = "*" ∨ c.partitionID = pid)
  peerTopics : ∀ id topic, findPeerTopics db id topic ≠ some [] ∧
    ((findPeerTopics db id topic).getD []).Nodup ∧
    ∀ r, r ∈ (findPeerTopics db id topic).getD [] ↔ r ∈ S.producers topic ∧ r.peerId = id
  addChannel : ∀ topic k, (addChannelReg db topic k).2 = true ↔ k ∉ S.channels topic
  addProducer : ∀ topic pid peer, producerPidOk pid = true →
    ((addTopicProducer db topic pid peer).2 = true ↔ ⟨pid, peer⟩ ∉ S.producers topic)
  removeChannel : ∀ topic k, (removeChannelReg db topic k).2 = true ↔
    ∃ c ∈ S.channels topic, c.isMatch k.partitionID k.peerId k.channel = true
  removeProducer : ∀ topic pid id,
    (removeTopicProducer db topic pid id).2 = true ↔ ⟨pid, id⟩ ∈ S.producers topic

/-- A database without duplicates agrees with the registry it holds. -/
theorem agrees_registry {db : RegistrationDB} (h : db.WF) : Agrees db db.registry where
  producers _ pid := ⟨findTopicProducers_nodup h pid, fun _ => findTopicProducers_mem⟩
  channels _ pid := ⟨findChannelRegs_nodup h pid, fun _ => findChannelRegs_mem⟩
  peerTopics id _ := ⟨findPeerTopics_ne_nil id, findPeerTopics_nodup h id,
    fun _ => findPeerTopics_mem id⟩
  addChannel topic k := addChannelReg_snd db topic k
  addProducer topic _ peer hpid := addTopicProducer_snd db topic peer hpid
  removeChannel topic k := removeChannelReg_snd db topic k
  removeProducer topic pid id := removeTopicProducer_snd db topic pid id h

/-- Every run of `REGISTER`, `UNREGISTER` and connection ends from a new database, by peers whose
ids are not `"*"`, leaves a database that agrees with the registry's run, in which every channel
has its producer. -/
theorem registrationDB_refines_registry (events : List Event)
    (hpeer : ∀ e ∈ events, e.peerOk = true) :
    Agrees (run newRegistrationDB events) (Registry.empty.run events) ∧
      (Registry.empty.run events).ChannelsHaveProducers := by
  obtain ⟨hrun, hwf⟩ := registry_run RegistrationDB.wf_new hpeer
  rw [registry_new] at hrun
  exact ⟨hrun ▸ agrees_registry hwf,
    Registry.channelsHaveProducers_run Registry.channelsHaveProducers_empty events⟩

/-- Two peers: one registers a channel and then unregisters its topic, the other registers a
topic and goes away. -/
theorem registrationDB_refines_registry_sample :
    let events : List Event :=
      [.register (some ⟨"10.0.0.1:4150", "1.0-HA", "n1"⟩) ["t", "0", "c"],
        .register (some ⟨"10.0.0.2:4150", "1.0-HA", "n2"⟩) ["t", "1"],
        .unregister (some ⟨"10.0.0.1:4150", "1.0-HA", "n1"⟩) ["t", "0"],
        .close (some ⟨"10.0.0.2:4150", "1.0-HA", "n2"⟩)]
    (∀ e ∈ events, e.peerOk = true) ∧
      (Agrees (run newRegistrationDB events) (Registry.empty.run events) ∧
        (Registry.empty.run events).ChannelsHaveProducers) :=
  ⟨by decide, registrationDB_refines_registry _ (by decide)⟩

/-- `FindChannelRegs` with the partition `"*"` answers every channel registration of the topic,
here one of partition `0`. -/
theorem findChannelRegs_star_returns_all :
    findChannelRegs (run newRegistrationDB
        [.register (some ⟨"10.0.0.1:4150", "1.0-HA", "n1"⟩) ["t", "0", "c"]]) "t" "*" =
      [⟨"0", "10.0.0.1:4150", "c"⟩] := by
  decide

end Nsq.Lookup
