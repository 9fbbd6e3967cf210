import StreamingPlatform.Cluster.Monotone
import StreamingPlatform.Core.Assignment
import StreamingPlatform.Storage.Partitions

namespace StreamingPlatform

open ByteString ConsumerGroupManager

/-!
# Cluster — groups and the logs of their topic

A group covers its topic when the partitions that its members own are those for which the
topic has a log, each owned once.  Three operations give a group new assignments: a join, a
leave and a refresh, each from a list of partitions that it is handed
(`Act.installs`, `NodeAct.Effect.rebalanced`).  If the list is the topic's own at that moment,
the group covers the topic afterwards (`covers_rebalance`); from then on only an append to
the topic can spoil that (`Node.Covered.effect`).
-/

/-- The topic whose groups an action gives new assignments, and the list of partitions it
    takes for it. -/
def Act.installs (s : Node) : Act → Option (Bytes × List Int)
  | .node (.join _ _ topic partitions) => some (topic, partitions)
  | .node (.leave groupId _ partitions) =>
    (s.groups.groups groupId).map (fun group => (group.topic, partitions))
  | .node (.refreshTopic topic partitions) => some (topic, partitions)
  | _ => none

/-- Every log is open once, and every group has a member. -/
structure Node.Tidy (s : Node) : Prop where
  keys : s.storage.keys.Nodup
  members : ∀ name group, s.groups.groups name = some group → group.members ≠ []

namespace NodeAct.Effect

variable {τ : Nat} {s s' : Node} {a : NodeAct}

/-- **What an action does to a group**: it keeps it up to its offsets, or rebalances it
    with the list that it installs. -/
theorem rebalanced (h : Effect τ s a s') (htidy : s.Tidy) {name : Bytes} {group' : Group}
    (hgroup' : s'.groups.groups name = some group') :
    (∃ group offsets, s.groups.groups name = some group ∧
      group' = { group with offsets := offsets }) ∨
    ∃ group partitions, Act.installs s (.node a) = some (group'.topic, partitions) ∧
      group.members ≠ [] ∧ group' = rebalance group partitions := by
  rcases h.groups_cases with heq | ⟨groupId, memberId, topic, partitions, rfl, heq⟩ |
    ⟨groupId, memberId, partitions, rfl, heq⟩ | ⟨_, _, _, _, _, rfl, heq⟩ |
    ⟨topic, partitions, rfl, heq⟩ <;> rw [heq] at hgroup'
  · exact .inl ⟨group', group'.offsets, hgroup', rfl⟩
  · -- a join
    rcases join_groups hgroup' with hold | ⟨htopic, group, hne, hnew⟩
    · exact .inl ⟨group', group'.offsets, hold, rfl⟩
    · exact .inr ⟨group, partitions, by rw [htopic]; rfl, hne, hnew⟩
  · -- a leave
    rcases leave_groups hgroup' with hold | ⟨old, group, hname, htopic, hne, hnew⟩
    · exact .inl ⟨group', group'.offsets, hold, rfl⟩
    · refine .inr ⟨group, partitions, ?_, hne, hnew⟩
      show (s.groups.groups groupId).map _ = _
      rw [hname, htopic]
      rfl
  · exact .inl (commit_groups hgroup')
  · -- a refresh
    obtain ⟨group, hgroup, ⟨htopic, hnew⟩ | ⟨-, hnew⟩⟩ := refreshTopic_groups hgroup'
    · refine .inr ⟨group, partitions, ?_, htidy.members name group hgroup, hnew⟩
      rw [hnew, rebalance_topic, htopic]
      rfl
    · exact .inl ⟨group, group.offsets, hgroup, hnew⟩

theorem tidy (h : Effect τ s a s') (htidy : s.Tidy) : s'.Tidy := by
  constructor
  · rcases h.storage with heq | ⟨topic, partition, message, origin, -, heq⟩
    · rw [heq]
      exact htidy.keys
    · rw [heq]
      exact StorageEngine.nodup_keys_append _ htidy.keys topic partition message
  · intro name group' hgroup'
    rcases h.rebalanced htidy hgroup' with ⟨group, offsets, hgroup, rfl⟩ | ⟨group, ps, -, hne, rfl⟩
    · exact htidy.members name group hgroup
    · rw [rebalance_members]
      exact hne

end NodeAct.Effect

/-! ### No partition has two owners -/

/-- The groups of a broker are exclusive. -/
def Node.Exclusive (s : Node) : Prop :=
  ∀ name group, s.groups.groups name = some group → group.Exclusive

theorem Node.Exclusive.effect {τ : Nat} {s s' : Node} {a : NodeAct} (h : s.Exclusive)
    (htidy : s.Tidy) (heffect : NodeAct.Effect τ s a s')
    (hlist : ∀ topic partitions, Act.installs s (.node a) = some (topic, partitions) →
      partitions.Nodup) : s'.Exclusive := by
  intro name group' hgroup'
  rcases heffect.rebalanced htidy hgroup' with
    ⟨group, offsets, hgroup, rfl⟩ | ⟨group, partitions, hinstalls, -, rfl⟩
  · exact h name group hgroup
  · exact rebalance_exclusive (hlist _ partitions hinstalls)

/-! ### Groups that cover their topic -/

/-- The partitions that are owned by the members are those for which the topic has a log,
    none is owned twice, and nobody else owns anything. -/
structure Group.Covers (group : Group) (engine : StorageEngine (List Bytes)) : Prop where
  exclusive : group.Exclusive
  members : ∀ p member, p ∈ group.owned member → member ∈ group.members
  owned : ∀ p, (∃ member ∈ group.members, p ∈ group.owned member)
    ↔ engine.HasPartition group.topic p

/-- **A current list.** -/
theorem covers_rebalance {group : Group} {engine : StorageEngine (List Bytes)} {topic : Bytes}
    (hexact : engine.Exact topic) (hkeys : engine.keys.Nodup) (htopic : group.topic = topic)
    (hmembers : group.members ≠ []) :
    (rebalance group (engine.partitionsForTopic topic)).Covers engine := by
  refine ⟨rebalance_exclusive (hexact.unambiguous.nodup hkeys), fun p member hp => ?_,
    fun p => ?_⟩
  · rw [rebalance_members]
    exact mem_members_of_owned hp
  · rw [rebalance_members, rebalance_topic, exists_owner_iff hmembers, hexact.mem_iff, htopic]

/-- Coverage depends only on which partitions of the topic have a log. -/
theorem Group.Covers.congr {group : Group} {engine engine' : StorageEngine (List Bytes)}
    (h : group.Covers engine)
    (hp : ∀ p, engine'.HasPartition group.topic p ↔ engine.HasPartition group.topic p) :
    group.Covers engine' :=
  ⟨h.exclusive, h.members, fun p => (h.owned p).trans (hp p).symm⟩

/-- All groups of the topic cover it. -/
def Node.Covered (s : Node) (topic : Bytes) : Prop :=
  ∀ name group, s.groups.groups name = some group → group.topic = topic →
    group.Covers s.storage

section Covered

variable {τ : Nat} {s s' : Node} {a : NodeAct} {topic : Bytes}

/-- **One action.**  Coverage is kept by everything but an append to the topic, as long as
    the lists that are installed are current. -/
theorem Node.Covered.effect (h : s.Covered topic) (htidy : s.Tidy)
    (heffect : NodeAct.Effect τ s a s')
    (hlist : ∀ partitions, Act.installs s (.node a) = some (topic, partitions) →
      s.storage.Exact topic ∧ partitions = s.storage.partitionsForTopic topic)
    (happend : ∀ topic' partition message origin, a = .append topic' partition message origin →
      topic' ≠ topic ∧ 0 ≤ partition ∧ IsInt32 partition) : s'.Covered topic := by
  -- no partition of the topic is opened
  have hpartition : ∀ p, s'.storage.HasPartition topic p ↔ s.storage.HasPartition topic p := by
    intro p
    rcases heffect.storage with heq | ⟨topic', partition, message, origin, rfl, heq⟩
    · rw [heq]
    · obtain ⟨hne, hpos, hint⟩ := happend _ _ _ _ rfl
      rw [heq, StorageEngine.hasPartition_append _ _ hpos hint]
      constructor
      · rintro (hp | ⟨rfl, -⟩)
        · exact hp
        · exact absurd rfl hne
      · exact .inl
  intro name group' hgroup' htopic
  have hcovers : group'.Covers s.storage := by
    rcases heffect.rebalanced htidy hgroup' with
      ⟨group, offsets, hgroup, rfl⟩ | ⟨group, partitions, hinstalls, hne, rfl⟩
    · obtain ⟨hexclusive, hmembers, howned⟩ := h name group hgroup htopic
      exact ⟨hexclusive, hmembers, howned⟩
    · rw [htopic] at hinstalls
      rw [rebalance_topic] at htopic
      obtain ⟨hexact, rfl⟩ := hlist partitions hinstalls
      exact covers_rebalance hexact htidy.keys htopic hne
  exact hcovers.congr (htopic ▸ hpartition)

/-- **A refresh** with the current list restores coverage. -/
theorem Node.covered_refreshTopic (htidy : s.Tidy) (hexact : s.storage.Exact topic) :
    Node.Covered { s with groups :=
      s.groups.refreshTopic topic (s.storage.partitionsForTopic topic) } topic := by
  intro name group' hgroup' htopic
  obtain ⟨group, hgroup, ⟨htopic', rfl⟩ | ⟨hne, rfl⟩⟩ :=
    refreshTopic_groups hgroup'
  · exact covers_rebalance hexact htidy.keys htopic' (htidy.members name group hgroup)
  · exact absurd htopic hne

end Covered

/-! ### A broker that has just been started -/

theorem Setup.node_fresh (setup : Setup) (n : Int) :
    (setup.node n).storage = {} ∧ (setup.node n).groups = {} := by
  unfold Setup.node
  split <;> exact ⟨rfl, rfl⟩

theorem Setup.node_tidy (setup : Setup) (n : Int) : (setup.node n).Tidy := by
  obtain ⟨hstorage, hgroups⟩ := setup.node_fresh n
  refine ⟨?_, fun name group hgroup => ?_⟩
  · rw [hstorage]
    exact List.nodup_nil
  · rw [hgroups] at hgroup
    exact absurd hgroup (by simp)

theorem Setup.node_covered (setup : Setup) (n : Int) (topic : Bytes) :
    (setup.node n).Covered topic := by
  intro name group hgroup
  rw [(setup.node_fresh n).2] at hgroup
  exact absurd hgroup (by simp)

end StreamingPlatform
