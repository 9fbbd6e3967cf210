import StreamingPlatform.Core.Groups

namespace StreamingPlatform

open ByteString

/-!
# Core — who owns which partition

`rebalance` deals the sorted partitions out to the members in turn.  A member owns a
partition when the partition is listed at a position that falls to the member
(`mem_owned_rebalance`), so every listed partition has an owner (`exists_owner_iff`), and
only one if the list has no repetitions (`rebalance_exclusive`).

The operations of the manager change one group or the groups of one topic; what they make
of it is a `rebalance` with the list they are given, or nothing (`join_cases`,
`leave_cases`, `refreshTopic_groups`).
-/

namespace Group

/-- The partitions that a member owns. -/
def owned (group : Group) (member : Bytes) : List Int := (group.assignments member).getD []

/-- No partition has two owners. -/
def Exclusive (group : Group) : Prop :=
  ∀ p member member', p ∈ group.owned member → p ∈ group.owned member' → member = member'

end Group

theorem mem_insertMember (member : Bytes) (members : List Bytes) :
    member ∈ insertMember member members := by
  unfold insertMember
  split
  · next h => exact h
  · exact (List.mem_orderedInsert _).mpr (.inl rfl)

/-! ### Dealing out -/

theorem owned_update (assignments : Bytes → Option (List Int)) (member member' : Bytes)
    (partitions : List Int) :
    (Function.update assignments member (some partitions) member').getD []
      = if member' = member then partitions else (assignments member').getD [] := by
  by_cases h : member' = member
  · rw [if_pos h, h, Function.update_self, Option.getD_some]
  · rw [if_neg h, Function.update_of_ne h]

/-- The loop of `rebalance`, for one member. -/
theorem mem_assignLoop (members : List Bytes) (partitions : List Int) (index : Nat)
    (assignments : Bytes → Option (List Int)) (member : Bytes) (p : Int) :
    p ∈ (assignLoop members partitions index assignments member).getD []
      ↔ p ∈ (assignments member).getD [] ∨ ∃ i, partitions[i]? = some p ∧
          members.getD ((index + i) % members.length) [] = member := by
  induction partitions generalizing index assignments with
  | nil => simp [assignLoop]
  | cons q partitions ih =>
    rw [assignLoop, ih, owned_update]
    -- the first partition goes to the member at `index`, the rest follow
    constructor
    · rintro (hp | ⟨i, hi, hmember⟩)
      · split at hp
        · next hmember =>
          rcases List.mem_append.mp hp with hp | hp
          · exact .inl (hmember ▸ hp)
          · exact .inr ⟨0, by rw [List.mem_singleton.mp hp]; rfl, hmember.symm⟩
        · exact .inl hp
      · refine .inr ⟨i + 1, hi, ?_⟩
        rw [← hmember, Nat.add_assoc, Nat.add_comm 1 i]
    · rintro (hp | ⟨i, hi, hmember⟩)
      · refine .inl ?_
        split
        · next h => exact List.mem_append_left _ (h ▸ hp)
        · exact hp
      · cases i with
        | zero =>
          refine .inl ?_
          rw [Nat.add_zero] at hmember
          rw [if_pos hmember.symm, List.mem_append]
          exact .inr (by rw [Option.some.inj hi]; exact List.mem_singleton_self p)
        | succ i =>
          refine .inr ⟨i, hi, ?_⟩
          rw [← hmember, Nat.add_assoc, Nat.add_comm 1 i]

section Rebalance

variable {group : Group} {partitions : List Int} {member : Bytes} {p : Int}

@[simp] theorem rebalance_members (group : Group) (partitions : List Int) :
    (rebalance group partitions).members = group.members := by
  unfold rebalance
  dsimp only
  split <;> rfl

/-- What was assigned before does not matter. -/
theorem rebalance_rebalance (group : Group) (partitions partitions' : List Int) :
    rebalance (rebalance group partitions) partitions' = rebalance group partitions' := by
  unfold rebalance
  dsimp only
  by_cases hmembers : group.members = []
  · simp only [if_pos hmembers]
  · simp only [if_neg hmembers]

/-- **Rebalance.** -/
theorem mem_owned_rebalance (hmembers : group.members ≠ []) :
    p ∈ (rebalance group partitions).owned member
      ↔ ∃ i, (partitions.insertionSort (· ≤ ·))[i]? = some p ∧
          group.members.getD (i % group.members.length) [] = member := by
  unfold rebalance Group.owned
  dsimp only
  rw [if_neg hmembers]
  dsimp only
  rw [mem_assignLoop]
  have hcleared : ((if member ∈ group.members then some [] else none : Option (List Int))).getD []
      = [] := by split <;> rfl
  simp only [hcleared, List.not_mem_nil, false_or, Nat.zero_add]

/-- Without members nothing is owned. -/
theorem owned_rebalance_nil (hmembers : group.members = []) :
    (rebalance group partitions).owned member = [] := by
  unfold rebalance Group.owned
  dsimp only
  rw [if_pos hmembers, hmembers]
  rfl

/-- Owners are members. -/
theorem mem_members_of_owned (hp : p ∈ (rebalance group partitions).owned member) :
    member ∈ group.members := by
  by_cases hmembers : group.members = []
  · rw [owned_rebalance_nil hmembers] at hp
    exact absurd hp List.not_mem_nil
  · obtain ⟨i, -, rfl⟩ := (mem_owned_rebalance hmembers).mp hp
    have hlt : i % group.members.length < group.members.length :=
      Nat.mod_lt _ (List.length_pos_iff.mpr hmembers)
    rw [List.getD_eq_getElem?_getD, List.getElem?_eq_getElem hlt, Option.getD_some]
    exact List.getElem_mem hlt

/-- **Every listed partition, and no other, has an owner.** -/
theorem exists_owner_iff (hmembers : group.members ≠ []) :
    (∃ member ∈ group.members, p ∈ (rebalance group partitions).owned member)
      ↔ p ∈ partitions := by
  rw [← List.mem_insertionSort (· ≤ ·)]
  constructor
  · rintro ⟨member, -, hp⟩
    obtain ⟨i, hi, -⟩ := (mem_owned_rebalance hmembers).mp hp
    exact List.mem_of_getElem? hi
  · intro hp
    obtain ⟨i, hi⟩ := List.mem_iff_getElem?.mp hp
    have howned := (mem_owned_rebalance hmembers).mpr ⟨i, hi, rfl⟩
    exact ⟨_, mem_members_of_owned howned, howned⟩

/-- **A partition that is listed once has one owner.** -/
theorem rebalance_exclusive (hnodup : partitions.Nodup) :
    (rebalance group partitions).Exclusive := by
  intro p member member' hp hp'
  by_cases hmembers : group.members = []
  · rw [owned_rebalance_nil hmembers] at hp
    exact absurd hp (by simp)
  · obtain ⟨i, hi, rfl⟩ := (mem_owned_rebalance hmembers).mp hp
    obtain ⟨j, hj, rfl⟩ := (mem_owned_rebalance hmembers).mp hp'
    have hsorted : (partitions.insertionSort (· ≤ ·)).Nodup :=
      (List.perm_insertionSort _ _).nodup_iff.mpr hnodup
    have hlt := (List.getElem?_eq_some_iff.mp hi).1
    rw [(List.getElem?_inj hlt hsorted).mp (hi.trans hj.symm)]

end Rebalance

/-! ### The operations of the manager -/

namespace ConsumerGroupManager

variable {manager : ConsumerGroupManager} {name member topic : Bytes} {partitions : List Int}
  {partition : Int} {name' : Bytes} {group' : Group}

/-- A partition is assigned if the group has the topic and the member owns it. -/
theorem isAssigned_iff {partition : Int} :
    manager.isAssigned name member topic partition = true
      ↔ ∃ group, manager.groups name = some group ∧ group.topic = topic ∧
          partition ∈ group.owned member := by
  unfold isAssigned Group.owned
  cases manager.groups name with
  | none => simp
  | some group =>
    simp only [Option.some.injEq, exists_eq_left']
    by_cases htopic : group.topic ≠ topic
    · simp [htopic]
    · rw [if_neg htopic]
      cases group.assignments member with
      | none => simp
      | some assigned => simp [not_not.mp htopic]

/-- A join of a group without another topic rebalances it with the new member. -/
theorem join_of_topic (member : Bytes) (partitions : List Int) {group : Group}
    (hgroup : (manager.groups name).getD {} = group)
    (htopic : group.topic = [] ∨ group.topic = topic) :
    (manager.join name member topic partitions).2.groups =
      Function.update manager.groups name (some (rebalance
        { group with topic := topic, members := insertMember member group.members }
        partitions)) := by
  unfold join
  dsimp only
  rw [hgroup]
  by_cases hnew : group.topic = []
  · rw [if_pos hnew, if_neg (not_not.mpr rfl)]
  · obtain rfl := htopic.resolve_left hnew
    rw [if_neg hnew, if_neg (not_not.mpr rfl)]

/-- A join of a group of another topic changes nothing. -/
theorem join_of_other_topic (member : Bytes) (partitions : List Int) {group : Group}
    (hgroup : (manager.groups name).getD {} = group)
    (htopic : ¬ (group.topic = [] ∨ group.topic = topic)) :
    (manager.join name member topic partitions).2 = manager := by
  obtain ⟨hnew, hother⟩ := not_or.mp htopic
  unfold join
  dsimp only
  rw [hgroup, if_neg hnew, if_pos hother]
  -- a group that has a topic exists, and is stored as it was
  cases h : manager.groups name with
  | none =>
    rw [h] at hgroup
    exact absurd (by rw [← hgroup]; rfl) hnew
  | some group' =>
    rw [h] at hgroup
    obtain rfl : group' = group := hgroup
    rw [← h, Function.update_eq_self]

/-- **A join** leaves the manager alone, if the group has another topic, or rebalances the
    group with the new member. -/
theorem join_cases (manager : ConsumerGroupManager) (name member topic : Bytes)
    (partitions : List Int) :
    (manager.join name member topic partitions).2 = manager ∨
      ∃ group, group = (manager.groups name).getD {} ∧
        (group.topic = [] ∨ group.topic = topic) ∧
        (manager.join name member topic partitions).2.groups =
          Function.update manager.groups name (some (rebalance
            { group with topic := topic, members := insertMember member group.members }
            partitions)) := by
  generalize hgroup : (manager.groups name).getD {} = group
  by_cases htopic : group.topic = [] ∨ group.topic = topic
  · exact .inr ⟨group, rfl, htopic, join_of_topic member partitions hgroup htopic⟩
  · exact .inl (join_of_other_topic member partitions hgroup htopic)

/-- **A leave** rebalances the group without the member, or deletes it with its last
    one. -/
theorem leave_cases (manager : ConsumerGroupManager) (name member : Bytes)
    (partitions : List Int) :
    manager.leave name member partitions = manager ∨
      (manager.leave name member partitions).groups = Function.update manager.groups name none ∨
      ∃ group, manager.groups name = some group ∧ group.members.erase member ≠ [] ∧
        (manager.leave name member partitions).groups =
          Function.update manager.groups name
            (some (rebalance { group with members := group.members.erase member } partitions)) := by
  unfold leave
  cases h : manager.groups name with
  | none => exact .inl rfl
  | some group =>
    dsimp only
    split
    · exact .inr (.inl rfl)
    · next hne => exact .inr (.inr ⟨group, rfl, hne, rfl⟩)

/-- The groups after one of them was replaced or deleted. -/
theorem update_eq_some {groups : Bytes → Option Group} {group? : Option Group}
    (h : Function.update groups name group? name' = some group') :
    (name' = name ∧ group? = some group') ∨ groups name' = some group' := by
  rw [Function.update_apply] at h
  split at h
  · next hname => exact .inl ⟨hname, h⟩
  · exact .inr h

/-- What a join leaves behind: old groups, and one group of the topic that it rebalances
    with its list. -/
theorem join_groups (h : (manager.join name member topic partitions).2.groups name' = some group') :
    manager.groups name' = some group' ∨
      (group'.topic = topic ∧
        ∃ group, group.members ≠ [] ∧ group' = rebalance group partitions) := by
  rcases join_cases manager name member topic partitions with heq | ⟨group, -, -, heq⟩
  · rw [heq] at h
    exact .inl h
  · rw [heq] at h
    rcases update_eq_some h with ⟨-, hnew⟩ | hold
    · obtain rfl := Option.some.inj hnew
      refine .inr ⟨rebalance_topic .., _, ?_, rfl⟩
      exact List.ne_nil_of_mem (mem_insertMember member group.members)
    · exact .inl hold

/-- What a leave leaves behind: old groups, and the group that it rebalances with its
    list. -/
theorem leave_groups (h : (manager.leave name member partitions).groups name' = some group') :
    manager.groups name' = some group' ∨
      ∃ old group, manager.groups name = some old ∧ group'.topic = old.topic ∧
        group.members ≠ [] ∧ group' = rebalance group partitions := by
  rcases leave_cases manager name member partitions with heq | heq | ⟨group, hgroup, hne, heq⟩
  · rw [heq] at h
    exact .inl h
  · rw [heq] at h
    rcases update_eq_some h with ⟨-, hnone⟩ | hold
    · exact absurd hnone (by simp)
    · exact .inl hold
  · rw [heq] at h
    rcases update_eq_some h with ⟨-, hnew⟩ | hold
    · obtain rfl := Option.some.inj hnew
      exact .inr ⟨group, _, hgroup, rebalance_topic .., hne, rfl⟩
    · exact .inl hold

/-- A commit changes offsets only. -/
theorem commit_groups {offset : Nat}
    (h : (manager.commit name member topic partition offset).2.groups name' = some group') :
    ∃ group offsets, manager.groups name' = some group ∧
      group' = { group with offsets := offsets } := by
  rcases commit_cases manager name member topic partition offset with
    heq | ⟨group, next, hgroup, -, -, heq⟩
  · rw [heq] at h
    exact ⟨group', group'.offsets, h, rfl⟩
  · rw [heq] at h
    rcases update_eq_some h with ⟨rfl, hnew⟩ | hold
    · exact ⟨group, _, hgroup, (Option.some.inj hnew).symm⟩
    · exact ⟨group', group'.offsets, hold, rfl⟩

/-- A refresh rebalances the groups of its topic. -/
theorem refreshTopic_groups
    (h : (manager.refreshTopic topic partitions).groups name' = some group') :
    ∃ group, manager.groups name' = some group ∧
      ((group.topic = topic ∧ group' = rebalance group partitions) ∨
        (group.topic ≠ topic ∧ group' = group)) := by
  obtain ⟨group, hgroup, heq⟩ := Option.map_eq_some_iff.mp h
  refine ⟨group, hgroup, ?_⟩
  split at heq
  · next htopic => exact .inl ⟨htopic, heq.symm⟩
  · next htopic => exact .inr ⟨htopic, heq.symm⟩

/-- Only the last of several refreshes counts. -/
theorem refreshTopic_refreshTopic (manager : ConsumerGroupManager) (topic : Bytes)
    (partitions partitions' : List Int) :
    (manager.refreshTopic topic partitions).refreshTopic topic partitions'
      = manager.refreshTopic topic partitions' := by
  unfold refreshTopic
  congr 1
  funext name
  rw [Option.map_map]
  congr 1
  funext group
  by_cases htopic : group.topic = topic
  · simp only [Function.comp_apply, if_pos htopic, rebalance_topic, rebalance_rebalance]
  · simp only [Function.comp_apply, if_neg htopic]

/-! ### Cursors are 64-bit values -/

/-- The cursors of the groups are `uint64_t`. -/
def CursorsFit (manager : ConsumerGroupManager) : Prop :=
  ∀ name group, manager.groups name = some group →
    ∀ p offset, group.offsets p = some offset → offset < 2 ^ 64

/-- Cursors are 64-bit numbers. -/
theorem CursorsFit.nextOffset_lt (h : manager.CursorsFit) (name topic : Bytes) (p : Int) :
    manager.nextOffset name topic p < 2 ^ 64 := by
  unfold nextOffset
  split
  · decide
  · next group hgroup =>
    split
    · decide
    · cases hoffset : group.offsets p with
      | none => decide
      | some offset => exact h name group hgroup p offset hoffset

/-- One group is deleted, or replaced by another one with cursors that fit. -/
theorem CursorsFit.update (h : manager.CursorsFit) {manager' : ConsumerGroupManager}
    {group? : Option Group} (heq : manager'.groups = Function.update manager.groups name group?)
    (hfits : ∀ group', group? = some group' →
      ∀ p offset, group'.offsets p = some offset → offset < 2 ^ 64) :
    manager'.CursorsFit := by
  intro name' group hgroup
  rw [heq] at hgroup
  rcases update_eq_some hgroup with ⟨-, hnew⟩ | hold
  · exact hfits group hnew
  · exact h name' group hold

theorem CursorsFit.join (h : manager.CursorsFit) :
    (manager.join name member topic partitions).2.CursorsFit := by
  rcases join_cases manager name member topic partitions with heq | ⟨group, rfl, -, heq⟩
  · rw [heq]
    exact h
  · refine h.update heq (fun group' hgroup' p offset hoffset => ?_)
    rw [← Option.some.inj hgroup', rebalance_offsets] at hoffset
    cases hgroup : manager.groups name with
    | none =>
      rw [hgroup] at hoffset
      exact absurd hoffset (by simp)
    | some group =>
      rw [hgroup] at hoffset
      exact h name group hgroup p offset hoffset

theorem CursorsFit.leave (h : manager.CursorsFit) :
    (manager.leave name member partitions).CursorsFit := by
  rcases leave_cases manager name member partitions with heq | heq | ⟨group, hgroup, -, heq⟩
  · rw [heq]
    exact h
  · exact h.update heq (fun group' hnone => absurd hnone (by simp))
  · refine h.update heq (fun group' hgroup' p offset hoffset => ?_)
    rw [← Option.some.inj hgroup', rebalance_offsets] at hoffset
    exact h name group hgroup p offset hoffset

theorem CursorsFit.commit (h : manager.CursorsFit) {offset : Nat} :
    (manager.commit name member topic partition offset).2.CursorsFit := by
  rcases commit_cases manager name member topic partition offset with
    heq | ⟨group, next, hgroup, -, hnext, heq⟩
  · rw [heq]
    exact h
  · have hlt : next < 2 ^ 64 := by
      rcases hnext with rfl | rfl
      · cases hoffset : group.offsets partition with
        | none => decide
        | some old => exact h name group hgroup partition old hoffset
      · exact Nat.mod_lt _ (by decide)
    refine h.update heq (fun group' hgroup' p o ho => ?_)
    rw [← Option.some.inj hgroup'] at ho
    dsimp only at ho
    rw [Function.update_apply] at ho
    split at ho
    · exact Option.some.inj ho ▸ hlt
    · exact h name group hgroup p o ho

theorem CursorsFit.refreshTopic (h : manager.CursorsFit) :
    (manager.refreshTopic topic partitions).CursorsFit := by
  intro name' group' hgroup' p offset hoffset
  obtain ⟨group, hgroup, ⟨-, rfl⟩ | ⟨-, rfl⟩⟩ := refreshTopic_groups hgroup'
  · rw [rebalance_offsets] at hoffset
    exact h name' group hgroup p offset hoffset
  · exact h name' _ hgroup p offset hoffset

end ConsumerGroupManager

end StreamingPlatform
