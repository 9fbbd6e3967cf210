import StreamingPlatform.Core.Cursors
import StreamingPlatform.Lib.RoundRobin

namespace StreamingPlatform

open ByteString

/-!
# Core — assignments are balanced and determined by the membership

`rebalance` gives the member at position `i` hand `i` of the sorted partitions
(`rebalance_assignments`).  A `RebalanceLedger` is a manager together with the list with
which each group was rebalanced last.  In every state that calls lead to, the assignment of
a group is the one that its members and that list determine (`Balanced`); as the members
are kept sorted, the order in which they joined has no influence on it.
-/

/-! ### The assignment as a function of members and partitions -/

/-- Every member has its hand of the sorted partitions. -/
def dealt (members : List Bytes) (partitions : List Int) (member : Bytes) : Option (List Int) :=
  if members.idxOf member < members.length then
    some (RoundRobin.hand members.length (members.idxOf member) 0
      (partitions.insertionSort (· ≤ ·)))
  else none

theorem dealt_of_mem {members : List Bytes} {member : Bytes} (h : member ∈ members)
    (partitions : List Int) :
    dealt members partitions member
      = some (RoundRobin.hand members.length (members.idxOf member) 0
          (partitions.insertionSort (· ≤ ·))) :=
  if_pos (List.idxOf_lt_length_of_mem h)

theorem dealt_of_not_mem {members : List Bytes} {member : Bytes} (h : member ∉ members)
    (partitions : List Int) : dealt members partitions member = none :=
  if_neg (fun hlt => h (List.idxOf_lt_length_iff.mp hlt))

section AssignLoop

variable {members : List Bytes} {member : Bytes}

/-- The place of a member is its own. -/
theorem getD_eq_iff_idxOf (hnodup : members.Nodup) (hmember : member ∈ members) {i : Nat}
    (hi : i < members.length) : members.getD i [] = member ↔ i = members.idxOf member := by
  have hidx : members.idxOf member < members.length := List.idxOf_lt_length_of_mem hmember
  rw [List.getD_eq_getElem?_getD, List.getElem?_eq_getElem hi, Option.getD_some]
  have hget : members[members.idxOf member] = member := List.getElem_idxOf hidx
  constructor
  · intro h
    exact (List.Nodup.getElem_inj_iff hnodup).mp (h.trans hget.symm)
  · rintro rfl
    exact hget

/-- The loop of `rebalance` adds its hand to what a member has. -/
theorem assignLoop_of_mem (hnodup : members.Nodup) (hmember : member ∈ members)
    (partitions : List Int) (index : Nat) (assignments : Bytes → Option (List Int))
    (assigned : List Int) (hassigned : assignments member = some assigned) :
    assignLoop members partitions index assignments member
      = some (assigned ++ RoundRobin.hand members.length (members.idxOf member) index
          partitions) := by
  induction partitions generalizing index assignments assigned with
  | nil => rw [assignLoop, RoundRobin.hand, List.append_nil, hassigned]
  | cons p partitions ih =>
    have hlt : index % members.length < members.length :=
      Nat.mod_lt _ (List.length_pos_of_mem hmember)
    rw [assignLoop, RoundRobin.hand]
    by_cases hturn : index % members.length = members.idxOf member
    · have hnext := (getD_eq_iff_idxOf hnodup hmember hlt).mpr hturn
      rw [if_pos hturn, hnext, hassigned, Option.getD_some,
        ih _ _ _ (Function.update_self ..), List.append_assoc, List.singleton_append]
    · have hnext : member ≠ members.getD (index % members.length) [] :=
        fun h => hturn ((getD_eq_iff_idxOf hnodup hmember hlt).mp h.symm)
      rw [if_neg hturn]
      refine ih _ _ _ ?_
      rw [Function.update_of_ne hnext, hassigned]

/-- The loop of `rebalance` gives nothing to others. -/
theorem assignLoop_of_not_mem (hmembers : members ≠ []) (hmember : member ∉ members)
    (partitions : List Int) (index : Nat) (assignments : Bytes → Option (List Int)) :
    assignLoop members partitions index assignments member = assignments member := by
  induction partitions generalizing index assignments with
  | nil => rfl
  | cons p partitions ih =>
    have hlt : index % members.length < members.length :=
      Nat.mod_lt _ (List.length_pos_iff.mpr hmembers)
    rw [assignLoop, ih, Function.update_of_ne]
    rintro rfl
    rw [List.getD_eq_getElem?_getD, List.getElem?_eq_getElem hlt, Option.getD_some] at hmember
    exact hmember (List.getElem_mem hlt)

end AssignLoop

/-- **Rebalance, as a whole.** -/
theorem rebalance_assignments {group : Group} (hmembers : group.members ≠ [])
    (hnodup : group.members.Nodup) (partitions : List Int) :
    (rebalance group partitions).assignments = dealt group.members partitions := by
  funext member
  unfold rebalance
  dsimp only
  rw [if_neg hmembers]
  dsimp only
  by_cases hmember : member ∈ group.members
  · rw [dealt_of_mem hmember]
    exact assignLoop_of_mem hnodup hmember _ 0 _ [] (if_pos hmember)
  · rw [dealt_of_not_mem hmember, assignLoop_of_not_mem hmembers hmember, if_neg hmember]

/-! ### Sorted members -/

/-- A `std::set`: sorted, without repetitions. -/
structure IsSet (members : List Bytes) : Prop where
  sorted : members.Pairwise (· ≤ ·)
  nodup : members.Nodup

namespace IsSet

variable {members members' : List Bytes}

theorem nil : IsSet [] := ⟨.nil, .nil⟩

theorem insertMember (h : IsSet members) (member : Bytes) :
    IsSet (insertMember member members) := by
  unfold StreamingPlatform.insertMember
  split
  · exact h
  · next hnew =>
    have htotal : Std.Total (α := Bytes) (· ≤ ·) := ⟨List.le_total⟩
    have htrans : IsTrans Bytes (· ≤ ·) := ⟨fun _ _ _ => List.le_trans⟩
    exact ⟨h.sorted.orderedInsert _ _,
      (List.perm_orderedInsert _ _ _).nodup_iff.mpr (List.nodup_cons.mpr ⟨hnew, h.nodup⟩)⟩

theorem erase (h : IsSet members) (member : Bytes) : IsSet (members.erase member) :=
  ⟨h.sorted.sublist List.erase_sublist, h.nodup.sublist List.erase_sublist⟩

/-- A set is determined by its elements. -/
theorem ext (h : IsSet members) (h' : IsSet members')
    (hmem : ∀ member, member ∈ members ↔ member ∈ members') : members = members' :=
  ((List.perm_ext_iff_of_nodup h.nodup h'.nodup).mpr hmem).eq_of_pairwise
    (fun _ _ _ _ => List.le_antisymm) h.sorted h'.sorted

end IsSet

/-- Lists of the same partitions are dealt out alike. -/
theorem dealt_congr {partitions partitions' : List Int} (hnodup : partitions.Nodup)
    (hnodup' : partitions'.Nodup) (hmem : ∀ p, p ∈ partitions ↔ p ∈ partitions')
    (members : List Bytes) : dealt members partitions = dealt members partitions' := by
  have hperm : partitions.Perm partitions' := (List.perm_ext_iff_of_nodup hnodup hnodup').mpr hmem
  have hsort : partitions.insertionSort (· ≤ ·) = partitions'.insertionSort (· ≤ ·) :=
    ((List.perm_insertionSort _ _).trans
      (hperm.trans (List.perm_insertionSort _ _).symm)).eq_of_pairwise
        (fun _ _ _ _ => le_antisymm) (List.pairwise_insertionSort _ _)
        (List.pairwise_insertionSort _ _)
  unfold dealt
  rw [hsort]

/-! ### Calls and the lists they rebalance with -/

namespace GroupCall

/-- The partitions that a call names. -/
def partitions : GroupCall → List Int
  | .join _ _ _ partitions => partitions
  | .leave _ _ partitions => partitions
  | .refreshTopic _ partitions => partitions
  | .commit .. => []

/-- The effect of a call on the manager. -/
def perform (manager : ConsumerGroupManager) : GroupCall → ConsumerGroupManager
  | .join groupName member topic partitions =>
    (manager.join groupName member topic partitions).2
  | .leave groupName member partitions => manager.leave groupName member partitions
  | .refreshTopic topic partitions => manager.refreshTopic topic partitions
  | .commit groupName member topic partition offset =>
    (manager.commit groupName member topic partition offset.toNat).2

/-- Does the call reach the `rebalance` of the group? -/
def rebalances (manager : ConsumerGroupManager) (name : Bytes) : GroupCall → Bool
  | .join groupName _ topic _ =>
    let group := (manager.groups groupName).getD {}
    name = groupName && (group.topic = [] || group.topic = topic)
  | .leave groupName member _ =>
    name = groupName &&
      (manager.groups groupName).any (fun group => group.members.erase member ≠ [])
  | .refreshTopic topic _ => (manager.groups name).any (fun group => group.topic = topic)
  | .commit .. => false

end GroupCall

/-- A manager and, for every group, the list with which it was rebalanced last. -/
structure RebalanceLedger where
  manager : ConsumerGroupManager := {}
  lists : Bytes → List Int := fun _ => []

namespace RebalanceLedger

/-- One call. -/
def step (s : RebalanceLedger) (call : GroupCall) : RebalanceLedger where
  manager := call.perform s.manager
  lists := fun name => if call.rebalances s.manager name then call.partitions else s.lists name

/-- The state after a sequence of calls on a new manager. -/
def after (calls : List GroupCall) : RebalanceLedger := calls.foldl step {}

/-- One more call. -/
theorem after_concat (calls : List GroupCall) (call : GroupCall) :
    after (calls ++ [call]) = (after calls).step call := by
  rw [after, List.foldl_append]
  rfl

theorem step_manager (s : RebalanceLedger) (call : GroupCall) :
    (s.step call).manager = call.perform s.manager := rfl

/-- A call counts for the groups that it rebalances. -/
theorem step_lists (s : RebalanceLedger) (call : GroupCall) (name : Bytes) :
    (s.step call).lists name
      = if call.rebalances s.manager name then call.partitions else s.lists name := rfl

/-- The members of a group, none if it does not exist. -/
def members (s : RebalanceLedger) (name : Bytes) : List Bytes :=
  ((s.manager.groups name).getD {}).members

variable {s : RebalanceLedger} {name : Bytes} {group' : Group}

/-- **What a call makes of a group.**  A group that is there after it was there before, with
    the same assignment, or was rebalanced with the list of the call. -/
theorem step_groups {call : GroupCall} (h : (s.step call).manager.groups name = some group') :
    (∃ group, s.manager.groups name = some group ∧ group'.members = group.members ∧
        group'.assignments = group.assignments ∧ (s.step call).lists name = s.lists name) ∨
      ∃ group, group' = rebalance group call.partitions ∧
        (s.step call).lists name = call.partitions ∧
        ((∃ member, group.members = insertMember member (s.members name)) ∨
          (∃ member, group.members = (s.members name).erase member ∧ group.members ≠ []) ∨
          s.manager.groups name = some group) := by
  cases call with
  | join groupName member topic partitions =>
    generalize hold : (s.manager.groups groupName).getD {} = old
    by_cases htopic : old.topic = [] ∨ old.topic = topic
    · have hgroups := s.manager.join_of_topic member partitions hold htopic
      rw [step_manager, GroupCall.perform, hgroups] at h
      rw [Function.update_apply] at h
      split at h
      · next hname =>
        subst hname
        refine .inr ⟨_, (Option.some.inj h).symm, ?_, .inl ⟨member, ?_⟩⟩
        · rw [step_lists, if_pos (by simp [GroupCall.rebalances, hold, htopic])]
        · rw [members, hold]
      · next hname =>
        refine .inl ⟨group', h, rfl, rfl, ?_⟩
        rw [step_lists, if_neg (by simp [GroupCall.rebalances, hname])]
    · rw [step_manager, GroupCall.perform,
        s.manager.join_of_other_topic member partitions hold htopic] at h
      refine .inl ⟨group', h, rfl, rfl, ?_⟩
      rw [step_lists, if_neg (by simp [GroupCall.rebalances, hold, htopic])]
  | leave groupName member partitions =>
    rw [step_manager, GroupCall.perform, ConsumerGroupManager.leave] at h
    cases hgroup : s.manager.groups groupName with
    | none =>
      rw [hgroup] at h
      refine .inl ⟨group', h, rfl, rfl, ?_⟩
      rw [step_lists, if_neg (by simp [GroupCall.rebalances, hgroup])]
    | some old =>
      rw [hgroup] at h
      dsimp only at h
      by_cases hname : name = groupName
      · subst hname
        split at h
        · -- the group is gone
          dsimp only at h
          rw [Function.update_self] at h
          exact absurd h (by simp)
        · next hne =>
          dsimp only at h
          rw [Function.update_self] at h
          refine .inr ⟨_, (Option.some.inj h).symm, ?_, .inr (.inl ⟨member, ?_, hne⟩)⟩
          · rw [step_lists, if_pos (by simpa [GroupCall.rebalances, hgroup] using hne)]
          · rw [members, hgroup, Option.getD_some]
      · have hold : s.manager.groups name = some group' := by
          split at h <;> exact (Function.update_of_ne hname ..).symm.trans h
        refine .inl ⟨group', hold, rfl, rfl, ?_⟩
        rw [step_lists, if_neg (by simp [GroupCall.rebalances, hname])]
  | refreshTopic topic partitions =>
    obtain ⟨group, hgroup, ⟨htopic, rfl⟩ | ⟨htopic, rfl⟩⟩ :=
      ConsumerGroupManager.refreshTopic_groups h
    · refine .inr ⟨group, rfl, ?_, .inr (.inr hgroup)⟩
      rw [step_lists, if_pos (by simp [GroupCall.rebalances, hgroup, htopic])]
    · refine .inl ⟨_, hgroup, rfl, rfl, ?_⟩
      rw [step_lists, if_neg (by simp [GroupCall.rebalances, hgroup, htopic])]
  | commit groupName member topic partition offset =>
    obtain ⟨group, offsets, hgroup, rfl⟩ := ConsumerGroupManager.commit_groups h
    exact .inl ⟨group, hgroup, rfl, rfl, rfl⟩

/-- The members of a group are a set, and it has the assignment that they and the list
    determine. -/
structure Dealt (group : Group) (partitions : List Int) : Prop where
  nonempty : group.members ≠ []
  isSet : IsSet group.members
  assignments : group.assignments = dealt group.members partitions

/-- Every group is as it was rebalanced last. -/
def Balanced (s : RebalanceLedger) : Prop :=
  ∀ name group, s.manager.groups name = some group → Dealt group (s.lists name)

/-- A rebalance deals the partitions out in turns. -/
theorem Dealt.of_rebalance {group : Group} (hne : group.members ≠ []) (hset : IsSet group.members)
    (partitions : List Int) : Dealt (rebalance group partitions) partitions := by
  refine ⟨?_, ?_, ?_⟩
  · rw [rebalance_members]
    exact hne
  · rw [rebalance_members]
    exact hset
  · rw [rebalance_members, rebalance_assignments hne hset.nodup]

/-- Members are distinct and sorted. -/
theorem Balanced.isSet_members (h : s.Balanced) (name : Bytes) : IsSet (s.members name) := by
  unfold members
  cases hgroup : s.manager.groups name with
  | none => exact IsSet.nil
  | some group => exact (h name group hgroup).isSet

/-- **One call** keeps the groups balanced. -/
theorem Balanced.step (h : s.Balanced) (call : GroupCall) : (s.step call).Balanced := by
  intro name group' hgroup'
  rcases step_groups hgroup' with ⟨group, hgroup, hmembers, hassignments, hlist⟩ |
    ⟨group, rfl, hlist, hmembers⟩
  · obtain ⟨hne, hset, hdealt⟩ := h name group hgroup
    rw [hlist]
    refine ⟨?_, ?_, ?_⟩
    · rwa [hmembers]
    · rwa [hmembers]
    · rw [hassignments, hmembers, hdealt]
  · rw [hlist]
    have hset := h.isSet_members name
    rcases hmembers with ⟨member, hinsert⟩ | ⟨member, herase, hne⟩ | hold
    · refine Dealt.of_rebalance ?_ ?_ _
      · rw [hinsert]
        exact List.ne_nil_of_mem (mem_insertMember member _)
      · rw [hinsert]
        exact hset.insertMember member
    · refine Dealt.of_rebalance hne ?_ _
      rw [herase]
      exact hset.erase member
    · obtain ⟨hne, hset, -⟩ := h name group hold
      exact Dealt.of_rebalance hne hset _

/-- **Every sequence of calls.** -/
theorem balanced_after (calls : List GroupCall) : (after calls).Balanced := by
  induction calls using List.reverseRecOn with
  | nil =>
    intro name group hgroup
    exact absurd hgroup (by simp [after])
  | append_singleton calls call ih =>
    rw [after_concat]
    exact ih.step call

/-- The lists come from the calls. -/
theorem nodup_lists_after {calls : List GroupCall} (h : ∀ call ∈ calls, call.partitions.Nodup)
    (name : Bytes) : ((after calls).lists name).Nodup := by
  induction calls using List.reverseRecOn with
  | nil => exact List.nodup_nil
  | append_singleton calls call ih =>
    rw [after_concat]
    rw [step_lists]
    split
    · exact h call List.mem_concat_self
    · exact ih (fun call hcall => h call (List.mem_append_left _ hcall))

/-- **Balanced assignments.**  Whatever calls were made, with lists without repetitions: a
    group's assignment has the members as its keys; each partition of the list with which
    the group was rebalanced last, and no other, has exactly one owner; no member owns two
    partitions more than another; and any other calls that lead to the same members and
    partitions lead to the same assignment. -/
theorem assignments_balanced (calls : List GroupCall)
    (hcalls : ∀ call ∈ calls, call.partitions.Nodup) (name : Bytes) (group : Group)
    (hgroup : (after calls).manager.groups name = some group) :
    (∀ member, (group.assignments member).isSome = true ↔ member ∈ group.members) ∧
      (∀ p, p ∈ (after calls).lists name ↔ ∃! member, p ∈ group.owned member) ∧
      (∀ member ∈ group.members, ∀ member' ∈ group.members,
        (group.owned member).length ≤ (group.owned member').length + 1) ∧
      ∀ calls' : List GroupCall, (∀ call ∈ calls', call.partitions.Nodup) →
        ∀ name' group', (after calls').manager.groups name' = some group' →
          (∀ member, member ∈ group.members ↔ member ∈ group'.members) →
          (∀ p, p ∈ (after calls).lists name ↔ p ∈ (after calls').lists name') →
          group.assignments = group'.assignments := by
  obtain ⟨hne, hset, hdealt⟩ := balanced_after calls name group hgroup
  have hnodup := nodup_lists_after hcalls name
  refine ⟨fun member => ?_, fun p => ?_, fun member hmember member' hmember' => ?_, ?_⟩
  · rw [hdealt]
    by_cases hmember : member ∈ group.members
    · rw [dealt_of_mem hmember]
      exact iff_of_true rfl hmember
    · rw [dealt_of_not_mem hmember]
      exact iff_of_false Bool.false_ne_true hmember
  · -- the group owns what it would own after one more rebalance with the list
    have howned : ∀ member,
        group.owned member = (rebalance group ((after calls).lists name)).owned member := by
      intro member
      rw [Group.owned, Group.owned, rebalance_assignments hne hset.nodup, hdealt]
    simp only [howned]
    rw [← exists_owner_iff hne]
    constructor
    · rintro ⟨member, -, hp⟩
      exact ⟨member, hp, fun member' hp' => rebalance_exclusive hnodup p member' member hp' hp⟩
    · rintro ⟨member, hp, -⟩
      exact ⟨member, mem_members_of_owned hp, hp⟩
  · rw [Group.owned, Group.owned, hdealt, dealt_of_mem hmember, dealt_of_mem hmember',
      Option.getD_some, Option.getD_some]
    exact RoundRobin.length_hand_le (List.idxOf_lt_length_of_mem hmember)
      (List.idxOf_lt_length_of_mem hmember') _
  · intro calls' hcalls' name' group' hgroup' hmembers hlists
    obtain ⟨-, hset', hdealt'⟩ := balanced_after calls' name' group' hgroup'
    rw [hdealt, hdealt', hset.ext hset' hmembers]
    exact dealt_congr hnodup (nodup_lists_after hcalls' name') hlists _

/-- Two members that joined in either order, with their lists in different orders. -/
theorem assignments_balanced_two :
    let calls := [GroupCall.join [1] [7] [9] [2, 0, 1], .join [1] [5] [9] [2, 0, 1]]
    let calls' := [GroupCall.join [1] [5] [9] [4], .join [1] [7] [9] [1, 0, 2],
      .leave [1] [6] [0, 1, 2]]
    let group := ((after calls).manager.groups [1]).getD {}
    let group' := ((after calls').manager.groups [1]).getD {}
    group.owned [5] = [0, 2] ∧ group.owned [7] = [1] ∧ group.assignments = group'.assignments := by
  intro calls calls' group group'
  have hmembers : group.members = group'.members := by decide
  refine ⟨by decide, by decide, ?_⟩
  have hlist : (after calls).lists [1] = [2, 0, 1] := by decide
  have hlist' : (after calls').lists [1] = [0, 1, 2] := by decide
  refine (assignments_balanced calls (by decide) [1] group rfl).2.2.2 calls' (by decide) [1] group'
    rfl (fun member => by rw [hmembers]) (fun p => ?_)
  rw [hlist, hlist']
  simp only [List.mem_cons, List.not_mem_nil, or_false]
  omega

end RebalanceLedger

end StreamingPlatform
