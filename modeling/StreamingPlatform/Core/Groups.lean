import StreamingPlatform.Protocol.Message
import Mathlib.Data.List.Sort
import Mathlib.Logic.Function.Basic

namespace StreamingPlatform

open ByteString

/-!
# Core — consumer groups (`consumer_group_manager.cpp`)

A map keyed by strings or integers is a function to `Option`; `std::set<std::string>` is
a sorted list.  All methods run under the manager's own mutex, so each is one atomic
operation.
-/

/-- `ConsumerGroupManager::Group`. -/
structure Group where
  topic : Bytes := []
  members : List Bytes := []
  assignments : Bytes → Option (List Int) := fun _ => none
  offsets : Int → Option Nat := fun _ => none

/-- `std::set::insert` on a sorted list. -/
def insertMember (member : Bytes) (members : List Bytes) : List Bytes :=
  if member ∈ members then members else members.orderedInsert (· ≤ ·) member

/-- The loop of `rebalance`: the partition at position `index` goes to the member at
    position `index % members.size()`. -/
def assignLoop (members : List Bytes) :
    List Int → Nat → (Bytes → Option (List Int)) → Bytes → Option (List Int)
  | [], _, assignments => assignments
  | partition :: partitions, index, assignments =>
    let member := members.getD (index % members.length) []
    assignLoop members partitions (index + 1)
      (Function.update assignments member
        (some ((assignments member).getD [] ++ [partition])))

/-- `ConsumerGroupManager::rebalance`. -/
def rebalance (group : Group) (partitions : List Int) : Group :=
  let cleared : Bytes → Option (List Int) :=
    fun member => if member ∈ group.members then some [] else none
  if group.members = [] then { group with assignments := cleared }
  else
    { group with
      assignments := assignLoop group.members (partitions.insertionSort (· ≤ ·)) 0 cleared }

/-- `ConsumerGroupManager`. -/
structure ConsumerGroupManager where
  groups : Bytes → Option Group := fun _ => none

namespace ConsumerGroupManager

/-- `ConsumerGroupManager::join`. -/
def join (manager : ConsumerGroupManager) (groupName member topic : Bytes)
    (partitions : List Int) : List Int × ConsumerGroupManager :=
  let group := (manager.groups groupName).getD {}
  let group := if group.topic = [] then { group with topic := topic } else group
  if group.topic ≠ topic then ([], ⟨Function.update manager.groups groupName (some group)⟩)
  else
    let group := rebalance { group with members := insertMember member group.members } partitions
    ((group.assignments member).getD [],
      ⟨Function.update manager.groups groupName (some group)⟩)

/-- `ConsumerGroupManager::leave`. -/
def leave (manager : ConsumerGroupManager) (groupName member : Bytes) (partitions : List Int) :
    ConsumerGroupManager :=
  match manager.groups groupName with
  | none => manager
  | some group =>
    let group := { group with members := group.members.erase member }
    if group.members = [] then ⟨Function.update manager.groups groupName none⟩
    else ⟨Function.update manager.groups groupName (some (rebalance group partitions))⟩

/-- `ConsumerGroupManager::is_assigned`. -/
def isAssigned (manager : ConsumerGroupManager) (groupName member topic : Bytes)
    (partition : Int) : Bool :=
  match manager.groups groupName with
  | none => false
  | some group =>
    if group.topic ≠ topic then false
    else
      match group.assignments member with
      | none => false
      | some assigned => assigned.contains partition

/-- `ConsumerGroupManager::next_offset`. -/
def nextOffset (manager : ConsumerGroupManager) (groupName topic : Bytes) (partition : Int) :
    Nat :=
  match manager.groups groupName with
  | none => 0
  | some group => if group.topic ≠ topic then 0 else (group.offsets partition).getD 0

/-- `ConsumerGroupManager::commit`; `offset + 1` is computed in 64 bits. -/
def commit (manager : ConsumerGroupManager) (groupName member topic : Bytes) (partition : Int)
    (offset : Nat) : Bool × ConsumerGroupManager :=
  match manager.groups groupName with
  | none => (false, manager)
  | some group =>
    if group.topic ≠ topic then (false, manager)
    else
      match group.assignments member with
      | none => (false, manager)
      | some assigned =>
        if assigned.contains partition then
          let next := max ((group.offsets partition).getD 0) ((offset + 1) % 2 ^ 64)
          (true, ⟨Function.update manager.groups groupName
            (some { group with offsets := Function.update group.offsets partition (some next) })⟩)
        else (false, manager)

/-- `ConsumerGroupManager::refresh_topic`. -/
def refreshTopic (manager : ConsumerGroupManager) (topic : Bytes) (partitions : List Int) :
    ConsumerGroupManager :=
  ⟨fun groupName => (manager.groups groupName).map (fun group =>
    if group.topic = topic then rebalance group partitions else group)⟩

/-! ### The cursors

A group's cursors are moved by `commit` only; the other operations keep them, or reset
them with the whole group.  This holds as long as no group is without a topic: `join`
gives such a group a topic and with it cursors from before. -/

@[simp] theorem rebalance_topic (group : Group) (partitions : List Int) :
    (rebalance group partitions).topic = group.topic := by
  unfold rebalance
  dsimp only
  split <;> rfl

@[simp] theorem rebalance_offsets (group : Group) (partitions : List Int) :
    (rebalance group partitions).offsets = group.offsets := by
  unfold rebalance
  dsimp only
  split <;> rfl

/-- The cursor of a group that may not exist. -/
def cursor (group? : Option Group) (topic : Bytes) (partition : Int) : Nat :=
  match group? with
  | none => 0
  | some group => if group.topic ≠ topic then 0 else (group.offsets partition).getD 0

theorem nextOffset_eq (manager : ConsumerGroupManager) (name topic : Bytes) (partition : Int) :
    manager.nextOffset name topic partition = cursor (manager.groups name) topic partition := rfl

/-- A group has a topic if it exists. -/
def HasTopic (group? : Option Group) : Prop := ∀ group, group? = some group → group.topic ≠ []

/-- Every group has a topic. -/
def Named (manager : ConsumerGroupManager) : Prop := ∀ name, HasTopic (manager.groups name)

/-- No group is left without a topic, and no cursor is advanced. -/
def Tame (groups groups' : Bytes → Option Group) : Prop :=
  ∀ name, HasTopic (groups' name) ∧
    ∀ topic partition, cursor (groups' name) topic partition ≤ cursor (groups name) topic partition

section Cursors

variable {manager : ConsumerGroupManager} {name member topic : Bytes} {partitions : List Int}

theorem Named.tame_refl (h : manager.Named) : Tame manager.groups manager.groups :=
  fun name => ⟨h name, fun _ _ => le_rfl⟩

/-- One group is replaced. -/
theorem Named.tame_update (h : manager.Named) {group? : Option Group} (htopic : HasTopic group?)
    (hcursor : ∀ t p, cursor group? t p ≤ cursor (manager.groups name) t p) :
    Tame manager.groups (Function.update manager.groups name group?) :=
  (Function.forall_update_iff manager.groups (fun name' group? =>
    HasTopic group? ∧ ∀ t p, cursor group? t p ≤ cursor (manager.groups name') t p)).mpr
    ⟨⟨htopic, hcursor⟩, fun name' _ => h.tame_refl name'⟩

/-- A group is replaced by one with its topic and cursors. -/
theorem Named.tame_same (h : manager.Named) {group group' : Group}
    (hgroup : manager.groups name = some group) (htopic : group'.topic = group.topic)
    (hoffsets : group'.offsets = group.offsets) :
    Tame manager.groups (Function.update manager.groups name (some group')) := by
  refine h.tame_update (fun g hg => ?_) (fun t p => ?_)
  · rw [← Option.some.inj hg, htopic]
    exact h name group hgroup
  · rw [hgroup, cursor, cursor, htopic, hoffsets]

theorem Named.join (h : manager.Named) (htopic : topic ≠ []) :
    Tame manager.groups (manager.join name member topic partitions).2.groups := by
  unfold ConsumerGroupManager.join
  dsimp only
  cases hgroup : manager.groups name with
  | none =>
    -- a new group has the topic and no cursors
    rw [Option.getD_none, if_pos rfl, if_neg (not_not.mpr rfl)]
    refine h.tame_update (fun g hg => ?_) (fun t p => ?_)
    · rw [← Option.some.inj hg, rebalance_topic]
      exact htopic
    · rw [cursor, rebalance_offsets, Option.getD_none, ite_self]
      exact Nat.zero_le _
  | some group =>
    rw [Option.getD_some, if_neg (h name group hgroup)]
    split
    · exact h.tame_same hgroup rfl rfl
    · exact h.tame_same hgroup (rebalance_topic _ _) (rebalance_offsets _ _)

theorem Named.leave (h : manager.Named) :
    Tame manager.groups (manager.leave name member partitions).groups := by
  unfold ConsumerGroupManager.leave
  split
  · exact h.tame_refl
  · next group hgroup =>
    dsimp only
    split
    · -- the group is gone, and its cursors with it
      exact h.tame_update (fun _ hnone => absurd hnone (by simp)) (fun _ _ => Nat.zero_le _)
    · exact h.tame_same hgroup (rebalance_topic _ _) (rebalance_offsets _ _)

theorem Named.refreshTopic (h : manager.Named) :
    Tame manager.groups (manager.refreshTopic topic partitions).groups := by
  intro name
  unfold ConsumerGroupManager.refreshTopic
  dsimp only
  cases hgroup : manager.groups name with
  | none => exact ⟨fun _ hnone => absurd hnone (by simp), fun _ _ => le_rfl⟩
  | some group =>
    rw [Option.map_some]
    refine ⟨fun g hg => ?_, fun t p => ?_⟩
    · rw [← Option.some.inj hg]
      split
      · rw [rebalance_topic]
        exact h name group hgroup
      · exact h name group hgroup
    · split
      · rw [cursor, cursor, rebalance_topic, rebalance_offsets]
      · exact le_rfl

/-- **A commit** that has an effect sets one cursor: to what it was, or to the offset after
    the one it names. -/
theorem commit_cases (manager : ConsumerGroupManager) (name member topic : Bytes)
    (partition : Int) (offset : Nat) :
    (manager.commit name member topic partition offset).2 = manager ∨
      ∃ group next, manager.groups name = some group ∧ group.topic = topic ∧
        (next = (group.offsets partition).getD 0 ∨ next = (offset + 1) % 2 ^ 64) ∧
        (manager.commit name member topic partition offset).2.groups =
          Function.update manager.groups name (some
            { group with offsets := Function.update group.offsets partition (some next) }) := by
  unfold commit
  split
  · exact .inl rfl
  next group hgroup =>
  split
  · exact .inl rfl
  next htopic =>
  split
  · exact .inl rfl
  split
  · refine .inr ⟨group, _, hgroup, not_not.mp htopic, ?_, rfl⟩
    rcases max_choice ((group.offsets partition).getD 0) ((offset + 1) % 2 ^ 64) with hmax | hmax
    · exact .inl hmax
    · exact .inr hmax
  · exact .inl rfl

theorem Named.commit (h : manager.Named) {partition : Int} {offset : Nat} :
    (manager.commit name member topic partition offset).2.Named := by
  rcases commit_cases manager name member topic partition offset with
    heq | ⟨group, next, hgroup, -, -, heq⟩
  · rw [heq]
    exact h
  · unfold Named
    rw [heq]
    refine (Function.forall_update_iff manager.groups (fun _ => HasTopic)).mpr
      ⟨fun g hg => ?_, fun name' _ => h name'⟩
    rw [← Option.some.inj hg]
    exact h name group hgroup

/-- A commit moves one cursor at most, and not beyond the offset that it names. -/
theorem nextOffset_commit_le (manager : ConsumerGroupManager) (name member topic : Bytes)
    (partition : Int) (offset : Nat) (g t : Bytes) (p : Int) :
    (manager.commit name member topic partition offset).2.nextOffset g t p
        ≤ manager.nextOffset g t p ∨
      (g = name ∧ t = topic ∧ p = partition ∧
        (manager.commit name member topic partition offset).2.nextOffset g t p ≤ offset + 1) := by
  rcases commit_cases manager name member topic partition offset with
    heq | ⟨group, next, hgroup, rfl, hnext, heq⟩
  · rw [heq]
    exact .inl le_rfl
  rw [nextOffset_eq, nextOffset_eq, heq]
  by_cases hname : g = name
  · subst hname
    rw [Function.update_self, hgroup, cursor, cursor]
    by_cases ht : group.topic ≠ t
    · rw [if_pos ht]
      exact .inl (Nat.zero_le _)
    · rw [if_neg ht, if_neg ht]
      dsimp only
      by_cases hp : p = partition
      · subst hp
        rw [Function.update_self, Option.getD_some]
        rcases hnext with rfl | rfl
        · exact .inl le_rfl
        · exact .inr ⟨rfl, (not_not.mp ht).symm, rfl, Nat.mod_le _ _⟩
      · rw [Function.update_of_ne hp]
        exact .inl le_rfl
  · rw [Function.update_of_ne hname]
    exact .inl le_rfl

end Cursors

end ConsumerGroupManager

end StreamingPlatform
