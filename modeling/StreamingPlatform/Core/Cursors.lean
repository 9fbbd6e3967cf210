import StreamingPlatform.Core.Assignment
import Mathlib.Data.List.Induction

namespace StreamingPlatform

open ByteString ConsumerGroupManager

/-!
# Core — cursors and commits

What a sequence of calls does to the cursors of a `ConsumerGroupManager`, against a ledger
of the commits that were accepted.  The cursor of a group is the offset after the highest
accepted commit (`CommitLedger.Agrees`) until one of three calls breaks that: a commit of
the largest 64-bit offset, whose successor wraps around to 0, the leave of a last member,
which deletes the cursors with the group, and a join that renames a group without a topic
(`CommitLedger.Keeps`).  The condition is exact (`nextOffset_eq_highest_iff`).
-/

/-! ### Commits -/

namespace ConsumerGroupManager

variable {manager : ConsumerGroupManager} {name topic : Bytes} {partition : Int}

/-- **The result of a commit**: what `is_assigned` says. -/
theorem commit_eq (manager : ConsumerGroupManager) (name member topic : Bytes) (partition : Int)
    (offset : Nat) :
    ((manager.commit name member topic partition offset).1 = false ∧
        manager.isAssigned name member topic partition = false ∧
        (manager.commit name member topic partition offset).2 = manager) ∨
      ∃ group, manager.groups name = some group ∧ group.topic = topic ∧
        manager.isAssigned name member topic partition = true ∧
        manager.commit name member topic partition offset =
          (true, ⟨Function.update manager.groups name (some { group with
            offsets := Function.update group.offsets partition
              (some (max ((group.offsets partition).getD 0) ((offset + 1) % 2 ^ 64))) })⟩) := by
  unfold commit isAssigned
  cases manager.groups name with
  | none => exact .inl ⟨rfl, rfl, rfl⟩
  | some group =>
    dsimp only
    split
    · exact .inl ⟨rfl, rfl, rfl⟩
    next htopic =>
    cases group.assignments member with
    | none => exact .inl ⟨rfl, rfl, rfl⟩
    | some assigned =>
      dsimp only
      split
      · next hassigned => exact .inr ⟨group, rfl, not_not.mp htopic, hassigned, rfl⟩
      · next hassigned => exact .inl ⟨rfl, by simpa using hassigned, rfl⟩

/-- An accepted commit raises one cursor, to the successor of its offset in 64 bits. -/
theorem nextOffset_accepted {group : Group}
    (hgroup : manager.groups name = some group) (htopic : group.topic = topic) (next : Nat)
    (g t : Bytes) (p : Int) :
    nextOffset ⟨Function.update manager.groups name (some { group with
        offsets := Function.update group.offsets partition
          (some (max ((group.offsets partition).getD 0) next)) })⟩ g t p =
      if name = g ∧ topic = t ∧ partition = p then max next (manager.nextOffset g t p)
      else manager.nextOffset g t p := by
  rw [nextOffset_eq, nextOffset_eq]
  dsimp only
  rw [Function.update_apply]
  by_cases hg : g = name
  · subst hg
    rw [if_pos rfl, hgroup, cursor, cursor]
    dsimp only
    by_cases ht : group.topic ≠ t
    · rw [if_pos ht, if_pos ht, if_neg (fun hall => ht (htopic.trans hall.2.1))]
    · rw [if_neg ht, if_neg ht, Function.update_apply]
      by_cases hp : p = partition
      · subst hp
        rw [if_pos rfl, if_pos ⟨rfl, htopic.symm.trans (not_not.mp ht), rfl⟩, Option.getD_some,
          max_comm]
      · rw [if_neg hp, if_neg (fun hall => hp hall.2.2.symm)]
  · rw [if_neg hg, if_neg (fun hall => hg hall.1.symm)]

end ConsumerGroupManager

/-! ### Calls and accepted commits -/

/-- A call of the manager; an offset is a `uint64_t`. -/
inductive GroupCall where
  | join (groupName member topic : Bytes) (partitions : List Int)
  | leave (groupName member : Bytes) (partitions : List Int)
  | refreshTopic (topic : Bytes) (partitions : List Int)
  | commit (groupName member topic : Bytes) (partition : Int) (offset : UInt64)

/-- A commit that the manager accepted. -/
structure AcceptedCommit where
  groupName : Bytes
  topic : Bytes
  partition : Int
  offset : Nat

/-- A manager and the commits for which it has returned `true`, the latest first. -/
structure CommitLedger where
  manager : ConsumerGroupManager := {}
  commits : List AcceptedCommit := []

namespace CommitLedger

/-- One call. -/
def step (s : CommitLedger) : GroupCall → CommitLedger
  | .join groupName member topic partitions =>
    { s with manager := (s.manager.join groupName member topic partitions).2 }
  | .leave groupName member partitions =>
    { s with manager := s.manager.leave groupName member partitions }
  | .refreshTopic topic partitions =>
    { s with manager := s.manager.refreshTopic topic partitions }
  | .commit groupName member topic partition offset =>
    let result := s.manager.commit groupName member topic partition offset.toNat
    { manager := result.2
      commits :=
        if result.1 then ⟨groupName, topic, partition, offset.toNat⟩ :: s.commits
        else s.commits }

/-- The state after a sequence of calls on a new manager. -/
def after (calls : List GroupCall) : CommitLedger := calls.foldl step {}

theorem after_concat (calls : List GroupCall) (call : GroupCall) :
    after (calls ++ [call]) = (after calls).step call := by
  rw [after, List.foldl_append]
  rfl

/-- The largest `offset + 1` of the commits of a cursor, 0 if there are none. -/
def highest (commits : List AcceptedCommit) (groupName topic : Bytes) (partition : Int) : Nat :=
  ((commits.filter (fun c =>
    c.groupName = groupName ∧ c.topic = topic ∧ c.partition = partition)).map
      (fun c => c.offset + 1)).foldr max 0

/-- Every cursor is the offset after the highest accepted commit. -/
def Agrees (s : CommitLedger) : Prop :=
  ∀ groupName topic partition,
    s.manager.nextOffset groupName topic partition
      = highest s.commits groupName topic partition

/-- No commit of the group has been accepted so far. -/
def Unused (s : CommitLedger) (groupName : Bytes) : Prop :=
  ∀ c ∈ s.commits, c.groupName ≠ groupName

/-- The calls that keep the cursors: a group that is given a topic late, and one that loses
    its last member, has had no commits; an accepted commit has an offset after it. -/
def Keeps (s : CommitLedger) : GroupCall → Prop
  | .join groupName _ topic _ => ∀ group, s.manager.groups groupName = some group →
      group.topic = [] → topic ≠ [] → s.Unused groupName
  | .leave groupName member _ => ∀ group, s.manager.groups groupName = some group →
      group.members.erase member = [] → s.Unused groupName
  | .refreshTopic _ _ => True
  | .commit groupName member topic partition offset =>
      s.manager.isAssigned groupName member topic partition = true → offset.toNat + 1 < 2 ^ 64

/-! ### The ledger -/

variable {s : CommitLedger} {name topic : Bytes} {partition : Int}

/-- One more commit raises the maximum of its own cursor. -/
theorem highest_cons (c : AcceptedCommit) (commits : List AcceptedCommit) (name topic : Bytes)
    (partition : Int) :
    highest (c :: commits) name topic partition =
      if c.groupName = name ∧ c.topic = topic ∧ c.partition = partition then
        max (c.offset + 1) (highest commits name topic partition)
      else highest commits name topic partition := by
  unfold highest
  by_cases hc : c.groupName = name ∧ c.topic = topic ∧ c.partition = partition
  · rw [List.filter_cons_of_pos (by simpa using hc), if_pos hc]
    rfl
  · rw [List.filter_cons_of_neg (by simpa using hc), if_neg hc]

/-- The maximum is above every commit of the cursor. -/
theorem lt_highest {c : AcceptedCommit} {commits : List AcceptedCommit} (hc : c ∈ commits) :
    c.offset < highest commits c.groupName c.topic c.partition := by
  induction commits with
  | nil => exact absurd hc (by simp)
  | cons first commits ih =>
    rw [highest_cons]
    rcases List.mem_cons.mp hc with rfl | hrest
    · rw [if_pos ⟨rfl, rfl, rfl⟩]
      exact Nat.le_max_left _ _
    · have hlt := ih hrest
      split
      · exact hlt.trans_le (Nat.le_max_right _ _)
      · exact hlt

/-- Nothing was committed in a group that was never used. -/
theorem Unused.highest_eq (h : s.Unused name) : highest s.commits name topic partition = 0 := by
  unfold highest
  rw [List.filter_eq_nil_iff.mpr]
  · rfl
  · intro c hc hsame
    exact h c hc (by simpa using (of_decide_eq_true hsame).1)

/-- An accepted commit of a group that agrees with the ledger shows in its cursor. -/
theorem Agrees.nextOffset_pos (h : s.Agrees) {c : AcceptedCommit} (hc : c ∈ s.commits) :
    0 < s.manager.nextOffset c.groupName c.topic c.partition := by
  rw [h]
  exact (Nat.zero_le _).trans_lt (lt_highest hc)

/-- An accepted commit of a group is one of its present topic. -/
theorem Agrees.topic_eq (h : s.Agrees) {c : AcceptedCommit} (hc : c ∈ s.commits) {group : Group}
    (hgroup : s.manager.groups c.groupName = some group) : group.topic = c.topic := by
  by_contra hne
  have hpos := h.nextOffset_pos hc
  rw [nextOffset_eq, hgroup, cursor, if_pos hne] at hpos
  exact Nat.lt_irrefl 0 hpos

/-! ### Each call -/

/-- One group is replaced, with the cursors that the old one had. -/
theorem Agrees.update (h : s.Agrees) {manager' : ConsumerGroupManager} {group? : Option Group}
    (hgroups : manager'.groups = Function.update s.manager.groups name group?)
    (hcursor : ∀ t p, cursor group? t p = cursor (s.manager.groups name) t p) :
    Agrees { s with manager := manager' } := by
  intro g t p
  show cursor (manager'.groups g) t p = highest s.commits g t p
  rw [hgroups, ← h g t p, nextOffset_eq, Function.update_apply]
  split
  · next hname => rw [hname, hcursor]
  · rfl

/-- Joining keeps the agreement unless a group with commits is given its topic late. -/
theorem Agrees.join_iff (h : s.Agrees) (name member topic : Bytes) (partitions : List Int) :
    (s.step (.join name member topic partitions)).Agrees
      ↔ s.Keeps (.join name member topic partitions) := by
  constructor
  · -- a commit under the empty topic is out of sight once the group has another one
    intro h' group hgroup hempty htopic c hc hname
    subst hname
    have htopic' := h.topic_eq hc hgroup
    have hpos := Agrees.nextOffset_pos h' (c := c) hc
    rw [step, nextOffset_eq, join, hgroup] at hpos
    simp only [Option.getD_some, if_pos hempty, ne_eq, not_true_eq_false, if_false] at hpos
    rw [Function.update_self, cursor, rebalance_topic, if_pos (htopic' ▸ hempty ▸ htopic)] at hpos
    exact Nat.lt_irrefl 0 hpos
  · intro hkeeps
    rcases join_cases s.manager name member topic partitions with heq | ⟨group, hgroup, htopic, heq⟩
    · rw [step, heq]
      exact h
    · refine h.update heq (fun t p => ?_)
      rw [cursor, rebalance_topic, rebalance_offsets]
      dsimp only
      cases hfound : s.manager.groups name with
      | none =>
        rw [hfound] at hgroup
        rw [hgroup]
        exact ite_self 0
      | some old =>
        obtain rfl : group = old := by rw [hgroup, hfound]; rfl
        rw [cursor]
        by_cases hsame : group.topic = topic
        · rw [hsame]
        · -- the group had no topic, and no commits
          have hempty := htopic.resolve_right hsame
          have hunused := hkeeps group hfound hempty (hempty ▸ Ne.symm hsame)
          have hzero : (group.offsets p).getD 0 = 0 := by
            have hnext := (h name [] p).trans hunused.highest_eq
            rw [nextOffset_eq, hfound, cursor, if_neg (not_not.mpr hempty)] at hnext
            exact hnext
          rw [hzero, ite_self, ite_self]

/-- Leaving keeps it unless a group with commits is dropped. -/
theorem Agrees.leave_iff (h : s.Agrees) (name member : Bytes) (partitions : List Int) :
    (s.step (.leave name member partitions)).Agrees
      ↔ s.Keeps (.leave name member partitions) := by
  constructor
  · -- the cursor of a deleted group is 0
    intro h' group hgroup hlast c hc hname
    subst hname
    have hpos := Agrees.nextOffset_pos h' (c := c) hc
    rw [step, nextOffset_eq, leave, hgroup] at hpos
    dsimp only at hpos
    rw [if_pos hlast] at hpos
    dsimp only at hpos
    rw [Function.update_self] at hpos
    exact Nat.lt_irrefl 0 hpos
  · intro hkeeps
    show Agrees { s with manager := s.manager.leave name member partitions }
    unfold leave
    cases hgroup : s.manager.groups name with
    | none => exact h
    | some group =>
      dsimp only
      split
      · next hlast =>
        refine h.update rfl (fun t p => ?_)
        have hunused := hkeeps group hgroup hlast
        exact ((h name t p).trans hunused.highest_eq).symm
      · refine h.update rfl (fun t p => ?_)
        rw [hgroup, cursor, cursor, rebalance_topic, rebalance_offsets]

theorem Agrees.refreshTopic (h : s.Agrees) (topic : Bytes) (partitions : List Int) :
    (s.step (.refreshTopic topic partitions)).Agrees := by
  intro g t p
  refine Eq.trans ?_ (h g t p)
  rw [nextOffset_eq, nextOffset_eq]
  show cursor ((s.manager.groups g).map _) t p = _
  cases s.manager.groups g with
  | none => rfl
  | some group =>
    rw [Option.map_some]
    split
    · rw [cursor, cursor, rebalance_topic, rebalance_offsets]
    · rfl

/-- A commit keeps it unless the cursor wraps around. -/
theorem Agrees.commit_iff (h : s.Agrees) (hfits : s.manager.CursorsFit) (name member topic : Bytes)
    (partition : Int) (offset : UInt64) :
    (s.step (.commit name member topic partition offset)).Agrees
      ↔ s.Keeps (.commit name member topic partition offset) := by
  rcases commit_eq s.manager name member topic partition offset.toNat with
    ⟨hfalse, hnot, hsame⟩ | ⟨group, hgroup, htopic, hassigned, heq⟩
  · -- a commit that is refused changes nothing
    have hstep : s.step (.commit name member topic partition offset) = s := by
      simp only [step, hfalse, hsame, Bool.false_eq_true, if_false]
    rw [hstep]
    refine ⟨fun _ hyes => ?_, fun _ => h⟩
    rw [hnot] at hyes
    exact absurd hyes (by decide)
  · -- an accepted one raises cursor and maximum alike, unless its successor wraps around
    simp only [step, heq, if_true, Agrees, nextOffset_accepted hgroup htopic, highest_cons]
    constructor
    · intro h' _
      have hnext := h' name topic partition
      rw [if_pos ⟨rfl, rfl, rfl⟩, if_pos ⟨rfl, rfl, rfl⟩] at hnext
      have hlt := hfits.nextOffset_lt name topic partition
      have hmod := Nat.mod_lt (offset.toNat + 1) (Nat.two_pow_pos 64)
      omega
    · intro hkeeps g t p
      rw [Nat.mod_eq_of_lt (hkeeps hassigned), h g t p]

/-! ### Sequences of calls -/

/-- **One call** keeps the agreement just when it meets the condition. -/
theorem Agrees.step_iff (h : s.Agrees) (hfits : s.manager.CursorsFit) (call : GroupCall) :
    (s.step call).Agrees ↔ s.Keeps call := by
  cases call with
  | join name member topic partitions => exact h.join_iff name member topic partitions
  | leave name member partitions => exact h.leave_iff name member partitions
  | refreshTopic topic partitions => exact iff_of_true (h.refreshTopic topic partitions) trivial
  | commit name member topic partition offset =>
    exact h.commit_iff hfits name member topic partition offset

theorem cursorsFit_step (hfits : s.manager.CursorsFit) (call : GroupCall) :
    (s.step call).manager.CursorsFit := by
  cases call with
  | join => exact hfits.join
  | leave => exact hfits.leave
  | refreshTopic => exact hfits.refreshTopic
  | commit => exact hfits.commit

theorem cursorsFit_after (calls : List GroupCall) : (after calls).manager.CursorsFit := by
  induction calls using List.reverseRecOn with
  | nil => exact fun name group hgroup => absurd hgroup (by simp [after])
  | append_singleton calls call ih =>
    rw [after_concat]
    exact cursorsFit_step ih call

/-- **Cursors are the maxima of what was committed** all along a sequence of calls exactly
    when each call meets the condition in the state that it finds. -/
theorem nextOffset_eq_highest_iff (calls : List GroupCall) :
    (∀ done, done <+: calls → ∀ groupName topic partition,
      (after done).manager.nextOffset groupName topic partition
        = highest (after done).commits groupName topic partition)
      ↔ ∀ done call, done ++ [call] <+: calls → (after done).Keeps call := by
  induction calls using List.reverseRecOn with
  | nil =>
    refine iff_of_true (fun done hdone => ?_) (fun done call hdone => ?_)
    · rw [List.prefix_nil.mp hdone]
      exact fun _ _ _ => rfl
    · exact absurd (List.prefix_nil.mp hdone) (by simp)
  | append_singleton calls last ih =>
    constructor
    · intro hagrees done call hdone
      rcases List.prefix_concat_iff.mp hdone with heq | hbefore
      · -- the last call: the agreement holds before and after it
        obtain ⟨rfl, hlast⟩ := List.append_inj' heq rfl
        obtain rfl := List.singleton_injective hlast
        have hbefore : (after done).Agrees := hagrees done (List.prefix_append _ _)
        have hafter := hagrees (done ++ [call]) (List.prefix_refl _)
        rw [after_concat] at hafter
        exact (hbefore.step_iff (cursorsFit_after done) call).mp hafter
      · refine ih.mp (fun done' hdone' => ?_) done call hbefore
        exact hagrees done' (hdone'.trans (List.prefix_append _ _))
    · intro hkeeps done hdone
      have hcalls := ih.mpr (fun done' call' hdone' =>
        hkeeps done' call' (hdone'.trans (List.prefix_append _ _)))
      rcases List.prefix_concat_iff.mp hdone with rfl | hbefore
      · have hagrees : (after calls).Agrees := hcalls calls (List.prefix_refl _)
        rw [after_concat]
        exact (hagrees.step_iff (cursorsFit_after calls) last).mpr
          (hkeeps calls last (List.prefix_refl _))
      · exact hcalls done hbefore

/-- The only member of a group commits offset 4, leaves and joins again: the cursor is at 0.
    It commits the largest offset: the commit is accepted, and the cursor stays at 0. -/
theorem nextOffset_ne_highest :
    let joined : GroupCall := .join [103] [109] [116] [0]
    let rejoined := after [joined, .commit [103] [109] [116] 0 4, .leave [103] [109] [0], joined]
    let wrapped := after [joined, .commit [103] [109] [116] 0 18446744073709551615]
    (rejoined.manager.nextOffset [103] [116] 0 = 0 ∧ highest rejoined.commits [103] [116] 0 = 5) ∧
      wrapped.manager.nextOffset [103] [116] 0 = 0 ∧
      highest wrapped.commits [103] [116] 0 = 2 ^ 64 := by
  decide +kernel

end CommitLedger

end StreamingPlatform
