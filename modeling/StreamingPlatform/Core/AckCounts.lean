import StreamingPlatform.Core.Replication
import Mathlib.Data.Finset.Card

namespace StreamingPlatform

open ByteString

/-!
# Core — counting acknowledgements

The replication manager keeps, for every key, the set of brokers that have acknowledged it
and their number, and compares the number with a threshold that it computes from the length
of the peer list.  `Counted` says that number and set agree and that the set consists of
members; together with a peer list without repetitions this makes `quorumReached` a
statement about majorities (`quorumReached_iff`).  `handleAcks_order_free` says that the order
of the acknowledgements and repetitions among them make no difference.

Nothing in the manager ensures either.  Number and set are updated separately, and an
acknowledgement is counted whoever it names.
-/

namespace BrokerConfig

/-- The ids of the broker and of its peers. -/
def memberIds (config : BrokerConfig) : Finset Int :=
  insert config.brokerId (config.peers.map ClusterPeer.brokerId).toFinset

/-- No id is listed twice, and the broker does not list itself. -/
def DistinctPeers (config : BrokerConfig) : Prop :=
  (config.brokerId :: config.peers.map ClusterPeer.brokerId).Nodup

instance (config : BrokerConfig) : Decidable config.DistinctPeers :=
  inferInstanceAs (Decidable (List.Nodup _))

theorem DistinctPeers.card_memberIds {config : BrokerConfig} (h : config.DistinctPeers) :
    config.memberIds.card = 1 + config.peers.length := by
  have hcard := List.toFinset_card_of_nodup h
  rw [List.toFinset_cons, List.length_cons, List.length_map, Nat.add_comm] at hcard
  exact hcard

/-- The threshold is the least number that is more than half of the members. -/
theorem DistinctPeers.quorum_le_iff {config : BrokerConfig} (h : config.DistinctPeers)
    (count : Nat) :
    ReplicationManager.quorum config ≤ count ↔ config.memberIds.card < 2 * count := by
  rw [h.card_memberIds, ReplicationManager.quorum]
  omega

end BrokerConfig

namespace ReplicationManager

variable {manager : ReplicationManager} {config : BrokerConfig} {topic : Bytes} {partition : Int}
  {offset : Nat}

/-- The brokers that have acknowledged a key. -/
def acked (manager : ReplicationManager) (key : Bytes) : Finset Int :=
  (manager.ackFollowers key).toFinset

/-- The count of every key is the number of brokers that have acknowledged it, and these
    are members. -/
structure Counted (manager : ReplicationManager) (config : BrokerConfig) : Prop where
  count : ∀ key, (manager.ackCounts key).getD 0 = (manager.acked key).card
  members : ∀ key, manager.acked key ⊆ config.memberIds

/-- At the start nothing is counted. -/
theorem counted_construct (config config' : BrokerConfig) (now : Nat) :
    (construct config now).Counted config' :=
  ⟨fun _ => rfl, fun _ => Finset.empty_subset _⟩

/-- Only counts and followers matter. -/
theorem Counted.congr {manager' : ReplicationManager} (h : manager.Counted config)
    (hcounts : manager'.ackCounts = manager.ackCounts)
    (hfollowers : manager'.ackFollowers = manager.ackFollowers) : manager'.Counted config := by
  have hacked : ∀ key, manager'.acked key = manager.acked key := by
    intro key
    rw [acked, hfollowers]
    rfl
  refine ⟨fun key => ?_, fun key => ?_⟩
  · rw [hcounts, hacked]
    exact h.count key
  · rw [hacked]
    exact h.members key

/-- One more broker under one key. -/
theorem acked_of_insert {manager' : ReplicationManager} {key : Bytes} {id : Int}
    (h : manager'.ackFollowers = Function.update manager.ackFollowers key
      ((manager.ackFollowers key).insert id)) (key' : Bytes) :
    manager'.acked key'
      = if key' = key then insert id (manager.acked key') else manager.acked key' := by
  rw [acked, h]
  by_cases hkey : key' = key
  · subst hkey
    rw [if_pos rfl, Function.update_self]
    ext id'
    rw [List.mem_toFinset, List.mem_insert_iff, Finset.mem_insert, acked, List.mem_toFinset]
  · rw [if_neg hkey, Function.update_of_ne hkey]
    rfl

theorem ackFollowers_openAcks (manager : ReplicationManager) (config : BrokerConfig)
    (topic : Bytes) (partition : Int) (offset : Nat) :
    (manager.openAcks config topic partition offset).ackFollowers
      = Function.update manager.ackFollowers (makeAckKey topic partition offset)
        ((manager.ackFollowers (makeAckKey topic partition offset)).insert config.brokerId) := rfl

/-- **Opening a key** sets its count to one, which is right if nobody else has acknowledged
    it yet. -/
theorem Counted.openAcks (h : manager.Counted config)
    (hfresh : manager.acked (makeAckKey topic partition offset) ⊆ {config.brokerId}) :
    (manager.openAcks config topic partition offset).Counted config := by
  have hacked := acked_of_insert (ackFollowers_openAcks manager config topic partition offset)
  refine ⟨fun key => ?_, fun key => ?_⟩
  · rw [hacked]
    by_cases hkey : key = makeAckKey topic partition offset
    · subst hkey
      have hself : insert config.brokerId (manager.acked (makeAckKey topic partition offset))
          = {config.brokerId} := by
        rw [Finset.insert_eq, Finset.union_eq_left]
        exact hfresh
      rw [if_pos rfl, hself, Finset.card_singleton]
      show (Function.update manager.ackCounts _ (some 1) _).getD 0 = 1
      rw [Function.update_self]
      rfl
    · rw [if_neg hkey, ← h.count key]
      show (Function.update manager.ackCounts _ (some 1) key).getD 0 = _
      rw [Function.update_of_ne hkey]
  · rw [hacked]
    split
    · exact Finset.insert_subset (Finset.mem_insert_self _ _) (h.members key)
    · exact h.members key

/-- A second acknowledgement of one follower changes nothing. -/
theorem handleAck_of_mem {followerId : Int}
    (h : followerId ∈ manager.ackFollowers (makeAckKey topic partition offset)) :
    manager.handleAck followerId topic partition offset = manager := if_pos h

theorem ackFollowers_handleAck {followerId : Int}
    (h : followerId ∉ manager.ackFollowers (makeAckKey topic partition offset)) :
    (manager.handleAck followerId topic partition offset).ackFollowers
      = Function.update manager.ackFollowers (makeAckKey topic partition offset)
        ((manager.ackFollowers (makeAckKey topic partition offset)).insert followerId) :=
  congrArg ackFollowers (if_neg h)

theorem ackCounts_handleAck {followerId : Int}
    (h : followerId ∉ manager.ackFollowers (makeAckKey topic partition offset)) :
    (manager.handleAck followerId topic partition offset).ackCounts
      = Function.update manager.ackCounts (makeAckKey topic partition offset)
        (some ((manager.ackCounts (makeAckKey topic partition offset)).getD 0 + 1)) :=
  congrArg ackCounts (if_neg h)

/-- **An acknowledgement** by a member. -/
theorem Counted.handleAck (h : manager.Counted config) {followerId : Int}
    (hmember : followerId ∈ config.memberIds) :
    (manager.handleAck followerId topic partition offset).Counted config := by
  by_cases hold : followerId ∈ manager.ackFollowers (makeAckKey topic partition offset)
  · rw [handleAck_of_mem hold]
    exact h
  have hacked := acked_of_insert (ackFollowers_handleAck hold)
  refine ⟨fun key => ?_, fun key => ?_⟩
  · rw [hacked, ackCounts_handleAck hold]
    by_cases hkey : key = makeAckKey topic partition offset
    · subst hkey
      have hnotin : followerId ∉ manager.acked (makeAckKey topic partition offset) := by
        rw [acked, List.mem_toFinset]
        exact hold
      rw [Function.update_self, if_pos rfl, Finset.card_insert_of_notMem hnotin, ← h.count]
      rfl
    · rw [Function.update_of_ne hkey, if_neg hkey]
      exact h.count key
  · rw [hacked]
    split
    · exact Finset.insert_subset hmember (h.members key)
    · exact h.members key

/-- **Quorums are majorities.** -/
theorem Counted.quorumReached_iff (h : manager.Counted config) (hconfig : config.DistinctPeers) :
    manager.quorumReached config topic partition offset = true ↔
      config.memberIds.card
        < 2 * (config.memberIds ∩ manager.acked (makeAckKey topic partition offset)).card := by
  have hcount := h.count (makeAckKey topic partition offset)
  rw [Finset.inter_eq_right.mpr (h.members _), ← hcount, quorumReached]
  cases manager.ackCounts (makeAckKey topic partition offset) with
  | none =>
    rw [Option.getD_none]
    simp
  | some count =>
    rw [decide_eq_true_eq, hconfig.quorum_le_iff]
    rfl

/-! ### Order and repetition

A list of acknowledgements adds, under each key, the brokers that it names there and that had
not acknowledged before (`newcomers`).  These depend on which calls the list contains, and on
nothing else. -/

/-- The arguments of a call of `handle_ack`. -/
structure AckCall where
  followerId : Int
  topic : Bytes
  partition : Int
  offset : Nat
  deriving DecidableEq, Repr

/-- The key that the call is counted under. -/
def AckCall.key (call : AckCall) : Bytes := makeAckKey call.topic call.partition call.offset

/-- One call of `handle_ack`. -/
def handleAckCall (manager : ReplicationManager) (call : AckCall) : ReplicationManager :=
  manager.handleAck call.followerId call.topic call.partition call.offset

/-- Calls of `handle_ack`, one after the other. -/
def handleAcks (manager : ReplicationManager) (calls : List AckCall) : ReplicationManager :=
  calls.foldl handleAckCall manager

/-- The brokers that the calls name under a key and that have not acknowledged it yet. -/
def newcomers (manager : ReplicationManager) (calls : List AckCall) (key : Bytes) : Finset Int :=
  ((calls.filter (fun call => call.key = key)).map AckCall.followerId).toFinset \ manager.acked key

/-- Newcomers have acknowledged for the first time. -/
theorem mem_newcomers {calls : List AckCall} {key : Bytes} {id : Int} :
    id ∈ manager.newcomers calls key ↔
      (∃ call ∈ calls, call.key = key ∧ call.followerId = id) ∧ id ∉ manager.acked key := by
  unfold newcomers
  rw [Finset.mem_sdiff, List.mem_toFinset, List.mem_map]
  simp only [List.mem_filter, decide_eq_true_eq, and_assoc]

/-- The newcomers depend on which calls there are, not on their order or number. -/
theorem newcomers_congr {calls calls' : List AckCall} (h : ∀ call, call ∈ calls ↔ call ∈ calls')
    (key : Bytes) : manager.newcomers calls key = manager.newcomers calls' key := by
  ext id
  simp only [mem_newcomers, h]

/-- **One call.** -/
theorem acked_handleAckCall (manager : ReplicationManager) (call : AckCall) (key : Bytes) :
    (manager.handleAckCall call).acked key
      = if key = call.key then insert call.followerId (manager.acked key)
        else manager.acked key := by
  unfold handleAckCall
  by_cases hold : call.followerId ∈ manager.ackFollowers call.key
  · -- the broker is in the set already
    rw [handleAck_of_mem hold]
    split
    · next hkey =>
      subst hkey
      exact (Finset.insert_eq_of_mem (List.mem_toFinset.mpr hold)).symm
    · rfl
  · exact acked_of_insert (ackFollowers_handleAck hold) key

theorem ackCounts_handleAckCall (manager : ReplicationManager) (call : AckCall) (key : Bytes) :
    (manager.handleAckCall call).ackCounts key
      = if key = call.key ∧ call.followerId ∉ manager.acked key
        then some ((manager.ackCounts key).getD 0 + 1) else manager.ackCounts key := by
  unfold handleAckCall
  by_cases hold : call.followerId ∈ manager.ackFollowers call.key
  · rw [handleAck_of_mem hold, if_neg]
    rintro ⟨rfl, hnew⟩
    exact hnew (List.mem_toFinset.mpr hold)
  · rw [ackCounts_handleAck hold]
    by_cases hkey : key = call.key
    · subst hkey
      rw [if_pos ⟨rfl, fun hmem => hold (List.mem_toFinset.mp hmem)⟩]
      exact Function.update_self ..
    · rw [if_neg (fun h => hkey h.1)]
      exact Function.update_of_ne hkey ..

/-- The newcomers of a list, with the first call taken off. -/
theorem newcomers_cons (manager : ReplicationManager) (call : AckCall) (calls : List AckCall)
    (key : Bytes) :
    manager.newcomers (call :: calls) key
      = if key = call.key ∧ call.followerId ∉ manager.acked key
        then insert call.followerId ((manager.handleAckCall call).newcomers calls key)
        else (manager.handleAckCall call).newcomers calls key := by
  ext id
  rw [mem_newcomers]
  simp only [List.mem_cons, exists_eq_or_imp]
  split
  · next hnew =>
    obtain ⟨rfl, hnew⟩ := hnew
    rw [Finset.mem_insert, mem_newcomers, acked_handleAckCall, if_pos rfl, Finset.mem_insert]
    by_cases hid : id = call.followerId
    · subst hid
      simp [hnew]
    · simp [hid, Ne.symm hid]
  · next hnot =>
    rw [mem_newcomers, acked_handleAckCall]
    by_cases hkey : key = call.key
    · -- the broker had acknowledged before, so it is no newcomer
      subst hkey
      have hold : call.followerId ∈ manager.acked call.key := by
        by_contra hnew
        exact hnot ⟨rfl, hnew⟩
      rw [if_pos rfl, Finset.insert_eq_of_mem hold]
      constructor
      · rintro ⟨⟨-, rfl⟩ | hcall, hid⟩
        · exact absurd hold hid
        · exact ⟨hcall, hid⟩
      · rintro ⟨hcall, hid⟩
        exact ⟨.inr hcall, hid⟩
    · rw [if_neg hkey]
      simp [Ne.symm hkey]

/-- **A list of calls** adds the newcomers to the sets. -/
theorem acked_handleAcks (manager : ReplicationManager) (calls : List AckCall) (key : Bytes) :
    (manager.handleAcks calls).acked key
      = manager.acked key ∪ manager.newcomers calls key := by
  induction calls generalizing manager with
  | nil => simp [handleAcks, newcomers]
  | cons call calls ih =>
    show ((manager.handleAckCall call).handleAcks calls).acked key = _
    rw [ih, newcomers_cons, acked_handleAckCall]
    by_cases hkey : key = call.key
    · by_cases hnew : call.followerId ∈ manager.acked key
      · rw [if_pos hkey, if_neg (fun h => h.2 hnew), Finset.insert_eq_of_mem hnew]
      · rw [if_pos hkey, if_pos ⟨hkey, hnew⟩, Finset.insert_union, Finset.union_insert]
    · rw [if_neg hkey, if_neg (fun h => hkey h.1)]

/-- It adds their number to the counts. -/
theorem ackCounts_handleAcks (manager : ReplicationManager) (calls : List AckCall) (key : Bytes) :
    (manager.handleAcks calls).ackCounts key
      = if manager.newcomers calls key = ∅ then manager.ackCounts key
        else some ((manager.ackCounts key).getD 0 + (manager.newcomers calls key).card) := by
  induction calls generalizing manager with
  | nil => simp [handleAcks, newcomers]
  | cons call calls ih =>
    show ((manager.handleAckCall call).handleAcks calls).ackCounts key = _
    rw [ih, newcomers_cons, ackCounts_handleAckCall]
    by_cases hnew : key = call.key ∧ call.followerId ∉ manager.acked key
    · rw [if_pos hnew, if_pos hnew, if_neg (Finset.insert_ne_empty _ _)]
      have hfirst : call.followerId ∉ (manager.handleAckCall call).newcomers calls key := by
        rw [mem_newcomers, acked_handleAckCall, if_pos hnew.1]
        exact fun h => h.2 (Finset.mem_insert_self _ _)
      rw [Finset.card_insert_of_notMem hfirst, Option.getD_some]
      split
      · next hnone => rw [hnone, Finset.card_empty]
      · congr 1
        omega
    · rw [if_neg hnew, if_neg hnew]

/-- A quorum is not lost. -/
theorem quorumReached_handleAcks_of_quorumReached (calls : List AckCall)
    (h : manager.quorumReached config topic partition offset = true) :
    (manager.handleAcks calls).quorumReached config topic partition offset = true := by
  unfold quorumReached at h ⊢
  rw [ackCounts_handleAcks]
  cases hcount : manager.ackCounts (makeAckKey topic partition offset) with
  | none =>
    rw [hcount] at h
    exact absurd h (by simp)
  | some count =>
    rw [hcount, decide_eq_true_eq] at h
    split
    · next heq =>
      split at heq
      · exact absurd heq (by simp)
      · exact absurd heq (by simp)
    · next count' heq =>
      rw [decide_eq_true_eq]
      split at heq
      · rw [← Option.some.inj heq]
        exact h
      · rw [← Option.some.inj heq, Option.getD_some]
        omega

/-- **Acknowledgements may arrive in any order and repeatedly.**  Two lists that contain the
    same calls, in whatever order and however often, leave the same counts, the same sets of
    brokers and the same answers of `quorum_reached` under every key, and no list takes a
    quorum back. -/
theorem handleAcks_order_free (manager : ReplicationManager) (config : BrokerConfig)
    (calls calls' : List AckCall) (hsame : ∀ call, call ∈ calls ↔ call ∈ calls') :
    (manager.handleAcks calls).ackCounts = (manager.handleAcks calls').ackCounts ∧
      (∀ key, (manager.handleAcks calls).acked key = (manager.handleAcks calls').acked key) ∧
      (∀ topic partition offset,
        (manager.handleAcks calls).quorumReached config topic partition offset
          = (manager.handleAcks calls').quorumReached config topic partition offset) ∧
      ∀ topic partition offset, manager.quorumReached config topic partition offset = true →
        (manager.handleAcks calls).quorumReached config topic partition offset = true := by
  have hcounts : (manager.handleAcks calls).ackCounts = (manager.handleAcks calls').ackCounts := by
    funext key
    rw [ackCounts_handleAcks, ackCounts_handleAcks, newcomers_congr hsame]
  refine ⟨hcounts, fun key => ?_, fun t p o => ?_, fun t p o h => ?_⟩
  · rw [acked_handleAcks, acked_handleAcks, newcomers_congr hsame]
  · unfold quorumReached
    rw [hcounts]
  · exact quorumReached_handleAcks_of_quorumReached calls h

/-- Two acknowledgements in three brokers, in the other order and one of them twice. -/
theorem handleAcks_order_free_repeated :
    let config : BrokerConfig := ⟨9001, 1, [], [⟨2, [], 9002⟩, ⟨3, [], 9003⟩]⟩
    let ack : Int → AckCall := fun id => ⟨id, ofString "t", 0, 5⟩
    (handleAcks {} [ack 1, ack 2]).quorumReached config (ofString "t") 0 5 = true ∧
      (handleAcks {} [ack 2, ack 1, ack 2]).quorumReached config (ofString "t") 0 5 = true := by
  intro config ack
  have hfree := handleAcks_order_free {} config [ack 1, ack 2] [ack 2, ack 1, ack 2] (by
    intro call
    simp only [List.mem_cons, List.not_mem_nil, or_false]
    constructor
    · rintro (rfl | rfl)
      · exact .inr (.inl rfl)
      · exact .inl rfl
    · rintro (rfl | rfl | rfl)
      · exact .inr rfl
      · exact .inl rfl
      · exact .inr rfl)
  have hreached :
      (handleAcks {} [ack 1, ack 2]).quorumReached config (ofString "t") 0 5 = true := by
    decide
  exact ⟨hreached, (hfree.2.2.1 (ofString "t") 0 5).symm.trans hreached⟩

end ReplicationManager

end StreamingPlatform
