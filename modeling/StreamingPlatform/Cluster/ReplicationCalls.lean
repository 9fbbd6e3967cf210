import StreamingPlatform.Cluster.Alone
import StreamingPlatform.Cluster.Runs
import StreamingPlatform.Core.AckCounts

namespace StreamingPlatform

open ByteString Interleave

/-!
# Cluster — calls on the replication manager

The calls on the replication manager of a leader hold its mutex, so they come one after
another.  As long as every acknowledgement that is counted names a member, and a record is
replicated before anybody has acknowledged it, counts and sets agree in every state that
the calls reach, and a quorum is a majority of the members (`quorum_is_majority`).

An acknowledgement that arrives too early is not counted a second time: the count starts
again at one, but the broker is already in the set (`early_ack_not_counted`).
-/

/-- A call on the replication manager. -/
inductive ReplicationCall where
  | replicateMessage (topic : Bytes) (partition : Int) (offset : Nat) (message : Bytes)
  | replicateBatch (topic : Bytes) (partition : Int) (firstOffset : Nat) (messages : List Bytes)
  | handleAck (followerId : Int) (topic : Bytes) (partition : Int) (offset : Nat)
  | markFollowerFailed (brokerId : Int)
  | handleHeartbeat (brokerId : Int)
  | broadcastHeartbeat
  deriving DecidableEq, Repr

/-- What it does. -/
def ReplicationCall.program (config : BrokerConfig) : ReplicationCall → Program Unit
  | .replicateMessage topic partition offset message => do
    let _ ← StreamingPlatform.replicateMessage config topic partition offset message
  | .replicateBatch topic partition firstOffset messages => do
    let _ ← StreamingPlatform.replicateBatch config topic partition firstOffset messages
  | .handleAck followerId topic partition offset =>
    node (.handleAck followerId topic partition offset)
  | .markFollowerFailed brokerId => node (.markFollowerFailed brokerId)
  | .handleHeartbeat brokerId => node (.handleHeartbeat brokerId)
  | .broadcastHeartbeat => StreamingPlatform.broadcastHeartbeat config

/-- An action that `G` allows. -/
def Node.guarded (G : Node → Act → Prop) (τ : Nat) (s : Node) (a : Act) (r : a.Result)
    (s' : Node) : Prop :=
  G s a ∧ s.alone τ a r s'

/-- The states that a leader reaches by calls on its replication manager all of whose
    actions `G` allows.  The network may answer anything, and time passes. -/
inductive Called (G : Node → Act → Prop) (s₀ : Node) : Node → Prop where
  | start : Called G s₀ s₀
  | call {s s' : Node} (τ : Nat) (call : ReplicationCall) :
      Called G s₀ s → s.isLeader = true →
      (call.program s.config).Runs (Node.guarded G τ) s () s' → Called G s₀ s'
  | tick {s : Node} (milliseconds : Nat) :
      Called G s₀ s → Called G s₀ { s with now := s.now + milliseconds }

/-- The key that an action opens. -/
def Act.opens? : Act → Option Bytes
  | .node (.openAcks topic partition offset) => some (makeAckKey topic partition offset)
  | _ => none

/-- The broker that an action counts. -/
def Act.counts? : Act → Option Int
  | .node (.handleAck followerId _ _ _) => some followerId
  | _ => none

/-- Only members are counted, and a key is opened before any other broker has acknowledged
    it. -/
def countsMembers (s : Node) (a : Act) : Prop :=
  (∀ key ∈ a.opens?, s.replication.acked key ⊆ {s.config.brokerId}) ∧
    ∀ id ∈ a.counts?, id ∈ s.config.memberIds

instance (s : Node) (a : Act) : Decidable (countsMembers s a) :=
  inferInstanceAs (Decidable (_ ∧ _))

/-! ### One action -/

variable {τ : Nat} {s s' : Node} {G : Node → Act → Prop} {a : Act} {r : a.Result}

/-- What an action does to counts and sets. -/
theorem NodeAct.Effect.acknowledged {a : NodeAct} (h : NodeAct.Effect τ s a s') :
    (s'.replication.ackCounts = s.replication.ackCounts ∧
      s'.replication.ackFollowers = s.replication.ackFollowers) ∨
    (∃ topic partition offset, a = .openAcks topic partition offset ∧
      s'.replication = s.replication.openAcks s.config topic partition offset) ∨
    ∃ followerId topic partition offset, a = .handleAck followerId topic partition offset ∧
      s'.replication = s.replication.handleAck followerId topic partition offset := by
  cases h with
  | acks a replication hkind _ _ => exact .inr hkind
  | liveness _ _ _ _ _ _ hcounts hfollowers => exact .inl ⟨hcounts, hfollowers⟩
  | markCommitted | none | append | join | leave | commitOffset | refreshTopic | lock | unlock =>
    exact .inl ⟨rfl, rfl⟩

theorem Node.guarded.config (h : s.guarded G τ a r s') : s'.config = s.config := by
  obtain ⟨-, hstep⟩ := h
  cases a with
  | net a =>
    obtain rfl := hstep
    rfl
  | node a =>
    obtain ⟨c, hstep⟩ := hstep
    exact (NodeAct.step_effect hstep).mono.config

/-- **One action.** -/
theorem Node.guarded.counted (h : s.guarded countsMembers τ a r s')
    (hs : s.replication.Counted s.config) : s'.replication.Counted s'.config := by
  obtain ⟨hguard, hstep⟩ := h
  cases a with
  | net a =>
    obtain rfl := hstep
    exact hs
  | node a =>
    obtain ⟨c, hstep⟩ := hstep
    have heffect := NodeAct.step_effect hstep
    rw [heffect.mono.config]
    rcases heffect.acknowledged with ⟨hcounts, hfollowers⟩ |
      ⟨topic, partition, offset, rfl, heq⟩ | ⟨followerId, topic, partition, offset, rfl, heq⟩
    · exact hs.congr hcounts hfollowers
    · rw [heq]
      exact hs.openAcks (hguard.1 _ rfl)
    · rw [heq]
      exact hs.handleAck (hguard.2 _ rfl)

/-- What the calls keep: the configuration, and counts that agree with the sets. -/
theorem Called.counted {s₀ : Node}
    (hstart : s₀.replication = ReplicationManager.construct s₀.config s₀.now)
    (h : Called countsMembers s₀ s) : s.config = s₀.config ∧ s.replication.Counted s.config := by
  induction h with
  | start =>
    rw [hstart]
    exact ⟨rfl, ReplicationManager.counted_construct ..⟩
  | call τ call _ _ hrun ih =>
    refine ⟨?_, hrun.inv (fun hs hstep => hstep.counted hs) ih.2⟩
    refine (hrun.inv (I := fun s => s.config = s₀.config) (fun {a s r s'} hs hstep => ?_) ih.1)
    exact hstep.config.trans hs
  | tick milliseconds _ ih => exact ih

/-! ### Computing calls -/

/-- `Node.answer` for the actions that `G` allows. -/
def Node.guardedAnswer (G : Node → Act → Prop) [∀ s a, Decidable (G s a)] (reply : Option Bytes)
    (a : Act) (s : Node) : Option (a.Result × Node) :=
  if G s a then Node.answer reply a s else none

theorem Node.guarded_of_answer [∀ s a, Decidable (G s a)] {reply : Option Bytes}
    (h : Node.guardedAnswer G reply a s = some (r, s')) : s.guarded G 0 a r s' := by
  obtain ⟨hG, hanswer⟩ := Option.ite_none_right_eq_some.mp h
  exact ⟨hG, Node.alone_of_answer hanswer⟩

/-- Calls one after another, each with the reply of the peers. -/
def callAll (G : Node → Act → Prop) [∀ s a, Decidable (G s a)] :
    List (ReplicationCall × Option Bytes) → Node → Option Node
  | [], s => some s
  | (call, reply) :: calls, s =>
    if s.isLeader then
      match (call.program s.config).play (Node.guardedAnswer G reply) s with
      | some (_, s') => callAll G calls s'
      | none => none
    else none

theorem called_of_callAll [∀ s a, Decidable (G s a)] {calls : List (ReplicationCall × Option Bytes)}
    {s₀ : Node} (hs : Called G s₀ s) (h : callAll G calls s = some s') : Called G s₀ s' := by
  induction calls generalizing s with
  | nil => exact Option.some.inj h ▸ hs
  | cons entry calls ih =>
    obtain ⟨call, reply⟩ := entry
    rw [callAll] at h
    split at h
    · next hleader =>
      split at h
      · next u s₁ hplay =>
        refine ih (.call 0 call hs hleader (Prog.runs_of_play ?_ hplay)) h
        exact fun hanswer => Node.guarded_of_answer hanswer
      · exact absurd h (by simp)
    · exact absurd h (by simp)

/-- What is seen to be true after some calls. -/
theorem exists_called (G : Node → Act → Prop) [∀ s a, Decidable (G s a)] (P : Node → Prop)
    [DecidablePred P] (s : Node) (calls : List (ReplicationCall × Option Bytes))
    (h : (callAll G calls s).any (fun s' => decide (P s')) = true) :
    ∃ s', Called G s s' ∧ P s' := by
  cases hall : callAll G calls s with
  | none => rw [hall] at h; exact absurd h (by simp)
  | some s' =>
    rw [hall] at h
    exact ⟨s', called_of_callAll .start hall, of_decide_eq_true h⟩

/-- Broker 2 acknowledges offset 0 of partition 0 of topic `t`. -/
def ackOfTwo : Bytes :=
  encodeRequest { type := .ack, topic := ofString "t", brokerId := 2 }

/-- **A quorum is a majority of the members.**  Take a broker that lists each of its peers
    once and itself not at all, and any sequence of calls on its replication manager while
    it is the leader, in which only members are counted and no key is opened that another
    broker has acknowledged before.  In every state that is reached, the count of every key
    is the number of brokers that have acknowledged it, all of them are members, and the
    quorum of a record is reached if and only if more than half of the members have
    acknowledged it. -/
theorem quorum_is_majority {s₀ s : Node}
    (hstart : s₀.replication = ReplicationManager.construct s₀.config s₀.now)
    (hpeers : s₀.config.DistinctPeers) (h : Called countsMembers s₀ s) :
    (∀ key, (s.replication.ackCounts key).getD 0 = (s.replication.acked key).card ∧
      s.replication.acked key ⊆ s.config.memberIds) ∧
    ∀ topic partition offset,
      s.replication.quorumReached s.config topic partition offset = true ↔
        s.config.memberIds.card < 2 * (s.config.memberIds ∩
          s.replication.acked (makeAckKey topic partition offset)).card := by
  obtain ⟨hconfig, hcounted⟩ := h.counted hstart
  refine ⟨fun key => ⟨hcounted.count key, hcounted.members key⟩, fun topic partition offset => ?_⟩
  exact hcounted.quorumReached_iff (hconfig ▸ hpeers)

/-- The quorum of two brokers is both. -/
theorem quorum_is_majority_two : ∃ s, Called countsMembers (twoBrokers.node 1) s ∧
    s.replication.quorumReached s.config (ofString "t") 0 0 = true ∧
    s.config.memberIds.card < 2 * (s.config.memberIds ∩
      s.replication.acked (makeAckKey (ofString "t") 0 0)).card := by
  obtain ⟨s, hs, hreached⟩ := exists_called countsMembers
    (fun s => s.replication.quorumReached s.config (ofString "t") 0 0 = true) (twoBrokers.node 1)
    [(.replicateMessage (ofString "t") 0 0 [65], some ackOfTwo)] (by decide +kernel)
  exact ⟨s, hs, hreached, ((quorum_is_majority rfl (by decide +kernel) hs).2 _ _ _).mp hreached⟩

/-- Broker 2 acknowledges a record before broker 1 replicates it, and once more when it is
    replicated: both members have acknowledged it, but the count is one. -/
theorem early_ack_not_counted : ∃ s, Called (fun _ _ => True) (twoBrokers.node 1) s ∧
    s.replication.acked (makeAckKey (ofString "t") 0 0) = s.config.memberIds ∧
    s.config.memberIds.card = 2 ∧
    s.replication.ackCounts (makeAckKey (ofString "t") 0 0) = some 1 ∧
    s.replication.quorumReached s.config (ofString "t") 0 0 = false :=
  exists_called (fun _ _ => True) _ (twoBrokers.node 1)
    [(.handleAck 2 (ofString "t") 0 0, none),
      (.replicateMessage (ofString "t") 0 0 [65], some ackOfTwo)] (by decide +kernel)

end StreamingPlatform
