import StreamingPlatform.Broker.Quiet
import StreamingPlatform.Lib.Monitor
import StreamingPlatform.Protocol.Parsed

namespace StreamingPlatform

open ByteString Interleave

/-!
# Broker — what handlers do with partition lists

Storage and consumer groups are not updated together.  A handler reads the partitions of a
topic from the storage engine and passes the list to the group manager in a call of its
own, and a produce refreshes the groups some time after its append.  `partitionWatch`
follows a thread in this: every list that it installs in a group is the one that it read
last, and once it has appended to a topic it does not end before it has refreshed the
topic's groups.  All threads of a broker follow it (`follows_serve`,
`follows_heartbeat`).
-/

/-- What is known of a thread: the list of partitions that it read last, whether it was
    ever told that its broker is a follower, and the topic to which it has appended
    without having refreshed the groups of the topic since. -/
structure Watch where
  read : Option (Bytes × List Int) := none
  follower : Bool := false
  pending : Option Bytes := none

/-- The monitor. -/
def partitionWatch : Monitor Act Act.Result Watch where
  ok s
    | .node (.join _ _ topic partitions) => s.read = some (topic, partitions)
    | .node (.leave _ _ partitions) => ∃ topic, s.read = some (topic, partitions)
    | .node (.refreshTopic topic partitions) => s.read = some (topic, partitions)
    | .node (.append topic partition _ origin) => 0 ≤ partition ∧ IsInt32 partition ∧
        match origin with
        | .replica _ => s.follower = true
        | _ => s.pending = none ∨ s.pending = some topic
    | _ => True
  next s
    | .node .isLeader, leader => { s with follower := s.follower || !leader }
    | .node (.partitionsForTopic topic), partitions => { s with read := some (topic, partitions) }
    | .node (.append topic _ _ origin), _ =>
      match origin with
      | .replica _ => s
      | _ => { s with pending := some topic }
    | .node (.refreshTopic topic _), _ =>
      if s.pending = some topic then { s with pending := none } else s
    | _, _ => s

/-- The thread has refreshed whatever it has appended to. -/
def Watch.Clean {α : Type} (_ : α) (s : Watch) : Prop := s.pending = none

section Follows

variable {s : Watch} {request : Request} {config : BrokerConfig}

/-- Programs that leave logs and groups alone. -/
theorem follows_quiet {α : Type} {p : Program α} (hp : p.AllActs Act.Quiet)
    (hs : s.pending = none) : Follows partitionWatch Watch.Clean p s := by
  refine Follows.of_allActs (P := fun s : Watch => s.pending = none) ?_ ?_ hp hs
  · intro s a _ ha
    cases a with
    | node a => cases a <;> first | exact ha.elim | trivial
    | net a => trivial
  · intro s a r hs ha
    cases a with
    | node a => cases a <;> first | exact ha.elim | exact hs
    | net a => exact hs

/-- Exchanges with other brokers leave nothing pending. -/
theorem follows_exchanges {α : Type} {p : Program α} {payload : Bytes}
    (hp : p.AllActs (Act.Exchanges payload)) (hs : s.pending = none) :
    Follows partitionWatch Watch.Clean p s :=
  follows_quiet (hp.mono (fun _ h => h.quiet)) hs

/-- The handlers begin by asking for the role; a follower forwards the request. -/
theorem follows_onLeader {handle : Program Response} (hs : s.pending = none)
    (hhandle : ∀ s', s'.pending = none → Follows partitionWatch Watch.Clean handle s') :
    Follows partitionWatch Watch.Clean (node .isLeader >>= fun leader =>
      if (!leader) = true then forwardToLeader request else handle) s := by
  refine Follows.act trivial (fun leader => ?_)
  split
  · exact follows_exchanges (exchanges_forwardToLeader request) hs
  · exact hhandle _ hs

/-! ### Group handlers -/

/-- JOIN_GROUP writes the partitions that it has read. -/
theorem follows_handleJoinGroup (hs : s.pending = none) :
    Follows partitionWatch Watch.Clean (handleJoinGroup request) s := by
  refine follows_onLeader hs (fun s hs => ?_)
  split
  · exact Follows.ret hs
  · refine Follows.act trivial (fun partitions => ?_)
    split
    · exact Follows.ret hs
    · exact Follows.act rfl (fun _ => Follows.ret hs)

/-- LEAVE_GROUP writes the partitions that it has read. -/
theorem follows_handleLeaveGroup (hs : s.pending = none) :
    Follows partitionWatch Watch.Clean (handleLeaveGroup request) s := by
  refine follows_onLeader hs (fun s hs => ?_)
  split
  · exact Follows.ret hs
  · refine Follows.act trivial (fun partitions => ?_)
    exact Follows.act ⟨request.topic, rfl⟩ (fun _ => Follows.ret hs)

/-- COMMIT_OFFSET adds no partition. -/
theorem follows_handleCommitOffset (hs : s.pending = none) :
    Follows partitionWatch Watch.Clean (handleCommitOffset request) s := by
  refine follows_onLeader hs (fun s hs => ?_)
  split
  · exact Follows.ret hs
  · refine Follows.act trivial (fun committed => ?_)
    split
    · exact Follows.ret hs
    · exact Follows.ret hs

/-! ### Producing -/

variable {topic : Bytes} {partition : Int}

/-- A refresh settles what is pending. -/
theorem follows_refreshTopic (hs : s.pending = some topic) :
    Follows partitionWatch Watch.Clean (refreshTopic topic) s := by
  refine Follows.act trivial (fun partitions => Follows.perform rfl (fun _ => ?_))
  show (if s.pending = some topic then _ else _ : Watch).pending = none
  rw [if_pos hs]

/-- PRODUCE appends and then refreshes. -/
theorem follows_handleProduce (hs : s.pending = none) (hint : IsInt32 request.partition) :
    Follows partitionWatch Watch.Clean (handleProduce config request) s := by
  refine follows_onLeader hs (fun s hs => ?_)
  split
  · exact Follows.ret hs
  · split
    · exact Follows.ret hs
    · next hpartition =>
      split
      · exact Follows.ret hs
      · refine Follows.act ⟨by omega, hint, .inl hs⟩ (fun offset => ?_)
        refine Follows.bind (follows_refreshTopic rfl) (fun _ s₁ hs₁ => ?_)
        -- the groups are refreshed; the rest is talking to the followers
        refine Follows.bind (follows_exchanges
          (exchanges_replicateMessage request.topic request.partition offset request.message) hs₁)
          (fun replicated s₂ hs₂ => ?_)
        split
        · exact Follows.ret hs₂
        · refine Follows.bind (follows_exchanges
            (exchanges_waitForQuorum [] request.topic request.partition offset) hs₂)
            (fun reached s₃ hs₃ => ?_)
          split
          · exact Follows.ret hs₃
          · refine Follows.act trivial (fun _ => ?_)
            refine Follows.bind (follows_exchanges
              (exchanges_broadcastCommit request.topic request.partition offset) hs₃)
              (fun _ s₄ hs₄ => Follows.ret hs₄)

/-- The rest of a batch goes to a partition whose topic is pending already. -/
theorem follows_appendBatch (hpartition : 0 ≤ partition) (hint : IsInt32 partition)
    (messages : List Bytes) (expected : Nat) (hs : s.pending = some topic) :
    Follows partitionWatch (fun _ s' => s'.pending = some topic)
      (appendBatch topic partition messages expected) s := by
  induction messages generalizing expected s with
  | nil => exact Follows.ret hs
  | cons message messages ih =>
    refine Follows.act ⟨hpartition, hint, .inr hs⟩ (fun offset => ?_)
    refine Follows.bind (ih (expected + 1) rfl) (fun offsets s' hs' => Follows.ret hs')

/-- BATCH_PRODUCE refreshes once, after its last record. -/
theorem follows_handleBatchProduce (hs : s.pending = none) (hint : IsInt32 request.partition) :
    Follows partitionWatch Watch.Clean (handleBatchProduce config request) s := by
  unfold handleBatchProduce
  split
  · exact Follows.ret hs
  · next first rest hmessages =>
    refine follows_onLeader hs (fun s hs => ?_)
    split
    · exact Follows.ret hs
    · next hvalid =>
      have hpartition : 0 ≤ request.partition := by
        by_contra hneg
        exact hvalid (.inr (by omega))
      refine Follows.act ⟨hpartition, hint, .inl hs⟩ (fun firstOffset => ?_)
      refine Follows.bind (follows_appendBatch hpartition hint rest (firstOffset + 1) rfl)
        (fun offsets s₁ hs₁ => ?_)
      refine Follows.bind (follows_refreshTopic hs₁) (fun _ s₂ hs₂ => ?_)
      refine Follows.bind (follows_exchanges (exchanges_replicateBatch request.topic
        request.partition firstOffset request.messages) hs₂) (fun replicated s₃ hs₃ => ?_)
      split
      · exact Follows.ret hs₃
      · refine Follows.bind (follows_exchanges
          (exchanges_waitForQuorum [] request.topic request.partition _) hs₃)
          (fun reached s₄ hs₄ => ?_)
        split
        · exact Follows.ret hs₄
        · refine Follows.bind (follows_quiet (quiet_commitBatch config request.topic
            request.partition (firstOffset :: offsets)) hs₄) (fun _ s₅ hs₅ => Follows.ret hs₅)

/-! ### Taking up replicas -/

/-- A follower may append without a refresh. -/
theorem follows_appendReplica (hpartition : 0 ≤ partition) (hint : IsInt32 partition)
    (message : Bytes) (expected : Nat) (hs : s.pending = none ∧ s.follower = true) :
    Follows partitionWatch (fun _ s' => s'.pending = none ∧ s'.follower = true)
      (appendReplica topic partition message expected) s :=
  Follows.act ⟨hpartition, hint, hs.2⟩ (fun _ => Follows.ret hs)

/-- The same of a batch. -/
theorem follows_appendReplicas (hpartition : 0 ≤ partition) (hint : IsInt32 partition)
    (messages : List Bytes) (expected : Nat) (hs : s.pending = none ∧ s.follower = true) :
    Follows partitionWatch (fun _ s' => s'.pending = none ∧ s'.follower = true)
      (appendReplicas topic partition messages expected) s := by
  induction messages generalizing expected s with
  | nil => exact Follows.ret hs
  | cons message messages ih =>
    refine Follows.bind (follows_appendReplica hpartition hint message _ hs)
      (fun appended s' hs' => ?_)
    split
    · exact ih (expected + 1) hs'
    · exact Follows.ret hs'

/-- REPLICATE and BATCH_REPLICATE ask for the role before they append. -/
theorem follows_handleReplicationRequest {conn : Option Nat} (hs : s.pending = none)
    (hint : IsInt32 request.partition) :
    Follows partitionWatch Watch.Clean (handleReplicationRequest config request conn) s := by
  refine Follows.act trivial (fun leader => ?_)
  split
  · exact Follows.ret hs
  · next hfollower =>
    split
    · exact Follows.ret hs
    · next hvalid =>
      have hpartition : 0 ≤ request.partition := by
        by_contra hneg
        exact hvalid (.inr (.inl (by omega)))
      -- only a thread that was told it is a follower appends
      have hs₁ : (partitionWatch.next s (.node .isLeader) leader).pending = none ∧
          (partitionWatch.next s (.node .isLeader) leader).follower = true := by
        cases leader with
        | true => exact absurd rfl hfollower
        | false => exact ⟨hs, Bool.or_true _⟩
      -- the same two cases follow either append
      have hrest : ∀ (appended : Bool) (s₂ : Watch) (ack : Request),
          s₂.pending = none ∧ s₂.follower = true →
          Follows partitionWatch Watch.Clean
            (if (!appended) = true then pure () else net (.sendAck conn ack)) s₂ := by
        intro appended s₂ ack hs₂
        split
        · exact Follows.ret hs₂.1
        · exact Follows.perform trivial (fun _ => hs₂.1)
      dsimp only
      split
      · exact Follows.bind (follows_appendReplica hpartition hint request.message
          request.fetchOffset hs₁) (fun appended s₂ hs₂ => hrest appended s₂ _ hs₂)
      · exact Follows.bind (follows_appendReplicas hpartition hint request.messages
          request.fetchOffset hs₁) (fun appended s₂ hs₂ => hrest appended s₂ _ hs₂)

/-! ### Threads -/

/-- Requests of clients keep to the order. -/
theorem follows_handleRequest (hs : s.pending = none)
    (hint : request.type ≠ .error → IsInt32 request.partition) :
    Follows partitionWatch Watch.Clean (handleRequest config request) s := by
  unfold handleRequest
  split
  case h_1 htype => exact follows_handleProduce hs (hint (by rw [htype]; decide))
  case h_2 htype => exact follows_handleBatchProduce hs (hint (by rw [htype]; decide))
  case h_3 => exact follows_exchanges (exchanges_handleFetch [] request) hs
  case h_4 => exact follows_exchanges (exchanges_handleMetadata []) hs
  case h_5 => exact follows_handleJoinGroup hs
  case h_6 => exact follows_handleLeaveGroup hs
  case h_7 => exact follows_exchanges (exchanges_handleGroupFetch request) hs
  case h_8 => exact follows_handleCommitOffset hs
  case h_9 => exact follows_exchanges (exchanges_handleGroupAssignment request) hs
  case h_10 => exact Follows.ret hs

/-- Requests of brokers keep to it as well. -/
theorem follows_handleInterBrokerRequest {conn : Option Nat} (hs : s.pending = none)
    (hint : request.type ≠ .error → IsInt32 request.partition) :
    Follows partitionWatch Watch.Clean (handleInterBrokerRequest config request conn) s := by
  unfold handleInterBrokerRequest
  split
  case h_1 htype =>
    refine Follows.bind (follows_handleReplicationRequest hs (hint (by rw [htype]; decide))) ?_
    exact fun _ s' hs' => Follows.ret hs'
  case h_2 htype =>
    refine Follows.bind (follows_handleReplicationRequest hs (hint (by rw [htype]; decide))) ?_
    exact fun _ s' hs' => Follows.ret hs'
  case h_3 => exact Follows.act trivial (fun _ => Follows.ret hs)
  case h_4 => exact Follows.act trivial (fun _ => Follows.ret hs)
  case h_5 =>
    exact Follows.bind (follows_quiet (quiet_handleCommitRequest request) hs)
      (fun _ s' hs' => Follows.ret hs')
  case h_6 => exact Follows.ret hs

/-- What a worker does with a request keeps to the order. -/
theorem follows_serve (config : BrokerConfig) (payload : Bytes) (conn : Option Nat) :
    Follows partitionWatch Watch.Clean (serve config payload conn) {} := by
  have hint : (parseRequest payload).type ≠ .error → IsInt32 (parseRequest payload).partition :=
    fun h => (parseRequest_fits h).partition
  have hprocess : Follows partitionWatch Watch.Clean (processRequest config payload conn) {} := by
    unfold processRequest
    dsimp only
    split
    · exact follows_handleInterBrokerRequest rfl hint
    · exact follows_handleRequest rfl hint
  refine Follows.bind hprocess (fun response s' hs' => ?_)
  exact Follows.act trivial (fun _ => Follows.ret hs')

/-- A heartbeat round appends nothing. -/
theorem follows_heartbeat (config : BrokerConfig) :
    Follows partitionWatch Watch.Clean (heartbeat config) {} :=
  Follows.bind (follows_exchanges exchanges_broadcastHeartbeat rfl)
    (fun _ _ hs' => Follows.ret hs')

end Follows

end StreamingPlatform
