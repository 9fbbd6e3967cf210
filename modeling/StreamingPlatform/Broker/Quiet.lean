import StreamingPlatform.Broker.Handlers

namespace StreamingPlatform

open ByteString Interleave

/-!
# Broker — the actions of the handlers

Which actions a function of the broker can perform is said once, with the property that is asked
of them as a parameter (`acts_handleFetch`): what a handler leaves alone, what it waits for and
where it writes then follows from what its actions do.

Most of what a handler does is talk to other brokers and look at its own state.  Such a
program performs only `Exchanges` actions; with the commits that a produce ends with, the
actions are still `Quiet`: the broker's logs and consumer groups stay as they are.
-/

/-! ### Walks through the handlers -/

section Acts

variable {P : Act → Prop} {config : BrokerConfig} {request : Request}

/-- A call under the mutex: the lock, the body and the unlock. -/
theorem acts_withLock {α : Type} {body : Program α}
    (hlock : P (.node .lock)) (hunlock : P (.node .unlock)) (h : body.AllActs P) :
    (withLock body).AllActs P := by
  refine .bind (.perform hlock) (fun _ => .bind h (fun _ => ?_))
  exact .bind (.perform hunlock) (fun _ => .pure _)

/-- The peer counts as alive or as failed. -/
theorem acts_recordExchange {peer : ClusterPeer} {ok : Bool}
    (halive : P (.node (.handleHeartbeat peer.brokerId)))
    (hfailed : P (.node (.markFollowerFailed peer.brokerId))) :
    (recordExchange peer ok).AllActs P := by
  unfold recordExchange
  split
  · exact .perform halive
  · exact .perform hfailed

variable {topic : Bytes} {partition : Int}

/-- The polls before the deadline. -/
theorem acts_waitForQuorum {offset : Nat} (hpolls : P (.node .polls))
    (hquorum : P (.node (.quorumReached topic partition offset))) :
    (waitForQuorum topic partition offset).AllActs P := by
  refine .bind (.perform hpolls) (fun n => ?_)
  induction n with
  | zero => exact .perform hquorum
  | succ n ih =>
    refine .bind (.perform hquorum) (fun reached => ?_)
    split
    · exact .pure _
    · exact ih

/-- The leader's endpoint is looked up, and one request goes there. -/
theorem acts_forwardToLeader (hendpoint : P (.node .getLeaderEndpoint))
    (hsend : ∀ dest, P (.net (.send dest (encodeRequest request))))
    (hreceive : ∀ conn, P (.net (.receive conn))) : (forwardToLeader request).AllActs P := by
  refine .bind (.perform hendpoint) (fun endpoint => ?_)
  cases endpoint with
  | none => exact .pure _
  | some leader =>
    refine .bind (.perform (hsend leader.brokerId)) (fun sent => ?_)
    cases sent with
    | unreachable => exact .pure _
    | writeFailed => exact .pure _
    | sent conn =>
      refine .bind (.perform (hreceive conn)) (fun frame => ?_)
      cases frame <;> exact .pure _

/-- The handlers begin by asking for the role; a follower forwards the request. -/
theorem acts_roleCheck {body : Program Response} (hleader : P (.node .isLeader))
    (hforward : (forwardToLeader request).AllActs P) (hbody : body.AllActs P) :
    (node .isLeader >>= fun leader =>
      if (!leader) = true then forwardToLeader request else body).AllActs P := by
  refine .bind (.perform hleader) (fun leader => ?_)
  split
  · exact hforward
  · exact hbody

/-- What a leader itself does in this handler are actions of `P`. -/
def OnLeader (request : Request) (P : Act → Prop) (handler : Program Response) : Prop :=
  ∃ body, handler = (node .isLeader >>= fun leader =>
    if (!leader) = true then forwardToLeader request else body) ∧ body.AllActs P

/-- Whoever may ask for the role and forward may run the handler. -/
theorem OnLeader.acts {handler : Program Response} (h : OnLeader request P handler)
    (hleader : P (.node .isLeader)) (hforward : (forwardToLeader request).AllActs P) :
    handler.AllActs P := by
  obtain ⟨body, rfl, hbody⟩ := h
  exact acts_roleCheck hleader hforward hbody

/-- METADATA asks for the leader and nothing else. -/
theorem acts_handleMetadata (hendpoint : P (.node .getLeaderEndpoint)) :
    (handleMetadata config).AllActs P := by
  refine .bind (.perform hendpoint) (fun endpoint => ?_)
  cases endpoint <;> exact .pure _

/-- A group is joined in the name of a topic, so of one that has a name. -/
theorem onLeader_handleJoinGroup (hpartitions : P (.node (.partitionsForTopic request.topic)))
    (hjoin : request.topic ≠ [] → ∀ partitions,
      P (.node (.join request.groupId request.memberId request.topic partitions))) :
    OnLeader request P (handleJoinGroup request) := by
  refine ⟨_, rfl, ?_⟩
  split
  · exact .pure _
  next hvalid =>
  refine .bind (.perform hpartitions) (fun partitions => ?_)
  split
  · exact .pure _
  · exact .bind (.perform (hjoin (fun htopic => hvalid (.inr (.inr htopic))) _)) (fun _ => .pure _)

/-- LEAVE_GROUP on the leader. -/
theorem onLeader_handleLeaveGroup (hpartitions : P (.node (.partitionsForTopic request.topic)))
    (hleave : ∀ partitions, P (.node (.leave request.groupId request.memberId partitions))) :
    OnLeader request P (handleLeaveGroup request) := by
  refine ⟨_, rfl, ?_⟩
  split
  · exact .pure _
  · exact .bind (.perform hpartitions) (fun _ => .bind (.perform (hleave _)) (fun _ => .pure _))

/-- Every partition of the topic is asked for. -/
theorem onLeader_handleGroupAssignment (hpartitions : P (.node (.partitionsForTopic request.topic)))
    (hassigned : ∀ partition,
      P (.node (.isAssigned request.groupId request.memberId request.topic partition))) :
    OnLeader request P (handleGroupAssignment request) := by
  refine ⟨_, rfl, ?_⟩
  split
  · exact .pure _
  refine .bind (.perform hpartitions) (fun partitions => .bind ?_ (fun _ => .pure _))
  induction partitions with
  | nil => exact .pure _
  | cons partition partitions ih =>
    exact .bind (.perform (hassigned partition)) (fun _ => .bind ih (fun _ => .pure _))

/-- The commit index and, below it, the record are read. -/
theorem acts_handleFetch
    (hcommitted : P (.node (.isCommitted request.topic request.partition request.fetchOffset)))
    (hfetch : P (.node (.fetch request.topic request.partition request.fetchOffset))) :
    (handleFetch request).AllActs P := by
  unfold handleFetch
  split
  · exact .pure _
  split
  · exact .pure _
  refine .bind (.perform hcommitted) (fun committed => ?_)
  split
  · exact .pure _
  refine .bind (.perform hfetch) (fun fetched => ?_)
  cases fetched with
  | error e => exact .pure _
  | ok message =>
    dsimp only
    split
    · exact .pure _
    · exact .pure _

/-- The same at the group's cursor. -/
theorem onLeader_handleGroupFetch
    (hassigned : P (.node (.isAssigned request.groupId request.memberId request.topic
      request.partition)))
    (hnext : P (.node (.nextOffset request.groupId request.topic request.partition)))
    (hcommitted : ∀ offset, P (.node (.isCommitted request.topic request.partition offset)))
    (hfetch : ∀ offset, P (.node (.fetch request.topic request.partition offset))) :
    OnLeader request P (handleGroupFetch request) := by
  refine ⟨_, rfl, ?_⟩
  split
  · exact .pure _
  refine .bind (.perform hassigned) (fun assigned => ?_)
  split
  · exact .pure _
  · exact .bind (.perform hnext)
      (fun offset => acts_handleFetch (hcommitted offset) (hfetch offset))

/-- COMMIT_OFFSET on the leader. -/
theorem onLeader_handleCommitOffset
    (hcommit : P (.node (.commit request.groupId request.memberId request.topic
      request.partition request.fetchOffset))) :
    OnLeader request P (handleCommitOffset request) := by
  refine ⟨_, rfl, ?_⟩
  split
  · exact .pure _
  refine .bind (.perform hcommit) (fun committed => ?_)
  split
  · exact .pure _
  · exact .pure _

/-- The groups of a topic are given the partitions that the storage has. -/
theorem acts_refreshTopic (hpartitions : P (.node (.partitionsForTopic topic)))
    (hrefresh : ∀ partitions, P (.node (.refreshTopic topic partitions))) :
    (refreshTopic topic).AllActs P :=
  .bind (.perform hpartitions) (fun partitions => .perform (hrefresh partitions))

/-- The calls that a produce makes, in terms of theirs. -/
theorem acts_handleProduce (hleader : P (.node .isLeader))
    (hforward : (forwardToLeader request).AllActs P)
    (happend : P (.node (.append request.topic request.partition request.message .client)))
    (hrefresh : (refreshTopic request.topic).AllActs P)
    (hreplicate : ∀ offset, (replicateMessage config request.topic request.partition offset
      request.message).AllActs P)
    (hwait : ∀ offset, (waitForQuorum request.topic request.partition offset).AllActs P)
    (hcommit : ∀ offset, P (.node (.markCommitted request.topic request.partition offset)))
    (hbroadcast : ∀ offset,
      (broadcastCommit config request.topic request.partition offset).AllActs P) :
    (handleProduce config request).AllActs P := by
  refine acts_roleCheck hleader hforward ?_
  split
  · exact .pure _
  split
  · exact .pure _
  split
  · exact .pure _
  refine .bind (.perform happend) (fun offset => .bind hrefresh (fun _ => ?_))
  refine .bind (hreplicate offset) (fun replicated => ?_)
  split
  · exact .pure _
  refine .bind (hwait offset) (fun reached => ?_)
  split
  · exact .pure _
  · exact .bind (.perform (hcommit offset)) (fun _ => .bind (hbroadcast offset) (fun _ => .pure _))

/-- The rest of a batch is appended record by record. -/
theorem acts_appendBatch {messages : List Bytes} (happend : ∀ message ∈ messages, ∀ expected,
      P (.node (.append topic partition message (.batch expected)))) (expected : Nat) :
    (appendBatch topic partition messages expected).AllActs P := by
  induction messages generalizing expected with
  | nil => exact .pure _
  | cons message messages ih =>
    obtain ⟨hfirst, hrest⟩ := List.forall_mem_cons.mp happend
    exact .bind (.perform (hfirst expected))
      (fun _ => .bind (ih hrest (expected + 1)) (fun _ => .pure _))

/-- Every offset of a batch is marked and announced. -/
theorem acts_commitBatch (hcommit : ∀ offset, P (.node (.markCommitted topic partition offset)))
    (hbroadcast : ∀ offset, (broadcastCommit config topic partition offset).AllActs P)
    (offsets : List Nat) : (commitBatch config topic partition offsets).AllActs P :=
  .forM (fun offset _ => .bind (.perform (hcommit offset)) (fun _ => hbroadcast offset))

/-- Of a batch the first record is appended as a produce appends its own. -/
theorem acts_handleBatchProduce (hleader : P (.node .isLeader))
    (hforward : (forwardToLeader request).AllActs P)
    (happend : ∀ message ∈ request.messages, ∀ origin,
      P (.node (.append request.topic request.partition message origin)))
    (hrefresh : (refreshTopic request.topic).AllActs P)
    (hreplicate : ∀ offset, (replicateBatch config request.topic request.partition offset
      request.messages).AllActs P)
    (hwait : ∀ offset, (waitForQuorum request.topic request.partition offset).AllActs P)
    (hcommit : ∀ offset, P (.node (.markCommitted request.topic request.partition offset)))
    (hbroadcast : ∀ offset,
      (broadcastCommit config request.topic request.partition offset).AllActs P) :
    (handleBatchProduce config request).AllActs P := by
  unfold handleBatchProduce
  split
  · exact .pure _
  next first rest hmessages =>
  rw [hmessages] at happend
  obtain ⟨hfirst, hrest⟩ := List.forall_mem_cons.mp happend
  refine acts_roleCheck hleader hforward ?_
  split
  · exact .pure _
  refine .bind (.perform (hfirst .client)) (fun firstOffset => ?_)
  refine .bind (acts_appendBatch (fun message hm e => hrest message hm (.batch e)) _) ?_
  refine fun offsets => .bind hrefresh (fun _ => .bind (hreplicate firstOffset) ?_)
  refine fun replicated => ?_
  split
  · exact .pure _
  refine .bind (hwait _) (fun reached => ?_)
  split
  · exact .pure _
  · exact .bind (acts_commitBatch hcommit hbroadcast _) (fun _ => .pure _)

/-- Replicas are appended, and the sender is told where it has sent from. -/
theorem acts_handleReplicationRequest {conn : Option Nat} (hleader : P (.node .isLeader))
    (happend : ∀ message ∈ request.message :: request.messages, ∀ expected,
      P (.node (.append request.topic request.partition message (.replica expected))))
    (hack : ∀ ack, P (.net (.sendAck conn ack))) :
    (handleReplicationRequest config request conn).AllActs P := by
  have hone : ∀ message ∈ request.message :: request.messages, ∀ expected,
      (appendReplica request.topic request.partition message expected).AllActs P :=
    fun message hm expected => .bind (.perform (happend message hm expected)) (fun _ => .pure _)
  have hall : ∀ messages, (∀ message ∈ messages, message ∈ request.message :: request.messages) →
      ∀ expected, (appendReplicas request.topic request.partition messages expected).AllActs P := by
    intro messages
    induction messages with
    | nil => exact fun _ _ => .pure _
    | cons message messages ih =>
      intro hmem expected
      obtain ⟨hfirst, hrest⟩ := List.forall_mem_cons.mp hmem
      refine .bind (hone message hfirst _) (fun appended => ?_)
      split
      · exact ih hrest (expected + 1)
      · exact .pure _
  have hend : ∀ (appended : Bool) (ack : Request),
      (if (!appended) = true then pure () else net (.sendAck conn ack) : Program Unit).AllActs
        P := by
    intro appended ack
    split
    · exact .pure _
    · exact .perform (hack ack)
  refine .bind (.perform hleader) (fun leader => ?_)
  split
  · exact .pure _
  split
  · exact .pure _
  dsimp only
  split
  · exact .bind (hone _ List.mem_cons_self _) (fun appended => hend appended _)
  · exact .bind (hall _ (fun _ => List.mem_cons_of_mem _) _) (fun appended => hend appended _)

/-- COMMIT marks one offset, if it marks any. -/
theorem acts_handleCommitRequest
    (hcommit : P (.node (.markCommitted request.topic request.partition request.fetchOffset))) :
    (handleCommitRequest request).AllActs P := by
  unfold handleCommitRequest
  split
  · exact .pure _
  split
  · exact .pure _
  · exact .perform hcommit

/-- The dispatch of other brokers' requests. -/
theorem acts_handleInterBrokerRequest {conn : Option Nat}
    (hreplication : (handleReplicationRequest config request conn).AllActs P)
    (hack : P (.node (.handleAck request.brokerId request.topic request.partition
      request.fetchOffset)))
    (hheartbeat : P (.node (.handleHeartbeat request.brokerId)))
    (hcommit : (handleCommitRequest request).AllActs P) :
    (handleInterBrokerRequest config request conn).AllActs P := by
  unfold handleInterBrokerRequest
  split
  · exact .bind hreplication (fun _ => .pure _)
  · exact .bind hreplication (fun _ => .pure _)
  · exact .bind (.perform hack) (fun _ => .pure _)
  · exact .bind (.perform hheartbeat) (fun _ => .pure _)
  · exact .bind hcommit (fun _ => .pure _)
  · exact .pure _

end Acts

/-! ### Actions that leave logs and groups alone -/

/-- The actions of a program that looks at its broker and talks to others: it changes
    nothing but the acknowledgements and the liveness of peers, and what it sends is
    `payload`. -/
def Act.Exchanges (payload : Bytes) : Act → Prop
  | .node (.append ..) | .node (.markCommitted ..) | .node (.commit ..) => False
  | .node (.join ..) | .node (.leave ..) | .node (.refreshTopic ..) => False
  | .net (.sendAck ..) | .net (.respond ..) => False
  | .net (.send _ sent) => sent = payload
  | _ => True

/-- What it takes to talk to other brokers: the mutex, the role and the leader, the liveness of
    the peers and their acknowledgements, and the sockets, to which `payload` is written. -/
def Act.Talks (payload : Bytes) : Act → Prop
  | .node .isLeader | .node .getLeaderEndpoint | .node .lock | .node .unlock => True
  | .node (.handleAck ..) | .node (.quorumReached ..) | .node .polls => True
  | .node (.isPeerAvailable _) | .node (.markFollowerFailed _) | .node (.handleHeartbeat _) => True
  | .node .maybeElectLeader | .node .failExpired => True
  | .net (.send _ sent) => sent = payload
  | .net (.receive _) => True
  | _ => False

/-- The same for a record, whose acknowledgements are opened before. -/
def Act.Replicates (payload : Bytes) : Act → Prop
  | .node (.openAcks ..) => True
  | a => a.Talks payload

/-- The actions that change neither the logs nor the groups of the broker. -/
def Act.Quiet : Act → Prop
  | .node (.append ..) | .node (.commit ..) => False
  | .node (.join ..) | .node (.leave ..) | .node (.refreshTopic ..) => False
  | _ => True

variable {a : Act}

/-- Talking to the peers is part of replicating. -/
theorem Act.Talks.replicates {payload : Bytes} (h : a.Talks payload) : a.Replicates payload := by
  cases a with
  | node a => cases a <;> first | exact h.elim | exact h
  | net a => exact h

/-- Replicating is part of exchanging. -/
theorem Act.Replicates.exchanges {payload : Bytes} (h : a.Replicates payload) :
    a.Exchanges payload := by
  cases a with
  | node a => cases a <;> first | exact h.elim | trivial
  | net a => cases a <;> first | exact h.elim | exact h

/-- Whoever exchanges keeps the logs and the groups. -/
theorem Act.Exchanges.quiet {payload : Bytes} (h : a.Exchanges payload) : a.Quiet := by
  cases a with
  | node a => cases a <;> first | exact h.elim | trivial
  | net a => trivial

/-! ### Exchanges with peers -/

section Exchanges

variable {config : BrokerConfig} {payload : Bytes}

/-- A program that talks exchanges. -/
theorem exchanges_of_talks {α : Type} {p : Program α} (h : p.AllActs (Act.Talks payload)) :
    p.AllActs (Act.Exchanges payload) :=
  h.mono (fun _ h => h.replicates.exchanges)

/-- A frame is written to the peer. -/
theorem talks_sendOneShotToPeer (peer : ClusterPeer) :
    (sendOneShotToPeer peer payload).AllActs (Act.Talks payload) := by
  refine .bind (.perform rfl) (fun r => ?_)
  cases r <;> exact .pure _

/-- A frame is written to the peer and one is read. -/
theorem talks_exchangeWithPeer (peer : ClusterPeer) :
    (exchangeWithPeer peer payload).AllActs (Act.Talks payload) := by
  refine .bind (.perform rfl) (fun r => ?_)
  cases r with
  | sent conn => exact .perform trivial
  | unreachable => exact .pure _
  | writeFailed => exact .pure _

/-- One peer in the loop of `replicate_message`. -/
theorem talks_replicateRound (topic : Bytes) (partition : Int) (offset : Nat)
    (peer : ClusterPeer) :
    (replicateRound config payload topic partition offset peer).AllActs (Act.Talks payload) := by
  unfold replicateRound
  split
  · exact .pure _
  · refine .bind (.perform trivial) (fun available => ?_)
    split
    · exact .pure _
    · refine .bind ?_ (fun ok => acts_recordExchange trivial trivial)
      refine .bind (talks_exchangeWithPeer peer) (fun frame => ?_)
      cases frame with
      | none => exact .pure _
      | some ackPayload =>
        dsimp only
        split
        · exact .pure _
        · split
          · exact .pure _
          · exact .bind (.perform trivial) (fun _ => .pure _)

/-- `replicate_message` sends the same request to all peers. -/
theorem replicates_replicateMessage (topic : Bytes) (partition : Int) (offset : Nat)
    (message : Bytes) :
    (replicateMessage config topic partition offset message).AllActs
      (Act.Replicates (encodeRequest (replicationRequest topic partition offset message))) := by
  refine acts_withLock trivial trivial (.bind (.perform trivial) (fun leader => ?_))
  split
  · exact .pure _
  · refine .bind (.perform trivial) (fun _ => ?_)
    split
    · exact .bind (.perform trivial) (fun _ => .pure _)
    · refine .bind (.forM (fun peer _ => ?_)) (fun _ => .perform trivial)
      exact (talks_replicateRound topic partition offset peer).mono (fun _ h => h.replicates)

/-- One peer in the loop of `replicate_batch`. -/
theorem talks_batchRound (topic : Bytes) (partition : Int) (lastOffset : Nat)
    (peer : ClusterPeer) :
    (batchRound config payload topic partition lastOffset peer).AllActs (Act.Talks payload) := by
  unfold batchRound
  split
  · exact .pure _
  · refine .bind (.perform trivial) (fun available => ?_)
    split
    · exact .pure _
    · refine .bind (talks_exchangeWithPeer peer) (fun frame => ?_)
      cases frame with
      | none => exact .perform trivial
      | some ackPayload =>
        dsimp only
        split
        · exact .perform trivial
        · exact .perform trivial

/-- So does `replicate_batch`. -/
theorem replicates_replicateBatch (topic : Bytes) (partition : Int) (firstOffset : Nat)
    (messages : List Bytes) :
    (replicateBatch config topic partition firstOffset messages).AllActs
      (Act.Replicates (encodeRequest (batchRequest topic partition firstOffset messages))) := by
  unfold replicateBatch
  refine .bind (.perform trivial) (fun leader => ?_)
  split
  · exact .pure _
  · split
    · exact .pure _
    · refine acts_withLock trivial trivial (.bind (.perform trivial) (fun _ => ?_))
      refine .bind (.forM (fun peer _ => ?_)) (fun _ => .perform trivial)
      exact (talks_batchRound topic partition _ peer).mono (fun _ h => h.replicates)

/-- `broadcast_commit` sends one COMMIT to all peers that are available. -/
theorem talks_broadcastCommit (topic : Bytes) (partition : Int) (offset : Nat) :
    (broadcastCommit config topic partition offset).AllActs
      (Act.Talks (encodeRequest (commitRequest topic partition offset))) := by
  refine acts_withLock trivial trivial (.bind (.perform trivial) (fun leader => ?_))
  split
  · exact .pure _
  · refine .forM (fun peer _ => ?_)
    unfold commitRound
    split
    · exact .pure _
    · refine .bind (.perform trivial) (fun available => ?_)
      split
      · exact .pure _
      · exact .bind (talks_sendOneShotToPeer peer) (fun ok => acts_recordExchange trivial trivial)

/-- A round of heartbeats elects, and then sends to all peers. -/
theorem talks_broadcastHeartbeat :
    (broadcastHeartbeat config).AllActs
      (Act.Talks (encodeRequest { type := .heartbeat, brokerId := config.brokerId })) := by
  refine acts_withLock trivial trivial (.bind (.perform trivial) (fun _ => ?_))
  refine .bind (.perform trivial) (fun _ => .forM (fun peer _ => ?_))
  unfold heartbeatRound
  split
  · exact .pure _
  · exact .bind (talks_sendOneShotToPeer peer) (fun ok => acts_recordExchange trivial trivial)

/-- Waiting for the quorum sends nothing. -/
theorem talks_waitForQuorum (payload topic : Bytes) (partition : Int) (offset : Nat) :
    (waitForQuorum topic partition offset).AllActs (Act.Talks payload) :=
  acts_waitForQuorum trivial trivial

/-- A follower sends the request on as it is. -/
theorem talks_forwardToLeader (request : Request) :
    (forwardToLeader request).AllActs (Act.Talks (encodeRequest request)) :=
  acts_forwardToLeader trivial (fun _ => rfl) (fun _ => trivial)

/-- `replicate_message` sends one request, the record, to all peers. -/
theorem exchanges_replicateMessage (topic : Bytes) (partition : Int) (offset : Nat)
    (message : Bytes) :
    (replicateMessage config topic partition offset message).AllActs
      (Act.Exchanges (encodeRequest (replicationRequest topic partition offset message))) :=
  (replicates_replicateMessage topic partition offset message).mono (fun _ h => h.exchanges)

/-- `replicate_batch` sends one request, the batch, to all peers. -/
theorem exchanges_replicateBatch (topic : Bytes) (partition : Int) (firstOffset : Nat)
    (messages : List Bytes) :
    (replicateBatch config topic partition firstOffset messages).AllActs
      (Act.Exchanges (encodeRequest (batchRequest topic partition firstOffset messages))) :=
  (replicates_replicateBatch topic partition firstOffset messages).mono (fun _ h => h.exchanges)

/-- The same of waiting, for the handlers that exchange. -/
theorem exchanges_waitForQuorum (payload topic : Bytes) (partition : Int) (offset : Nat) :
    (waitForQuorum topic partition offset).AllActs (Act.Exchanges payload) :=
  acts_waitForQuorum trivial trivial

/-- `broadcast_commit` sends the commit to all peers. -/
theorem exchanges_broadcastCommit (topic : Bytes) (partition : Int) (offset : Nat) :
    (broadcastCommit config topic partition offset).AllActs
      (Act.Exchanges (encodeRequest (commitRequest topic partition offset))) :=
  exchanges_of_talks (talks_broadcastCommit topic partition offset)

/-- `broadcast_heartbeat` sends a heartbeat to all peers. -/
theorem exchanges_broadcastHeartbeat :
    (broadcastHeartbeat config).AllActs
      (Act.Exchanges (encodeRequest { type := .heartbeat, brokerId := config.brokerId })) :=
  exchanges_of_talks talks_broadcastHeartbeat

/-- Forwarding sends the request on as it is. -/
theorem exchanges_forwardToLeader (request : Request) :
    (forwardToLeader request).AllActs (Act.Exchanges (encodeRequest request)) :=
  acts_forwardToLeader trivial (fun _ => rfl) (fun _ => trivial)

/-! ### Handlers that change nothing -/

/-- METADATA sends nothing. -/
theorem exchanges_handleMetadata (payload : Bytes) :
    (handleMetadata config).AllActs (Act.Exchanges payload) :=
  acts_handleMetadata trivial

/-- GROUP_ASSIGNMENT is answered here or forwarded. -/
theorem exchanges_handleGroupAssignment (request : Request) :
    (handleGroupAssignment request).AllActs (Act.Exchanges (encodeRequest request)) :=
  (onLeader_handleGroupAssignment trivial (fun _ => trivial)).acts trivial
    (exchanges_forwardToLeader request)

/-- FETCH sends nothing. -/
theorem exchanges_handleFetch (payload : Bytes) (request : Request) :
    (handleFetch request).AllActs (Act.Exchanges payload) :=
  acts_handleFetch trivial trivial

/-- GROUP_FETCH is answered here or forwarded. -/
theorem exchanges_handleGroupFetch (request : Request) :
    (handleGroupFetch request).AllActs (Act.Exchanges (encodeRequest request)) :=
  (onLeader_handleGroupFetch trivial trivial (fun _ => trivial) (fun _ => trivial)).acts trivial
    (exchanges_forwardToLeader request)

end Exchanges

/-! ### The end of a produce -/

/-- Announcing a commit touches neither logs nor groups. -/
theorem quiet_broadcastCommit {config : BrokerConfig} (topic : Bytes) (partition : Int)
    (offset : Nat) : (broadcastCommit config topic partition offset).AllActs Act.Quiet :=
  (exchanges_broadcastCommit topic partition offset).mono (fun _ h => h.quiet)

/-- A commit on the leader, and the messages about it. -/
theorem quiet_commitBatch (config : BrokerConfig) (topic : Bytes) (partition : Int)
    (offsets : List Nat) : (commitBatch config topic partition offsets).AllActs Act.Quiet :=
  acts_commitBatch (fun _ => trivial) (quiet_broadcastCommit topic partition) offsets

/-- Learning of a commit touches neither. -/
theorem quiet_handleCommitRequest (request : Request) :
    (handleCommitRequest request).AllActs Act.Quiet :=
  acts_handleCommitRequest trivial

end StreamingPlatform
