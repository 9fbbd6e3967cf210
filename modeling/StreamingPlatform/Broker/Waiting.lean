import StreamingPlatform.Broker.Quiet
import StreamingPlatform.Lib.Monitor
import StreamingPlatform.Protocol.Canonical

namespace StreamingPlatform

open ByteString Interleave

/-!
# Broker — what a thread waits for

A thread can be held up by two things: the replication mutex of its broker, and a frame that
another broker has yet to write.  `waitWatch` follows a thread in this.  It takes the mutex at
most once at a time and does not end while it holds it.  While it holds the mutex it waits for
nothing but the answer to a record that it has just replicated, and whoever is to give that
answer needs no mutex and asks nobody (`Prompt`).  Without the mutex it waits for the answer to
a request that it has just forwarded, to the broker that its own one named as leader after it
had denied to be the leader itself.  Elections are left to the rounds of heartbeats.  All
threads of a broker follow it (`waits_serve`, `waits_heartbeat`).
-/

/-- The requests whose handlers neither take the mutex nor ask another broker. -/
def RequestType.prompt : RequestType → Bool
  | .replicate | .batchReplicate | .metadata | .error => true
  | _ => false

/-- The payload is served without the mutex and without another broker. -/
def Prompt (payload : Bytes) : Prop := (parseRequest payload).type.prompt = true

instance (payload : Bytes) : Decidable (Prompt payload) := inferInstanceAs (Decidable (_ = _))

/-- What is encoded as a prompt request arrives as one. -/
theorem prompt_encodeRequest {request : Request} (h : request.type.prompt = true) :
    Prompt (encodeRequest request) := by
  unfold Prompt
  rcases type_parseRequest_encode request with htype | htype
  · rw [htype]
    exact h
  · rw [htype]
    rfl

/-- What is known of a thread: whether it holds the mutex, whether it was last told that its
    broker is a follower, which leader it was named since, and the connection that it has just
    opened, with its request.  `elects` tells the rounds of heartbeats apart. -/
structure Waiting where
  held : Bool := false
  follower : Bool := false
  named : Option Int := none
  sent : Option (Nat × Bytes) := none
  elects : Bool := false

/-- The monitor. -/
def waitWatch : Monitor Act Act.Result Waiting where
  ok s
    | .node .lock => s.held = false
    | .node .unlock => s.held = true
    | .node .maybeElectLeader => s.elects = true
    | .net (.send dest _) => s.held = true ∨ (s.follower = true ∧ s.named = some dest)
    | .net (.receive id) => ∃ payload, s.sent = some (id, payload) ∧
        (s.held = true → Prompt payload)
    | _ => True
  next s
    | .node .lock, _ => { s with held := true, sent := none }
    | .node .unlock, _ => { s with held := false, sent := none }
    | .node .isLeader, leader => { s with follower := !leader, named := none, sent := none }
    | .node .getLeaderEndpoint, endpoint =>
      { s with named := endpoint.map LeaderEndpoint.brokerId, sent := none }
    | .net (.send _ payload), .sent id => { s with sent := some (id, payload) }
    -- an answer is waited for right after the request is sent, or not at all
    | _, _ => { s with sent := none }

/-- The mutex is held, or not, as `h` says. -/
def Waiting.Holding (h : Bool) {α : Type} (_ : α) (s : Waiting) : Prop := s.held = h

/-- The actions that have nothing to do with waiting. -/
def Act.Local : Act → Prop
  | .node .lock | .node .unlock | .node .maybeElectLeader => False
  | .net (.send ..) | .net (.receive _) => False
  | _ => True

section Waits

variable {s : Waiting} {h : Bool} {config : BrokerConfig} {request : Request} {payload : Bytes}

/-- Programs that neither take the mutex nor talk to others. -/
theorem waits_local {α : Type} {p : Program α} (hp : p.AllActs Act.Local) (hs : s.held = h) :
    Follows waitWatch (Waiting.Holding h) p s := by
  refine Follows.of_allActs (P := fun s : Waiting => s.held = h) ?_ ?_ hp hs
  · intro s a _ ha
    cases a with
    | node a => cases a <;> first | exact ha.elim | trivial
    | net a => cases a <;> first | exact ha.elim | trivial
  · intro s a r hs ha
    cases a with
    | node a => cases a <;> first | exact ha.elim | exact hs
    | net a => cases a <;> first | exact ha.elim | exact hs

/-! ### Under the mutex -/

/-- A one-shot request awaits nothing. -/
theorem waits_sendOneShotToPeer (peer : ClusterPeer) (hs : s.held = true) :
    Follows waitWatch (Waiting.Holding true) (sendOneShotToPeer peer payload) s := by
  refine Follows.act (.inl hs) (fun r => ?_)
  cases r <;> exact Follows.ret hs

/-- Under the mutex only prompt requests are exchanged. -/
theorem waits_exchangeWithPeer (peer : ClusterPeer) (hprompt : Prompt payload)
    (hs : s.held = true) :
    Follows waitWatch (Waiting.Holding true) (exchangeWithPeer peer payload) s := by
  refine Follows.act (.inl hs) (fun r => ?_)
  cases r with
  | sent id =>
    exact Follows.perform ⟨payload, rfl, fun _ => hprompt⟩ (fun _ => hs)
  | unreachable => exact Follows.ret hs
  | writeFailed => exact Follows.ret hs

/-- One round of a loop over the peers: a record is sent to one of them. -/
theorem waits_replicateRound (hprompt : Prompt payload) (topic : Bytes) (partition : Int)
    (offset : Nat) (peer : ClusterPeer) (hs : s.held = true) :
    Follows waitWatch (Waiting.Holding true)
      (replicateRound config payload topic partition offset peer) s := by
  unfold replicateRound
  split
  · exact Follows.ret hs
  refine Follows.act trivial (fun available => ?_)
  split
  · exact Follows.ret hs
  refine Follows.bind (Q := Waiting.Holding true) ?_
    (fun ok s' hs' => waits_local (acts_recordExchange trivial trivial) hs')
  refine Follows.bind (waits_exchangeWithPeer peer hprompt hs) (fun frame s' hs' => ?_)
  cases frame with
  | none => exact Follows.ret hs'
  | some ackPayload =>
    dsimp only
    split
    · exact Follows.ret hs'
    split
    · exact Follows.ret hs'
    · exact Follows.act trivial (fun _ => Follows.ret hs')

/-- The round of a batch. -/
theorem waits_batchRound (hprompt : Prompt payload) (topic : Bytes) (partition : Int)
    (lastOffset : Nat) (peer : ClusterPeer) (hs : s.held = true) :
    Follows waitWatch (Waiting.Holding true)
      (batchRound config payload topic partition lastOffset peer) s := by
  unfold batchRound
  split
  · exact Follows.ret hs
  refine Follows.act trivial (fun available => ?_)
  split
  · exact Follows.ret hs
  refine Follows.bind (waits_exchangeWithPeer peer hprompt hs) (fun frame s' hs' => ?_)
  cases frame with
  | none => exact Follows.perform trivial (fun _ => hs')
  | some ackPayload =>
    dsimp only
    split
    · exact Follows.perform trivial (fun _ => hs')
    · exact Follows.perform trivial (fun _ => hs')

/-- The round of a commit. -/
theorem waits_commitRound (peer : ClusterPeer) (hs : s.held = true) :
    Follows waitWatch (Waiting.Holding true) (commitRound config payload peer) s := by
  unfold commitRound
  split
  · exact Follows.ret hs
  refine Follows.act trivial (fun available => ?_)
  split
  · exact Follows.ret hs
  · exact Follows.bind (waits_sendOneShotToPeer peer hs)
      (fun ok s' hs' => waits_local (acts_recordExchange trivial trivial) hs')

/-- The round of a heartbeat. -/
theorem waits_heartbeatRound (peer : ClusterPeer) (hs : s.held = true) :
    Follows waitWatch (Waiting.Holding true) (heartbeatRound config payload peer) s := by
  unfold heartbeatRound
  split
  · exact Follows.ret hs
  · exact Follows.bind (waits_sendOneShotToPeer peer hs)
      (fun ok s' hs' => waits_local (acts_recordExchange trivial trivial) hs')

/-- **A call under the mutex** takes it at the beginning and gives it back at the end. -/
theorem waits_withLock {α : Type} {body : Program α} (hs : s.held = false)
    (hbody : ∀ s', s'.held = true → s'.elects = s.elects →
      Follows waitWatch (Waiting.Holding true) body s') :
    Follows waitWatch (Waiting.Holding false) (withLock body) s := by
  refine Follows.act hs (fun _ => Follows.bind (hbody _ rfl rfl) (fun r s' hs' => ?_))
  exact Follows.act hs' (fun _ => Follows.ret rfl)

/-- `replicate_message` takes the mutex, goes through its rounds and gives it back. -/
theorem waits_replicateMessage (topic : Bytes) (partition : Int) (offset : Nat) (message : Bytes)
    (hs : s.held = false) :
    Follows waitWatch (Waiting.Holding false)
      (replicateMessage config topic partition offset message) s := by
  refine waits_withLock hs (fun s hs _ => Follows.act trivial (fun leader => ?_))
  split
  · exact Follows.ret hs
  refine Follows.act trivial (fun _ => ?_)
  split
  · exact Follows.act trivial (fun _ => Follows.ret hs)
  refine Follows.bind
    (Follows.forM (P := fun s : Waiting => s.held = true) (fun peer _ s hs => ?_) hs)
    (fun _ s' hs' => Follows.perform trivial (fun _ => hs'))
  exact waits_replicateRound (prompt_encodeRequest rfl) topic partition offset peer hs

/-- So does `replicate_batch`. -/
theorem waits_replicateBatch (topic : Bytes) (partition : Int) (firstOffset : Nat)
    (messages : List Bytes) (hs : s.held = false) :
    Follows waitWatch (Waiting.Holding false)
      (replicateBatch config topic partition firstOffset messages) s := by
  refine Follows.act trivial (fun leader => ?_)
  split
  · exact Follows.ret hs
  split
  · exact Follows.ret hs
  refine waits_withLock hs (fun s hs _ => Follows.act trivial (fun _ => ?_))
  refine Follows.bind
    (Follows.forM (P := fun s : Waiting => s.held = true) (fun peer _ s hs => ?_) hs)
    (fun _ s' hs' => Follows.perform trivial (fun _ => hs'))
  exact waits_batchRound (prompt_encodeRequest rfl) topic partition _ peer hs

/-- So does `broadcast_commit`. -/
theorem waits_broadcastCommit (topic : Bytes) (partition : Int) (offset : Nat)
    (hs : s.held = false) :
    Follows waitWatch (Waiting.Holding false)
      (broadcastCommit config topic partition offset) s := by
  refine waits_withLock hs (fun s hs _ => Follows.act trivial (fun leader => ?_))
  split
  · exact Follows.ret hs
  · exact Follows.forM (P := fun s : Waiting => s.held = true)
      (fun peer _ _ hs => waits_commitRound peer hs) hs

/-- So does `broadcast_heartbeat`, which is the one that elects. -/
theorem waits_broadcastHeartbeat (hs : s.held = false) (helects : s.elects = true) :
    Follows waitWatch (Waiting.Holding false) (broadcastHeartbeat config) s := by
  refine waits_withLock hs (fun s' hs he => Follows.act (he.trans helects) (fun _ => ?_))
  refine Follows.act trivial (fun _ => ?_)
  exact Follows.forM (P := fun s : Waiting => s.held = true)
    (fun peer _ _ hs => waits_heartbeatRound peer hs) hs

/-! ### Forwarding -/

/-- Only a follower forwards, and without the mutex. -/
theorem waits_forwardToLeader (request : Request) (hs : s.held = false)
    (hfollower : s.follower = true) :
    Follows waitWatch (Waiting.Holding false) (forwardToLeader request) s := by
  refine Follows.act trivial (fun endpoint => ?_)
  cases endpoint with
  | none => exact Follows.ret hs
  | some leader =>
    refine Follows.act (.inr ⟨hfollower, rfl⟩) (fun sent => ?_)
    cases sent with
    | unreachable => exact Follows.ret hs
    | writeFailed => exact Follows.ret hs
    | sent id =>
      refine Follows.act ⟨encodeRequest request, rfl, fun hheld => ?_⟩ (fun frame => ?_)
      · exact absurd (hs.symm.trans hheld) Bool.false_ne_true
      · cases frame <;> exact Follows.ret hs

/-- A follower forwards the request after it has denied to be the leader. -/
theorem waits_roleCheck {handle : Program Response} (hs : s.held = false)
    (hhandle : ∀ s', s'.held = false → Follows waitWatch (Waiting.Holding false) handle s') :
    Follows waitWatch (Waiting.Holding false) (node .isLeader >>= fun leader =>
      if (!leader) = true then forwardToLeader request else handle) s := by
  refine Follows.act trivial (fun leader => ?_)
  split
  · next hfollower => exact waits_forwardToLeader request hs hfollower
  · exact hhandle _ hs

/-- Handlers that wait for nobody on the leader. -/
theorem waits_onLeader {handler : Program Response} (h : OnLeader request Act.Local handler)
    (hs : s.held = false) : Follows waitWatch (Waiting.Holding false) handler s := by
  obtain ⟨body, rfl, hbody⟩ := h
  exact waits_roleCheck hs (fun s hs => waits_local hbody hs)

/-! ### Reading and appending -/

/-- A broker reads its log on its own. -/
theorem local_handleFetch (request : Request) : (handleFetch request).AllActs Act.Local :=
  acts_handleFetch trivial trivial

/-- The wait for the quorum is for its own acknowledgements. -/
theorem local_waitForQuorum (topic : Bytes) (partition : Int) (offset : Nat) :
    (waitForQuorum topic partition offset).AllActs Act.Local :=
  acts_waitForQuorum trivial trivial

/-- A refresh is of its own groups. -/
theorem local_refreshTopic (topic : Bytes) : (refreshTopic topic).AllActs Act.Local :=
  acts_refreshTopic trivial (fun _ => trivial)

/-! ### The handlers -/

/-- PRODUCE holds the mutex during its calls only. -/
theorem waits_handleProduce (hs : s.held = false) :
    Follows waitWatch (Waiting.Holding false) (handleProduce config request) s := by
  refine waits_roleCheck hs (fun s hs => ?_)
  split
  · exact Follows.ret hs
  split
  · exact Follows.ret hs
  split
  · exact Follows.ret hs
  refine Follows.act trivial (fun offset => ?_)
  refine Follows.bind (waits_local (local_refreshTopic request.topic) hs) (fun _ s₁ hs₁ => ?_)
  refine Follows.bind (waits_replicateMessage _ _ offset _ hs₁) (fun replicated s₂ hs₂ => ?_)
  split
  · exact Follows.ret hs₂
  refine Follows.bind (waits_local (local_waitForQuorum _ _ offset) hs₂) (fun reached s₃ hs₃ => ?_)
  split
  · exact Follows.ret hs₃
  refine Follows.act trivial (fun _ => ?_)
  exact Follows.bind (waits_broadcastCommit _ _ offset hs₃) (fun _ s₄ hs₄ => Follows.ret hs₄)

/-- So do the commits of a batch. -/
theorem waits_commitBatch (topic : Bytes) (partition : Int) (offsets : List Nat)
    (hs : s.held = false) :
    Follows waitWatch (Waiting.Holding false) (commitBatch config topic partition offsets) s :=
  Follows.forM (P := fun s : Waiting => s.held = false)
    (fun offset _ _ hs => Follows.act trivial (fun _ => waits_broadcastCommit topic partition
      offset hs)) hs

/-- So does BATCH_PRODUCE. -/
theorem waits_handleBatchProduce (hs : s.held = false) :
    Follows waitWatch (Waiting.Holding false) (handleBatchProduce config request) s := by
  unfold handleBatchProduce
  split
  · exact Follows.ret hs
  next first rest _ =>
  refine waits_roleCheck hs (fun s hs => ?_)
  split
  · exact Follows.ret hs
  refine Follows.act trivial (fun firstOffset => ?_)
  refine Follows.bind (waits_local (acts_appendBatch (fun _ _ _ => trivial) _) hs)
    (fun offsets s₁ hs₁ => ?_)
  refine Follows.bind (waits_local (local_refreshTopic request.topic) hs₁) (fun _ s₂ hs₂ => ?_)
  refine Follows.bind (waits_replicateBatch _ _ firstOffset _ hs₂) (fun replicated s₃ hs₃ => ?_)
  split
  · exact Follows.ret hs₃
  refine Follows.bind (waits_local (local_waitForQuorum _ _ _) hs₃) (fun reached s₄ hs₄ => ?_)
  split
  · exact Follows.ret hs₄
  · exact Follows.bind (waits_commitBatch _ _ _ hs₄) (fun _ s₅ hs₅ => Follows.ret hs₅)

/-- Whatever the request, the mutex is given back in between. -/
theorem waits_handleRequest (hs : s.held = false) :
    Follows waitWatch (Waiting.Holding false) (handleRequest config request) s := by
  unfold handleRequest
  split
  · exact waits_handleProduce hs
  · exact waits_handleBatchProduce hs
  · exact waits_local (local_handleFetch request) hs
  · exact waits_local (acts_handleMetadata trivial) hs
  · exact waits_onLeader (onLeader_handleJoinGroup trivial (fun _ _ => trivial)) hs
  · exact waits_onLeader (onLeader_handleLeaveGroup trivial (fun _ => trivial)) hs
  · exact waits_onLeader (onLeader_handleGroupFetch trivial trivial (fun _ => trivial)
      (fun _ => trivial)) hs
  · exact waits_onLeader (onLeader_handleCommitOffset trivial) hs
  · exact waits_onLeader (onLeader_handleGroupAssignment trivial (fun _ => trivial)) hs
  · exact Follows.ret hs

/-! ### Requests of other brokers -/

/-- The actions that are possible whenever the broker is up, unless a log is full. -/
def Act.Free : Act → Prop
  | .node .isLeader | .node .getLeaderEndpoint | .node (.append ..) => True
  | .net (.sendAck ..) | .net (.respond ..) => True
  | _ => False

/-- The actions on the broker's state that may have to wait for the mutex. -/
def Act.Guarded : Act → Prop
  | .node a => ¬ Act.Free (.node a)
  | .net _ => False

/-- What needs the mutex is not free. -/
theorem Act.Guarded.not_free {a : Act} (h : a.Guarded) : ¬ a.Free := by
  cases a with
  | node a => exact h
  | net a => exact h.elim

/-- What is free awaits nobody. -/
theorem Act.Free.local {a : Act} (h : a.Free) : a.Local := by
  cases a with
  | node a => cases a <;> first | exact h.elim | trivial
  | net a => cases a <;> first | exact h.elim | trivial

/-- A replication request is handled without the mutex. -/
theorem free_handleReplicationRequest (request : Request) (conn : Option Nat) :
    (handleReplicationRequest config request conn).AllActs Act.Free :=
  acts_handleReplicationRequest trivial (fun _ _ _ => trivial) (fun _ => trivial)

/-- **Prompt requests are served without waiting.** -/
theorem free_serve (hprompt : Prompt payload) (conn : Option Nat) :
    (serve config payload conn).AllActs Act.Free := by
  refine .bind ?_ (fun response => .bind (.perform trivial) (fun _ => .pure _))
  unfold processRequest
  dsimp only
  unfold Prompt at hprompt
  generalize parseRequest payload = request at hprompt
  split
  · next hinter =>
    -- of the inter-broker requests only the replications are prompt
    unfold handleInterBrokerRequest
    split
    · exact .bind (free_handleReplicationRequest request conn) (fun _ => .pure _)
    · exact .bind (free_handleReplicationRequest request conn) (fun _ => .pure _)
    · next htype => exact absurd (htype ▸ hprompt) (by decide)
    · next htype => exact absurd (htype ▸ hprompt) (by decide)
    · next htype => exact absurd (htype ▸ hprompt) (by decide)
    · exact .pure _
  · unfold handleRequest
    split
    case h_4 => exact acts_handleMetadata trivial
    case h_10 => exact .pure _
    all_goals
      next htype => exact absurd (htype ▸ hprompt) (by decide)

/-- Requests of other brokers are served without asking anyone. -/
theorem local_handleInterBrokerRequest (request : Request) (conn : Option Nat) :
    (handleInterBrokerRequest config request conn).AllActs Act.Local :=
  acts_handleInterBrokerRequest
    ((free_handleReplicationRequest request conn).mono (fun _ h => h.local)) trivial trivial
    (acts_handleCommitRequest trivial)

/-! ### All threads -/

/-- A thread that serves a request. -/
theorem waits_serve (payload : Bytes) (conn : Option Nat) (hs : s.held = false) :
    Follows waitWatch (Waiting.Holding false) (serve config payload conn) s := by
  refine Follows.bind (Q := Waiting.Holding false) ?_
    (fun response s' hs' => Follows.act trivial (fun _ => Follows.ret hs'))
  unfold processRequest
  dsimp only
  split
  · exact waits_local (local_handleInterBrokerRequest _ conn) hs
  · exact waits_handleRequest hs

/-- A round of heartbeats. -/
theorem waits_heartbeat (hs : s.held = false) (helects : s.elects = true) :
    Follows waitWatch (Waiting.Holding false) (heartbeat config) s :=
  Follows.bind (waits_broadcastHeartbeat hs helects) (fun _ _ hs' => Follows.ret hs')

end Waits

end StreamingPlatform
