import StreamingPlatform.Cluster.Exchanges
import StreamingPlatform.Storage.SeparateDirectories

namespace StreamingPlatform

open ByteString

/-!
# Cluster — what topic-partitions have to do with each other

The maps of a broker are by `topic-partition` and by `topic-partition:offset`, and digits hold
neither `-` nor `:`, so that no two topic-partitions have a key in common.  An operation on
one of them leaves alone

* what the replication manager knows of another one (`Components.known_exec`);
* the log of another one and its files, if the two logs are in different directories
  (`Components.view_exec`).

In one directory two logs have streams on the same files, and a record that waits in the
buffer of one stream is written over what the other one wrote meanwhile (`SharedFile`).
-/

namespace ReplicationManager

section Calls

variable (config : BrokerConfig) (answers : Int → Option Bytes) (m : ReplicationManager)

/-- The loops of a broker over its peers. -/
def visitPeers (note : Int → ReplicationManager → ReplicationManager) : ReplicationManager :=
  (config.peers.map ClusterPeer.brokerId).foldl (visited config.brokerId note) m

/-- What `replicate_message` leaves at a leader whose peers give `answers`. -/
def replicateMessage (topic : Bytes) (partition : Int) (offset now : Nat) : ReplicationManager :=
  (m.openAcks config topic partition offset).visitPeers config
    (fun p => noteReplication now topic partition offset p (answers p))

/-- What `replicate_batch` leaves at a leader. -/
def replicateBatch (topic : Bytes) (partition : Int) (firstOffset : Nat) (messages : List Bytes) :
    ReplicationManager :=
  if messages = [] then m
  else
    let lastOffset := (firstOffset + messages.length - 1) % 2 ^ 64
    (m.openAcks config topic partition lastOffset).visitPeers config
      (fun p => noteBatch topic partition lastOffset p (answers p))

/-- What `broadcast_commit` leaves at a leader. -/
def broadcastCommit (now : Nat) : ReplicationManager :=
  m.visitPeers config (fun p => noteCommit now p (answers p))

/-- What `broadcast_heartbeat` leaves after the election; failed peers are sent to as well. -/
def broadcastHeartbeat (now : Nat) : ReplicationManager :=
  (config.peers.map ClusterPeer.brokerId).foldl
    (fun m p => if p = config.brokerId then m else noteExchange now p (answers p).isSome m)
    (m.failExpired now)

end Calls

end ReplicationManager

/-! ### The calls of the programs -/

section Programs

variable {τ τ' : Nat} {b : Int} {reachable : Int → Bool} {w w' : Brokers} {topic : Bytes}
  {partition : Int} {reply : Node → Node × Bytes}
  (hid : (w.nodes b).config.brokerId = b) (hfree : (w.nodes b).mutex = none)
  (hleader : (w.nodes b).isLeader = true)
  (hnodup : ((w.nodes b).config.peers.map ClusterPeer.brokerId).Nodup)

include hid hfree hleader hnodup

/-- A run of `replicate_message` is the call of the manager. -/
theorem replication_replicateMessage {offset : Nat} {message : Bytes} {ok : Bool}
    (hpeers : w.Answer τ' b reachable
      (encodeRequest (replicationRequest topic partition offset message)) reply)
    (h : (replicateMessage (w.nodes b).config topic partition offset message).Runs
      (Brokers.step τ τ' b reachable) w ok w') :
    (w'.nodes b).replication = (w.nodes b).replication.replicateMessage (w.nodes b).config
      (fun p => (w.answered reachable p (reply (w.nodes p))).1) topic partition offset
      (w.nodes b).now := by
  obtain ⟨-, rfl⟩ := (runs_replicateMessage hid hfree hleader hnodup hpeers rfl).mp h
  rw [Brokers.visitAll_leader hfree hnodup, ReplicationManager.replicateMessage,
    ReplicationManager.visitPeers, hid]

/-- A run of `replicate_batch` is the call of the manager. -/
theorem replication_replicateBatch {firstOffset : Nat} {messages : List Bytes} {ok : Bool}
    (hmessages : messages ≠ [])
    (hpeers : w.Answer τ' b reachable
      (encodeRequest (batchRequest topic partition firstOffset messages)) reply)
    (h : (replicateBatch (w.nodes b).config topic partition firstOffset messages).Runs
      (Brokers.step τ τ' b reachable) w ok w') :
    (w'.nodes b).replication = (w.nodes b).replication.replicateBatch (w.nodes b).config
      (fun p => (w.answered reachable p (reply (w.nodes p))).1) topic partition firstOffset
      messages := by
  obtain ⟨-, rfl⟩ := (runs_replicateBatch hid hfree hleader hmessages rfl hnodup hpeers rfl).mp h
  rw [Brokers.visitAll_leader hfree hnodup, ReplicationManager.replicateBatch, if_neg hmessages,
    ReplicationManager.visitPeers, hid]

end Programs

/-! ### What a manager knows of a topic-partition -/

/-- The acknowledgements among the answers are for this topic-partition: `replicate_to_peer`
    counts an acknowledgement where its topic says, and here if it has none. -/
def AnswersFor (topic : Bytes) (partition : Int) (answers : Int → Option Bytes) : Prop :=
  ∀ p payload, answers p = some payload → (parseRequest payload).type = .ack →
    (parseRequest payload).topic ≠ [] →
      (parseRequest payload).topic = topic ∧ (parseRequest payload).partition = partition

namespace ReplicationManager

/-- What the calls on a topic-partition depend on: its acknowledgements and its commit
    index. -/
def known (topic : Bytes) (partition : Int) (m : ReplicationManager) :
    (Nat → Option Nat × List Int) × Option Nat :=
  (fun offset => (m.ackCounts (makeAckKey topic partition offset),
      m.ackFollowers (makeAckKey topic partition offset)),
    m.commitIndexByLog (makeKey topic partition))

section Known

variable {topic topic' : Bytes} {partition partition' : Int} {m m' : ReplicationManager}

/-- Whether an offset is committed is part of what is known of its log. -/
theorem isCommitted_eq_of_known (h : m'.known topic partition = m.known topic partition)
    (offset : Nat) :
    m'.isCommitted topic partition offset = m.isCommitted topic partition offset := by
  have hcommit : m'.commitIndexByLog (makeKey topic partition)
      = m.commitIndexByLog (makeKey topic partition) := congrArg Prod.snd h
  unfold isCommitted
  rw [hcommit]

/-- So is whether it has its quorum. -/
theorem quorumReached_eq_of_known (h : m'.known topic partition = m.known topic partition)
    (config : BrokerConfig) (offset : Nat) :
    m'.quorumReached config topic partition offset
      = m.quorumReached config topic partition offset := by
  have hcount : m'.ackCounts (makeAckKey topic partition offset)
      = m.ackCounts (makeAckKey topic partition offset) :=
    congrArg (fun known => (known.1 offset).1) h
  unfold quorumReached
  rw [hcount]

theorem known_noteExchange (now : Nat) (p : Int) (ok : Bool) :
    (noteExchange now p ok m).known topic partition = m.known topic partition := by
  cases ok <;> rfl

/-- A loop keeps what each of its steps keeps. -/
theorem known_foldl {step : ReplicationManager → Int → ReplicationManager}
    (hstep : ∀ m p, (step m p).known topic partition = m.known topic partition)
    (ids : List Int) (m : ReplicationManager) :
    (ids.foldl step m).known topic partition = m.known topic partition := by
  induction ids generalizing m with
  | nil => rfl
  | cons p ids ih => exact (ih _).trans (hstep m p)

/-- So does the walk over the peers. -/
theorem known_visitPeers {note : Int → ReplicationManager → ReplicationManager}
    (hnote : ∀ p m, (note p m).known topic partition = m.known topic partition)
    (config : BrokerConfig) (m : ReplicationManager) :
    (m.visitPeers config note).known topic partition = m.known topic partition := by
  refine known_foldl (fun m p => ?_) _ m
  unfold visited
  split
  · rfl
  · exact hnote p m

/-! Two topic-partitions -/

variable (hp : 0 ≤ partition) (hp' : 0 ≤ partition')
  (hne : (topic, partition) ≠ (topic', partition'))

include hp hp' hne

/-- Different logs have different keys. -/
theorem makeKey_ne : makeKey topic' partition' ≠ makeKey topic partition := by
  intro h
  obtain ⟨rfl, rfl⟩ := makeKey_injective hp' hp h
  exact hne rfl

/-- Their acknowledgements have different keys as well. -/
theorem makeAckKey_ne (offset offset' : Nat) :
    makeAckKey topic' partition' offset' ≠ makeAckKey topic partition offset := by
  intro h
  obtain ⟨rfl, rfl, -⟩ := eq_of_makeAckKey_eq hp' hp h
  exact hne rfl

/-- Changing the acknowledgements of one key does nothing to another topic-partition. -/
theorem known_update (offset : Nat) (count : Option Nat) (followers : List Int)
    (followerAckOffsets : Int → Option Nat) :
    known topic' partition' { m with
        ackCounts := Function.update m.ackCounts (makeAckKey topic partition offset) count
        ackFollowers :=
          Function.update m.ackFollowers (makeAckKey topic partition offset) followers
        followerAckOffsets }
      = m.known topic' partition' := by
  have hkeys : ∀ offset', makeAckKey topic' partition' offset'
      ≠ makeAckKey topic partition offset := makeAckKey_ne hp hp' hne offset
  unfold known
  simp only [Function.update_of_ne (hkeys _)]

theorem known_openAcks (config : BrokerConfig) (offset : Nat) :
    (m.openAcks config topic partition offset).known topic' partition'
      = m.known topic' partition' :=
  known_update hp hp' hne offset _ _ _

theorem known_handleAck (followerId : Int) (offset : Nat) :
    (m.handleAck followerId topic partition offset).known topic' partition'
      = m.known topic' partition' := by
  unfold handleAck
  dsimp only
  split
  · rfl
  · exact known_update hp hp' hne offset _ _ _

theorem known_markCommitted (offset : Nat) :
    (m.markCommitted topic partition offset).known topic' partition'
      = m.known topic' partition' := by
  have hcommit : (m.markCommitted topic partition offset).commitIndexByLog
      (makeKey topic' partition') = m.commitIndexByLog (makeKey topic' partition') := by
    rw [commitIndexByLog_markCommitted, if_neg (makeKey_ne hp hp' hne)]
  exact congrArg (Prod.mk _) hcommit

/-- An answer for one log says nothing about another. -/
theorem known_noteAck {answers : Int → Option Bytes} (hfor : AnswersFor topic partition answers)
    (p : Int) (m : ReplicationManager) :
    (noteAck topic partition (answers p) m).known topic' partition'
      = m.known topic' partition' := by
  cases hanswer : answers p with
  | none => rfl
  | some payload =>
    rw [noteAck]
    split
    · rfl
    · next hack =>
      obtain ⟨-, htype⟩ := not_or.mp hack
      dsimp only
      by_cases hempty : (parseRequest payload).topic = []
      · rw [if_pos hempty, if_pos hempty]
        exact known_handleAck hp hp' hne _ _
      · obtain ⟨htopic, hpartition⟩ := hfor p payload hanswer (not_not.mp htype) hempty
        rw [if_neg hempty, if_neg hempty, htopic, hpartition]
        exact known_handleAck hp hp' hne _ _

theorem known_noteBatch (lastOffset : Nat) (p : Int) (answer : Option Bytes)
    (m : ReplicationManager) :
    (noteBatch topic partition lastOffset p answer m).known topic' partition'
      = m.known topic' partition' := by
  cases answer with
  | none => rfl
  | some payload =>
    unfold noteBatch
    dsimp only
    split
    · exact known_handleAck hp hp' hne _ _
    · rfl

/-- `replicate_message` learns nothing about another log. -/
theorem known_replicateMessage {answers : Int → Option Bytes}
    (hfor : AnswersFor topic partition answers) (config : BrokerConfig) (offset now : Nat)
    (m : ReplicationManager) :
    (m.replicateMessage config answers topic partition offset now).known topic' partition'
      = m.known topic' partition' := by
  unfold replicateMessage
  rw [known_visitPeers, known_openAcks hp hp' hne]
  intro p m
  unfold noteReplication
  rw [known_noteExchange, known_noteAck hp hp' hne hfor]

/-- Nor does `replicate_batch`. -/
theorem known_replicateBatch (answers : Int → Option Bytes) (config : BrokerConfig)
    (firstOffset : Nat) (messages : List Bytes) (m : ReplicationManager) :
    (m.replicateBatch config answers topic partition firstOffset messages).known topic' partition'
      = m.known topic' partition' := by
  unfold replicateBatch
  split
  · rfl
  · dsimp only
    rw [known_visitPeers, known_openAcks hp hp' hne]
    exact fun p m => known_noteBatch hp hp' hne _ p _ m

end Known

end ReplicationManager

/-! ### Operations -/

/-- The operations of a storage engine and a replication manager.  What the peers answer is
    given by their ids, with `none` for a peer that could not be reached; what is only sent to
    them is left out.  `now` is the clock. -/
inductive Operation where
  | append (topic : Bytes) (partition : Int) (message : Bytes)
  | fetch (topic : Bytes) (partition : Int) (offset : Nat)
  | flush (topic : Bytes) (partition : Int)
  | replicateMessage (topic : Bytes) (partition : Int) (offset : Nat)
      (answers : Int → Option Bytes) (now : Nat)
  | replicateBatch (topic : Bytes) (partition : Int) (firstOffset : Nat) (messages : List Bytes)
      (answers : Int → Option Bytes)
  | handleReplicationRequest (request : Request)
  | handleAck (followerId : Int) (topic : Bytes) (partition : Int) (offset : Nat)
  | markCommitted (topic : Bytes) (partition : Int) (offset : Nat)
  | broadcastCommit (topic : Bytes) (partition : Int) (answers : Int → Option Bytes) (now : Nat)
  | handleCommitRequest (request : Request)
  | maybeElectLeader (now : Nat)
  | broadcastHeartbeat (answers : Int → Option Bytes) (now : Nat)
  | handleHeartbeat (now : Nat) (brokerId : Int)
  | markFollowerFailed (brokerId : Int)

/-- An operation on this topic-partition. -/
def Operation.On (topic : Bytes) (partition : Int) : Operation → Prop
  | .append t p _ | .fetch t p _ | .flush t p | .replicateBatch t p _ _ _ | .handleAck _ t p _
  | .markCommitted t p _ | .broadcastCommit t p _ _ => t = topic ∧ p = partition
  | .replicateMessage t p _ answers _ => (t = topic ∧ p = partition) ∧ AnswersFor t p answers
  | .handleReplicationRequest request | .handleCommitRequest request =>
    request.topic = topic ∧ request.partition = partition
  | .maybeElectLeader _ | .broadcastHeartbeat _ _ | .handleHeartbeat _ _
  | .markFollowerFailed _ => False

/-- The loop of `handle_replication_request` over a batch. -/
def SharedEngine.appendReplicas {δ : Type} [DecidableEq δ] (settings : EngineSettings δ)
    (topic : Bytes) (partition : Int) : List Bytes → Nat → SharedEngine δ → SharedEngine δ
  | [], _, engine => engine
  | message :: messages, expected, engine =>
    let r := engine.append settings topic partition message
    if r.1 = expected % 2 ^ 64 then
      appendReplicas settings topic partition messages (expected + 1) r.2
    else r.2

/-- The storage engine and the replication manager of a broker. -/
structure Components (δ : Type) where
  config : BrokerConfig
  type : BrokerType
  leaderBrokerId : Int
  engine : SharedEngine δ
  replication : ReplicationManager

namespace Components

variable {δ : Type} [DecidableEq δ] (settings : EngineSettings δ)

/-- A broker that has just been started on a disk. -/
def start (config : BrokerConfig) (type : BrokerType) (leaderBrokerId : Int) (now : Nat)
    (disk : δ → List File) : Components δ where
  config := config
  type := type
  leaderBrokerId := leaderBrokerId
  engine := { disk := disk }
  replication := ReplicationManager.construct config now

/-- The manager changes. -/
def manage (f : ReplicationManager → ReplicationManager) (c : Components δ) : Components δ :=
  { c with replication := f c.replication }

/-- The manager of a leader changes. -/
def lead (f : ReplicationManager → ReplicationManager) (c : Components δ) : Components δ :=
  if c.type = .leader then c.manage f else c

/-- `ReplicationManager::maybe_elect_leader`. -/
def maybeElectLeader (now : Nat) (c : Components δ) : Components δ :=
  let r := c.replication.maybeElectLeader c.config c.leaderBrokerId now
  match r.1 with
  | none => { c with replication := r.2 }
  | some id =>
    { c with
      replication := r.2
      leaderBrokerId := id
      type := if id = c.config.brokerId then .leader else .follower }

/-- `ReplicationManager::handle_replication_request`. -/
def handleReplicationRequest (request : Request) (c : Components δ) : Components δ :=
  if c.type = .leader ∨ (request.type ≠ .replicate ∧ request.type ≠ .batchReplicate) then c
  else if request.topic = [] ∨ request.partition < 0 ∨
      (request.type = .replicate ∧ request.message = []) ∨
      (request.type = .batchReplicate ∧ request.messages = []) then c
  else if request.type = .replicate then
    { c with
      engine := (c.engine.append settings request.topic request.partition request.message).2 }
  else
    { c with
      engine := c.engine.appendReplicas settings request.topic request.partition request.messages
        request.fetchOffset }

/-- `ReplicationManager::handle_commit_request`. -/
def handleCommitRequest (request : Request) (c : Components δ) : Components δ :=
  if request.type ≠ .commit ∨ request.topic = [] ∨ request.partition < 0 then c
  else c.manage (fun m => m.markCommitted request.topic request.partition request.fetchOffset)

/-- One operation. -/
def exec (c : Components δ) : Operation → Components δ
  | .append topic partition message =>
    { c with engine := (c.engine.append settings topic partition message).2 }
  | .fetch topic partition offset =>
    { c with engine := (c.engine.fetch settings topic partition offset).2 }
  | .flush topic partition => { c with engine := c.engine.flush settings topic partition }
  | .replicateMessage topic partition offset answers now =>
    c.lead (fun m => m.replicateMessage c.config answers topic partition offset now)
  | .replicateBatch topic partition firstOffset messages answers =>
    c.lead (fun m => m.replicateBatch c.config answers topic partition firstOffset messages)
  | .handleReplicationRequest request => c.handleReplicationRequest settings request
  | .handleAck followerId topic partition offset =>
    c.lead (fun m => m.handleAck followerId topic partition offset)
  | .markCommitted topic partition offset =>
    c.manage (fun m => m.markCommitted topic partition offset)
  | .broadcastCommit _ _ answers now => c.lead (fun m => m.broadcastCommit c.config answers now)
  | .handleCommitRequest request => c.handleCommitRequest request
  | .maybeElectLeader now => c.maybeElectLeader now
  | .broadcastHeartbeat answers now =>
    (c.maybeElectLeader now).manage (fun m => m.broadcastHeartbeat c.config answers now)
  | .handleHeartbeat now brokerId => c.manage (fun m => m.handleHeartbeat now brokerId)
  | .markFollowerFailed brokerId => c.manage (fun m => m.markFollowerFailed brokerId)

theorem engine_append (c : Components δ) (topic : Bytes) (partition : Int) (message : Bytes) :
    (c.exec settings (.append topic partition message)).engine
      = (c.engine.append settings topic partition message).2 := rfl

theorem engine_fetch (c : Components δ) (topic : Bytes) (partition : Int) (offset : Nat) :
    (c.exec settings (.fetch topic partition offset)).engine
      = (c.engine.fetch settings topic partition offset).2 := rfl

/-- Operations, one after the other. -/
def run (c : Components δ) (ops : List Operation) : Components δ := ops.foldl (exec settings) c

end Components

/-! ### An operation on another topic-partition -/

namespace Components

section Frame

variable {δ : Type} {topic topic' : Bytes} {partition partition' : Int} {c : Components δ}

/-- Nor does a leader's call that learns nothing. -/
theorem known_lead {f : ReplicationManager → ReplicationManager}
    (hf : (f c.replication).known topic' partition' = c.replication.known topic' partition') :
    (c.lead f).replication.known topic' partition' = c.replication.known topic' partition' := by
  unfold lead
  split
  · exact hf
  · rfl

/-- The engine is not touched by the manager. -/
theorem engine_lead (f : ReplicationManager → ReplicationManager) :
    (c.lead f).engine = c.engine := by
  unfold lead
  split <;> rfl

/-- COMMIT does not touch the storage. -/
theorem engine_handleCommitRequest (request : Request) :
    (c.handleCommitRequest request).engine = c.engine := by
  unfold handleCommitRequest
  split <;> rfl

/-- COMMIT tells nothing about another log. -/
theorem known_handleCommitRequest (hp : 0 ≤ partition) (hp' : 0 ≤ partition')
    (hne : (topic, partition) ≠ (topic', partition')) {request : Request}
    (htopic : request.topic = topic) (hpartition : request.partition = partition) :
    (c.handleCommitRequest request).replication.known topic' partition'
      = c.replication.known topic' partition' := by
  unfold handleCommitRequest
  split
  · rfl
  · rw [htopic, hpartition]
    exact ReplicationManager.known_markCommitted hp hp' hne _

variable [DecidableEq δ] {settings : EngineSettings δ}

/-- A follower's appends leave a log in another directory alone. -/
theorem view_appendReplicas {key' : Bytes} (hkey : key' ≠ makeKey topic partition)
    (hdir : settings.directory key' ≠ settings.directory (makeKey topic partition))
    (messages : List Bytes) (expected : Nat) (engine : SharedEngine δ) :
    (engine.appendReplicas settings topic partition messages expected).view settings key'
      = engine.view settings key' := by
  -- a round appends, and what was appended to is another log
  induction messages generalizing expected engine with
  | nil => rfl
  | cons message messages ih =>
    unfold SharedEngine.appendReplicas
    dsimp only
    split
    · exact (ih _ _).trans (SharedEngine.view_append hkey hdir message)
    · exact SharedEngine.view_append hkey hdir message

/-- A follower that appends notes nothing in its manager. -/
theorem replication_handleReplicationRequest (request : Request) :
    (c.handleReplicationRequest settings request).replication = c.replication := by
  unfold handleReplicationRequest
  repeat' split
  all_goals rfl

variable (hp : 0 ≤ partition) (hp' : 0 ≤ partition')
  (hne : (topic, partition) ≠ (topic', partition')) {op : Operation} (hop : op.On topic partition)

include hp hp' hne hop

/-- **The manager** of a broker after an operation on one topic-partition knows of every other
    one what it knew before. -/
theorem known_exec :
    (c.exec settings op).replication.known topic' partition'
      = c.replication.known topic' partition' := by
  cases op with
  | append _ _ _ | fetch _ _ _ | flush _ _ => rfl
  | replicateMessage _ _ offset answers now =>
    obtain ⟨⟨rfl, rfl⟩, hfor⟩ := hop
    exact known_lead (ReplicationManager.known_replicateMessage hp hp' hne hfor _ offset now _)
  | replicateBatch _ _ firstOffset messages answers =>
    obtain ⟨rfl, rfl⟩ := hop
    exact known_lead
      (ReplicationManager.known_replicateBatch hp hp' hne answers _ firstOffset messages _)
  | handleReplicationRequest request =>
    exact congrArg (ReplicationManager.known topic' partition')
      (replication_handleReplicationRequest request)
  | handleAck followerId _ _ offset =>
    obtain ⟨rfl, rfl⟩ := hop
    exact known_lead (ReplicationManager.known_handleAck hp hp' hne followerId offset)
  | markCommitted _ _ offset =>
    obtain ⟨rfl, rfl⟩ := hop
    exact ReplicationManager.known_markCommitted hp hp' hne offset
  | broadcastCommit _ _ answers now =>
    exact known_lead (ReplicationManager.known_visitPeers
      (fun p m => ReplicationManager.known_noteExchange now p _) _ _)
  | handleCommitRequest request => exact known_handleCommitRequest hp hp' hne hop.1 hop.2
  | maybeElectLeader _ | broadcastHeartbeat _ _ | handleHeartbeat _ _ | markFollowerFailed _ =>
    exact hop.elim

/-- **The engine** of a broker after an operation on one topic-partition has the log of every
    other one and its files as before, if that log is in another directory. -/
theorem view_exec
    (hdir : settings.directory (makeKey topic' partition')
      ≠ settings.directory (makeKey topic partition)) :
    (c.exec settings op).engine.view settings (makeKey topic' partition')
      = c.engine.view settings (makeKey topic' partition') := by
  have hkey := ReplicationManager.makeKey_ne hp hp' hne
  cases op with
  | append _ _ message =>
    obtain ⟨rfl, rfl⟩ := hop
    exact SharedEngine.view_append hkey hdir message
  | fetch _ _ offset =>
    obtain ⟨rfl, rfl⟩ := hop
    exact SharedEngine.view_fetch hkey hdir offset
  | flush _ _ =>
    obtain ⟨rfl, rfl⟩ := hop
    exact SharedEngine.view_flush hkey hdir
  | handleReplicationRequest request =>
    obtain ⟨rfl, rfl⟩ := hop
    show (c.handleReplicationRequest settings request).engine.view settings _ = _
    unfold handleReplicationRequest
    repeat' split
    · rfl
    · rfl
    · exact SharedEngine.view_append hkey hdir request.message
    · exact view_appendReplicas hkey hdir request.messages request.fetchOffset c.engine
  -- what a leader notes about replication does not touch the storage
  | replicateMessage _ _ _ _ _ | replicateBatch _ _ _ _ _ | handleAck _ _ _ _
  | broadcastCommit _ _ _ _ =>
    exact congrArg (fun engine => SharedEngine.view settings engine _) (engine_lead _)
  | handleCommitRequest request =>
    exact congrArg (fun engine => SharedEngine.view settings engine _)
      (engine_handleCommitRequest request)
  | markCommitted _ _ _ => rfl
  | maybeElectLeader _ | broadcastHeartbeat _ _ | handleHeartbeat _ _ | markFollowerFailed _ =>
    exact hop.elim

end Frame

end Components

/-! ### Two logs on one file -/

namespace SharedFile

/-- `main` runs with segments of 1 MiB, and the engine syncs after 64 appends. -/
abbrev maxSegmentSize : Nat := 1024 * 1024

abbrev syncBatchSize : Nat := 64

/-- The log that an append works on. -/
abbrev opened : Option StreamLog × List File → Session :=
  SharedEngine.opened maxSegmentSize syncBatchSize fitsBuffer

/-- The second log has appended `a`, in an empty directory. -/
def a : Session := ((opened (none, [])).append fitsBuffer [97]).2

/-- The first log is opened on what the second one has written, and appends `b`, which waits
    for the end of the file as it is now. -/
def b : Session := ((opened (none, a.directory)).append fitsBuffer [98]).2

/-- The second log appends `c`, at the same end. -/
def c : Session := ((opened (some a.toStreamLog, b.directory)).append fitsBuffer [99]).2

/-- The second log reads `c`, which puts it into the file. -/
def readC : Session := (c.fetch 1).2

/-- The first log reads its own first record, which puts `b` over `c`. -/
def readB : Session := (({ b with directory := readC.directory } : Session).fetch 0).2

/-- Before the other log has written, the record is read. -/
theorem fetch_before : (readC.fetch 1).1 = .ok [99] := by decide +kernel

/-- After it, the bytes of the other log are. -/
theorem fetch_after :
    (({ readC with directory := readB.directory } : Session).fetch 1).1 = .ok [98] := by
  decide +kernel

/-- The settings of a broker, for any way to find a directory. -/
def settings {δ : Type} (directory : Bytes → δ) : EngineSettings δ :=
  ⟨directory, maxSegmentSize, syncBatchSize, fitsBuffer⟩

/-- **Two logs meet**: what the second one reads at offset 1 is `c`, and `b` as soon as the
    first one has been read. -/
theorem fetch_changed {δ : Type} [DecidableEq δ] {directory : Bytes → δ} {topic topic' : Bytes}
    {partition partition' : Int} (hkey : makeKey topic' partition' ≠ makeKey topic partition)
    (hdir : directory (makeKey topic' partition') = directory (makeKey topic partition))
    {e₀ e₁ e₂ e₃ e₄ e₅ : SharedEngine δ}
    (h₀ : ∀ key, e₀.view (settings directory) key = (none, []))
    (h₁ : e₁ = (e₀.append (settings directory) topic' partition' [97]).2)
    (h₂ : e₂ = (e₁.append (settings directory) topic partition [98]).2)
    (h₃ : e₃ = (e₂.append (settings directory) topic' partition' [99]).2)
    (h₄ : e₄ = (e₃.fetch (settings directory) topic' partition' 1).2)
    (h₅ : e₅ = (e₄.fetch (settings directory) topic partition 0).2) :
    (e₄.fetch (settings directory) topic' partition' 1).1 = .ok [99] ∧
      (e₅.fetch (settings directory) topic' partition' 1).1 = .ok [98] := by
  -- what each of the two logs is after a call, and the files that both of them see
  have hfirst₁ : e₁.view (settings directory) (makeKey topic partition) = (none, a.directory) :=
    h₁ ▸ SharedEngine.view_append_neighbour hkey.symm hdir.symm (h₀ _) (h₀ _) [97] rfl
  have hsecond₁ : e₁.view (settings directory) (makeKey topic' partition')
      = (some a.toStreamLog, a.directory) :=
    h₁ ▸ SharedEngine.view_append_self (h₀ _) [97] rfl
  have hfirst₂ : e₂.view (settings directory) (makeKey topic partition)
      = (some b.toStreamLog, b.directory) :=
    h₂ ▸ SharedEngine.view_append_self hfirst₁ [98] rfl
  have hsecond₂ : e₂.view (settings directory) (makeKey topic' partition')
      = (some a.toStreamLog, b.directory) :=
    h₂ ▸ SharedEngine.view_append_neighbour hkey hdir hfirst₁ hsecond₁ [98] rfl
  have hfirst₃ : e₃.view (settings directory) (makeKey topic partition)
      = (some b.toStreamLog, c.directory) :=
    h₃ ▸ SharedEngine.view_append_neighbour hkey.symm hdir.symm hsecond₂ hfirst₂ [99] rfl
  have hsecond₃ : e₃.view (settings directory) (makeKey topic' partition')
      = (some c.toStreamLog, c.directory) :=
    h₃ ▸ SharedEngine.view_append_self hsecond₂ [99] rfl
  have hfirst₄ : e₄.view (settings directory) (makeKey topic partition)
      = (some b.toStreamLog, readC.directory) :=
    h₄ ▸ SharedEngine.view_fetch_neighbour hkey.symm hdir.symm hsecond₃ hfirst₃ 1 rfl
  have hsecond₄ : e₄.view (settings directory) (makeKey topic' partition')
      = (some readC.toStreamLog, readC.directory) :=
    h₄ ▸ SharedEngine.view_fetch_self hsecond₃ 1 rfl
  have hsecond₅ : e₅.view (settings directory) (makeKey topic' partition')
      = (some readC.toStreamLog, readB.directory) :=
    h₅ ▸ SharedEngine.view_fetch_neighbour hkey hdir hfirst₄ hsecond₄ 0 rfl
  exact ⟨(SharedEngine.fetch_of_view hsecond₄ 1).trans fetch_before,
    (SharedEngine.fetch_of_view hsecond₅ 1).trans fetch_after⟩

end SharedFile

/-! ### Isolation -/

section Isolation

variable (cwd : List Bytes) (dataDirectory topic : Bytes) (partition : Int) (topic' : Bytes)
  (partition' : Int)

/-- In every run of a broker, an operation on the first topic-partition changes nothing for
    `is_committed` and `quorum_reached` of the second. -/
def RepliesKept : Prop :=
  ∀ (settings : EngineSettings (List Bytes)) (config : BrokerConfig) (type : BrokerType)
    (leaderBrokerId : Int) (now : Nat) (disk : List Bytes → List File) (ops : List Operation)
    (op : Operation), op.On topic partition →
      let c := (Components.start config type leaderBrokerId now disk).run settings ops
      ∀ offset,
        (c.exec settings op).replication.isCommitted topic' partition' offset
            = c.replication.isCommitted topic' partition' offset ∧
          (c.exec settings op).replication.quorumReached config topic' partition' offset
            = c.replication.quorumReached config topic' partition' offset

/-- In every run of a broker, whatever its settings and its disk, an operation on the first
    topic-partition changes nothing for `fetch` of the second. -/
def FetchKept : Prop :=
  ∀ (maxSegmentSize syncBatchSize : Nat) (buffers : Nat → Bool) (config : BrokerConfig)
    (type : BrokerType) (leaderBrokerId : Int) (now : Nat) (disk : List Bytes → List File)
    (ops : List Operation) (op : Operation), op.On topic partition →
      let settings := engineSettings cwd dataDirectory maxSegmentSize syncBatchSize buffers
      let c := (Components.start config type leaderBrokerId now disk).run settings ops
      ∀ offset,
        ((c.exec settings op).engine.fetch settings topic' partition' offset).1
          = (c.engine.fetch settings topic' partition' offset).1

variable {cwd dataDirectory topic partition topic' partition'} (hp : 0 ≤ partition)
  (hp' : 0 ≤ partition') (hne : (topic, partition) ≠ (topic', partition'))

include hp hp' hne

/-- What is answered about another log never changes. -/
theorem repliesKept : RepliesKept topic partition topic' partition' := by
  intro settings config type leaderBrokerId now disk ops op hop c offset
  have hknown : (c.exec settings op).replication.known topic' partition'
      = c.replication.known topic' partition' := Components.known_exec hp hp' hne hop
  exact ⟨ReplicationManager.isCommitted_eq_of_known hknown offset,
    ReplicationManager.quorumReached_eq_of_known hknown config offset⟩

/-- A fetch of another log stays the same if its directory is another one. -/
theorem fetchKept_of_directories (hdir : logDirectory cwd dataDirectory topic partition
      ≠ logDirectory cwd dataDirectory topic' partition') :
    FetchKept cwd dataDirectory topic partition topic' partition' := by
  intro maxSegmentSize syncBatchSize buffers config type leaderBrokerId now disk ops op hop
    settings c offset
  have hview : (c.exec settings op).engine.view settings (makeKey topic' partition')
      = c.engine.view settings (makeKey topic' partition') :=
    Components.view_exec hp hp' hne hop hdir.symm
  exact SharedEngine.fetch_eq_of_view hview offset

/-- In one directory, what is read from one log changes what the other one gives. -/
theorem not_fetchKept_of_directories (hdir : logDirectory cwd dataDirectory topic partition
      = logDirectory cwd dataDirectory topic' partition') :
    ¬ FetchKept cwd dataDirectory topic partition topic' partition' := by
  intro hkept
  have hsame := hkept SharedFile.maxSegmentSize SharedFile.syncBatchSize fitsBuffer
    ⟨0, 0, [], []⟩ .leader 0 0 (fun _ => [])
    [.append topic' partition' [97], .append topic partition [98],
      .append topic' partition' [99], .fetch topic' partition' 1]
    (.fetch topic partition 0) ⟨rfl, rfl⟩ 1
  have hempty : ∀ key, SharedEngine.view
      (SharedFile.settings (fun key => Path.resolve cwd (logDirectoryForKey dataDirectory key)))
      { disk := fun _ => [] } key = (none, []) := fun _ => rfl
  obtain ⟨hbefore, hafter⟩ := SharedFile.fetch_changed (ReplicationManager.makeKey_ne hp hp' hne)
    hdir.symm hempty rfl rfl rfl rfl rfl
  simp only [Components.run, List.foldl_cons, List.foldl_nil, Components.engine_append,
    Components.engine_fetch] at hsame
  have hresults : (.ok [98] : Except StdException Bytes) = .ok [99] :=
    hafter.symm.trans (hsame.trans hbefore)
  exact absurd hresults (by decide)

end Isolation

/-- **Keys and what they keep apart.** No two topic-partitions share a key, and what the
    manager knows of one of them is left alone by the operations on another one.  For what is
    read from their logs this is so exactly if the two logs are in different directories. -/
theorem topicPartitions_kept_apart_iff (cwd : List Bytes) (dataDirectory : Bytes)
    {topic topic' : Bytes} {partition partition' : Int} (hp : 0 ≤ partition)
    (hp' : 0 ≤ partition') :
    (makeKey topic partition = makeKey topic' partition' →
        topic = topic' ∧ partition = partition') ∧
      (∀ offset offset', makeAckKey topic partition offset = makeAckKey topic' partition' offset' →
        topic = topic' ∧ partition = partition' ∧ offset = offset') ∧
      ((topic, partition) ≠ (topic', partition') →
        RepliesKept topic partition topic' partition' ∧
        (FetchKept cwd dataDirectory topic partition topic' partition' ↔
          logDirectory cwd dataDirectory topic partition
            ≠ logDirectory cwd dataDirectory topic' partition')) := by
  refine ⟨makeKey_injective hp hp', fun offset offset' => eq_of_makeAckKey_eq hp hp',
    fun hne => ⟨repliesKept hp hp' hne, ?_, fetchKept_of_directories hp hp' hne⟩⟩
  intro hkept hdir
  exact not_fetchKept_of_directories hp hp' hne hdir hkept

/-- A topic that looks like a key is kept apart from the one that it looks like. -/
theorem topicPartitions_kept_apart_plain :
    RepliesKept (ofString "a-0") 0 (ofString "a") 0 ∧
      FetchKept [ofString "srv"] (ofString "data") (ofString "a-0") 0 (ofString "a") 0 := by
  obtain ⟨-, -, hapart⟩ := topicPartitions_kept_apart_iff [ofString "srv"] (ofString "data")
    (by decide : (0 : Int) ≤ 0) (by decide : (0 : Int) ≤ 0)
  obtain ⟨hreplies, hfetch⟩ := hapart (by decide : (ofString "a-0", (0 : Int)) ≠ (ofString "a", 0))
  exact ⟨hreplies, hfetch.mpr (by decide +kernel)⟩

/-- The logs of the topics `t` and `./t` are both in `data/t-0`.  After `a0`, `b0` and `a1`
    have been appended in turn and `a1` has been read, a `fetch` from `./t` puts `b0` in the
    place of `a1`. -/
theorem fetch_from_one_topic_changes_another :
    let op := Operation.fetch (ofString "./t") 0 0
    op.On (ofString "./t") 0 ∧
      let settings := engineSettings [ofString "srv"] (ofString "data") (1024 * 1024) 64
        fitsBuffer
      let c := (Components.start ⟨9092, 1, ofString "127.0.0.1", []⟩ .leader 1 0 (fun _ => [])).run
        settings
        [.append (ofString "t") 0 (ofString "a0"), .append (ofString "./t") 0 (ofString "b0"),
          .append (ofString "t") 0 (ofString "a1"), .fetch (ofString "t") 0 1]
      (c.engine.fetch settings (ofString "t") 0 1).1 = .ok (ofString "a1") ∧
        ((c.exec settings op).engine.fetch settings (ofString "t") 0 1).1
          = .ok (ofString "b0") := by
  refine ⟨⟨rfl, rfl⟩, ?_⟩
  decide +kernel

end StreamingPlatform
