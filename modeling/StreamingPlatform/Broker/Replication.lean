import StreamingPlatform.Broker.Actions

namespace StreamingPlatform

open ByteString Interleave

/-!
# Broker — replication between brokers (`replication_manager.cpp`)

The calls of `ReplicationManager` that send to other brokers, as programs.  A peer is
addressed by its id: the hosts and ports of a configuration lead to the brokers they
name.
-/

/-- A call that holds the replication mutex from beginning to end. -/
def withLock {α : Type} (body : Program α) : Program α := do
  node .lock
  let r ← body
  node .unlock
  return r

/-- `send_one_shot_to_peer` without a response. -/
def sendOneShotToPeer (peer : ClusterPeer) (payload : Bytes) : Program Bool := do
  match ← net (.send peer.brokerId payload) with
  | .sent _ => return true
  | _ => return false

/-- `send_one_shot_to_peer` with a response; `none` stands for `false`. -/
def exchangeWithPeer (peer : ClusterPeer) (payload : Bytes) : Program (Option Bytes) := do
  match ← net (.send peer.brokerId payload) with
  | .sent conn => net (.receive conn)
  | _ => return none

/-- What follows an exchange with a peer: it is marked as failed or counts as heard of. -/
def recordExchange (peer : ClusterPeer) (ok : Bool) : Program Unit :=
  if ok then node (.handleHeartbeat peer.brokerId) else node (.markFollowerFailed peer.brokerId)

/-! ### Replicating records -/

/-- `build_replication_request`, before encoding. -/
def replicationRequest (topic : Bytes) (partition : Int) (offset : Nat) (message : Bytes) :
    Request :=
  { type := .replicate, topic, partition, message, fetchOffset := offset }

/-- The request of `replicate_batch`, before encoding. -/
def batchRequest (topic : Bytes) (partition : Int) (firstOffset : Nat) (messages : List Bytes) :
    Request :=
  { type := .batchReplicate, topic, partition, fetchOffset := firstOffset, messages }

/-- `replicate_to_peer`. -/
def replicateToPeer (peer : ClusterPeer) (request : Bytes) (topic : Bytes) (partition : Int)
    (offset : Nat) : Program Bool := do
  match ← exchangeWithPeer peer request with
  | none => return false
  | some ackPayload =>
    if ackPayload = [] then return false
    let ack := parseRequest ackPayload
    if ack.type ≠ .ack then return false
    -- the acknowledgement counts for the offset it names, whether or not that is `offset`
    node (.handleAck ack.brokerId (if ack.topic = [] then topic else ack.topic)
      (if ack.topic = [] then partition else ack.partition) ack.fetchOffset)
    return decide (offset ≤ ack.fetchOffset)

/-- One round of the loop of `replicate_message`. -/
def replicateRound (config : BrokerConfig) (request : Bytes) (topic : Bytes) (partition : Int)
    (offset : Nat) (peer : ClusterPeer) : Program Unit := do
  if peer.brokerId = config.brokerId then return ()
  if !(← node (.isPeerAvailable peer.brokerId)) then return ()
  recordExchange peer (← replicateToPeer peer request topic partition offset)

/-- `ReplicationManager::replicate_message`. -/
def replicateMessage (config : BrokerConfig) (topic : Bytes) (partition : Int) (offset : Nat)
    (message : Bytes) : Program Bool :=
  withLock do
    if !(← node .isLeader) then return false
    let request := encodeRequest (replicationRequest topic partition offset message)
    node (.openAcks topic partition offset)
    -- a broker without peers is a majority by itself
    if config.peers = [] then return ← node (.quorumReached topic partition offset)
    config.peers.forM (replicateRound config request topic partition offset)
    node (.quorumReached topic partition offset)

/-- One round of the loop of `replicate_batch`.  Unlike `replicate_message`, an exchange
    that succeeds does not count as a sign of life. -/
def batchRound (config : BrokerConfig) (request : Bytes) (topic : Bytes) (partition : Int)
    (lastOffset : Nat) (peer : ClusterPeer) : Program Unit := do
  if peer.brokerId = config.brokerId then return ()
  if !(← node (.isPeerAvailable peer.brokerId)) then return ()
  match ← exchangeWithPeer peer request with
  | none => node (.markFollowerFailed peer.brokerId)
  | some ackPayload =>
    let ack := parseRequest ackPayload
    if ack.type = .ack ∧ lastOffset ≤ ack.fetchOffset then
      node (.handleAck ack.brokerId topic partition ack.fetchOffset)
    -- an acknowledgement of less than the batch counts as a failure of the peer
    else node (.markFollowerFailed peer.brokerId)

/-- `ReplicationManager::replicate_batch`; the role is checked before the mutex is
    taken, and the last offset is computed in 64 bits. -/
def replicateBatch (config : BrokerConfig) (topic : Bytes) (partition : Int) (firstOffset : Nat)
    (messages : List Bytes) : Program Bool := do
  if !(← node .isLeader) then return false
  if messages = [] then return false
  withLock do
    let lastOffset := (firstOffset + messages.length - 1) % 2 ^ 64
    node (.openAcks topic partition lastOffset)
    let request := encodeRequest (batchRequest topic partition firstOffset messages)
    config.peers.forM (batchRound config request topic partition lastOffset)
    node (.quorumReached topic partition lastOffset)

/-- The append of `handle_replication_request`: the record is written before its offset
    is compared. -/
def appendReplica (topic : Bytes) (partition : Int) (message : Bytes) (expected : Nat) :
    Program Bool := do
  return decide ((← node (.append topic partition message (.replica expected))) = expected)

/-- Its loop over a batch, which stops at the first record at another offset. -/
def appendReplicas (topic : Bytes) (partition : Int) : List Bytes → Nat → Program Bool
  | [], _ => return true
  | message :: messages, expected => do
    if ← appendReplica topic partition message (expected % 2 ^ 64) then
      appendReplicas topic partition messages (expected + 1)
    else return false

/-- `ReplicationManager::handle_replication_request`. -/
def handleReplicationRequest (config : BrokerConfig) (request : Request) (conn : Option Nat) :
    Program Unit := do
  if (← node .isLeader) || (request.type != .replicate && request.type != .batchReplicate) then
    return ()
  if request.topic = [] ∨ request.partition < 0 ∨
      (request.type = .replicate ∧ request.message = []) ∨
      (request.type = .batchReplicate ∧ request.messages = []) then return ()
  let appended ←
    if request.type = .replicate then
      appendReplica request.topic request.partition request.message request.fetchOffset
    else appendReplicas request.topic request.partition request.messages request.fetchOffset
  -- no negative answer: the server's own response follows instead of an acknowledgement
  if !appended then return ()
  let offset := if request.type = .batchReplicate then
      (request.fetchOffset + (request.messages.length - 1)) % 2 ^ 64
    else request.fetchOffset
  net (.sendAck conn { type := .ack, topic := request.topic, partition := request.partition,
                       fetchOffset := offset, brokerId := config.brokerId })

/-- The loop of `wait_for_quorum`, `n` times before the deadline. -/
def pollQuorum (topic : Bytes) (partition : Int) (offset : Nat) : Nat → Program Bool
  | 0 => node (.quorumReached topic partition offset)
  | n + 1 => do
    if ← node (.quorumReached topic partition offset) then return true
    pollQuorum topic partition offset n

/-- `ReplicationManager::wait_for_quorum`. -/
def waitForQuorum (topic : Bytes) (partition : Int) (offset : Nat) : Program Bool := do
  pollQuorum topic partition offset (← node .polls)

/-! ### Commits and heartbeats -/

/-- `build_commit_request`, before encoding. -/
def commitRequest (topic : Bytes) (partition : Int) (offset : Nat) : Request :=
  { type := .commit, topic, partition, fetchOffset := offset }

/-- One round of the loop of `broadcast_commit`. -/
def commitRound (config : BrokerConfig) (request : Bytes) (peer : ClusterPeer) :
    Program Unit := do
  if peer.brokerId = config.brokerId then return ()
  if !(← node (.isPeerAvailable peer.brokerId)) then return ()
  recordExchange peer (← sendOneShotToPeer peer request)

/-- `ReplicationManager::broadcast_commit`. -/
def broadcastCommit (config : BrokerConfig) (topic : Bytes) (partition : Int) (offset : Nat) :
    Program Unit :=
  withLock do
    -- the role may have changed since the produce was accepted
    if !(← node .isLeader) then return ()
    let request := encodeRequest (commitRequest topic partition offset)
    config.peers.forM (commitRound config request)

/-- `ReplicationManager::handle_commit_request`. -/
def handleCommitRequest (request : Request) : Program Unit := do
  if request.type ≠ .commit then return ()
  if request.topic = [] ∨ request.partition < 0 then return ()
  node (.markCommitted request.topic request.partition request.fetchOffset)

/-- One round of the loop of `broadcast_heartbeat`, which also tries failed peers. -/
def heartbeatRound (config : BrokerConfig) (request : Bytes) (peer : ClusterPeer) :
    Program Unit := do
  if peer.brokerId = config.brokerId then return ()
  recordExchange peer (← sendOneShotToPeer peer request)

/-- `ReplicationManager::broadcast_heartbeat`. -/
def broadcastHeartbeat (config : BrokerConfig) : Program Unit :=
  withLock do
    node .maybeElectLeader
    -- the timeouts are checked twice, once inside the election and once after it
    node .failExpired
    let request := encodeRequest { type := .heartbeat, brokerId := config.brokerId }
    config.peers.forM (heartbeatRound config request)

end StreamingPlatform
