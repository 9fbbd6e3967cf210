import StreamingPlatform.Broker.Replication

namespace StreamingPlatform

open ByteString Interleave

/-!
# Broker — the request handlers (`broker.cpp`, `tcp_server.cpp`)

`handleRequest` is the dispatch of client requests, `handleInterBrokerRequest` that of the
other brokers', and `processRequest` what the server does with a payload.  `serve` is the
work of a server thread on one request: process it, then write the response.
-/

/-! ### Forwarding and metadata -/

/-- `Broker::forward_to_leader`. -/
def forwardToLeader (request : Request) : Program Response := do
  match ← node .getLeaderEndpoint with
  | none => return .failure "leader_unknown"
  | some leader =>
    match ← net (.send leader.brokerId (encodeRequest request)) with
    | .unreachable => return .failure "leader_unreachable"
    | .writeFailed => return .failure "leader_write_failed"
    | .sent conn =>
      match ← net (.receive conn) with
      | none => return .failure "leader_read_failed"
      -- the leader's response is passed on as it is, errors included
      | some payload => return parseResponse payload

/-- `Broker::handle_metadata`. -/
def handleMetadata (config : BrokerConfig) : Program Response := do
  match ← node .getLeaderEndpoint with
  | none => return .failure "leader_unknown"
  | some leader =>
    let role := if config.brokerId = leader.brokerId then "leader" else "follower"
    return ⟨true, decimalInt leader.brokerId ++ ofString ":" ++ leader.host ++ ofString ":" ++
      decimalInt leader.port ++ ofString " role:" ++ ofString role ++ ofString " self:" ++
      decimalInt config.brokerId, 0, []⟩

/-! ### Consumer groups -/

/-- `Broker::format_partitions`. -/
def formatPartitions (partitions : List Int) : Bytes :=
  List.intercalate (ofString ",") (partitions.map decimalInt)

/-- The check at the start of the group handlers. -/
def invalidGroupRequest (request : Request) : Prop :=
  request.groupId = [] ∨ request.memberId = [] ∨ request.topic = []

instance (request : Request) : Decidable (invalidGroupRequest request) :=
  inferInstanceAs (Decidable (_ ∨ _))

/-- `Broker::handle_join_group`. -/
def handleJoinGroup (request : Request) : Program Response := do
  if !(← node .isLeader) then return ← forwardToLeader request
  if invalidGroupRequest request then return .failure "invalid_group_request"
  let partitions ← node (.partitionsForTopic request.topic)
  if partitions = [] then return .failure "topic_not_found"
  let assigned ← node (.join request.groupId request.memberId request.topic partitions)
  return ⟨true, ofString "assignment:" ++ formatPartitions assigned, 0, []⟩

/-- `Broker::handle_leave_group`. -/
def handleLeaveGroup (request : Request) : Program Response := do
  if !(← node .isLeader) then return ← forwardToLeader request
  if invalidGroupRequest request then return .failure "invalid_group_request"
  let partitions ← node (.partitionsForTopic request.topic)
  node (.leave request.groupId request.memberId partitions)
  return ⟨true, [], 0, []⟩

/-- The loop of `handle_group_assignment`. -/
def assignedPartitions (request : Request) : List Int → Program (List Int)
  | [] => return []
  | partition :: partitions => do
    let mine ← node (.isAssigned request.groupId request.memberId request.topic partition)
    let rest ← assignedPartitions request partitions
    return if mine then partition :: rest else rest

/-- `Broker::handle_group_assignment`. -/
def handleGroupAssignment (request : Request) : Program Response := do
  if !(← node .isLeader) then return ← forwardToLeader request
  if invalidGroupRequest request then return .failure "invalid_group_request"
  let assigned ← assignedPartitions request (← node (.partitionsForTopic request.topic))
  return ⟨true, ofString "assignment:" ++ formatPartitions assigned, 0, []⟩

/-! ### Fetching -/

/-- `Broker::handle_fetch`. -/
def handleFetch (request : Request) : Program Response := do
  if request.topic = [] then return .failure "empty_topic"
  if request.partition < 0 then return .failure "invalid_partition"
  if !(← node (.isCommitted request.topic request.partition request.fetchOffset)) then
    return .failure "offset_not_committed"
  match ← node (.fetch request.topic request.partition request.fetchOffset) with
  | .error _ => return .failure "offset_not_found"
  | .ok message =>
    -- an empty record is read but not returned
    if message = [] then return .failure "offset_not_found"
    return ⟨true, message, request.fetchOffset, []⟩

/-- `Broker::handle_group_fetch`. -/
def handleGroupFetch (request : Request) : Program Response := do
  if !(← node .isLeader) then return ← forwardToLeader request
  if invalidGroupRequest request ∨ request.partition < 0 then
    return .failure "invalid_group_request"
  if !(← node (.isAssigned request.groupId request.memberId request.topic request.partition)) then
    return .failure "partition_not_assigned"
  -- the offset of the request is not looked at: the group's cursor takes its place
  let offset ← node (.nextOffset request.groupId request.topic request.partition)
  handleFetch { request with type := .fetch, fetchOffset := offset }

/-- `Broker::handle_commit_offset`. -/
def handleCommitOffset (request : Request) : Program Response := do
  if !(← node .isLeader) then return ← forwardToLeader request
  if invalidGroupRequest request ∨ request.partition < 0 then
    return .failure "invalid_group_request"
  if !(← node (.commit request.groupId request.memberId request.topic request.partition
      request.fetchOffset)) then
    return .failure "partition_not_assigned"
  return ⟨true, [], request.fetchOffset, []⟩

/-! ### Producing -/

/-- `groups_.refresh_topic(topic, topic_partitions(topic))`. -/
def refreshTopic (topic : Bytes) : Program Unit := do
  node (.refreshTopic topic (← node (.partitionsForTopic topic)))

/-- `Broker::handle_produce`. -/
def handleProduce (config : BrokerConfig) (request : Request) : Program Response := do
  if !(← node .isLeader) then return ← forwardToLeader request
  if request.topic = [] then return .failure "empty_topic"
  if request.partition < 0 then return .failure "invalid_partition"
  if request.message = [] then return .failure "empty_message"
  let offset ← node (.append request.topic request.partition request.message .client)
  -- from here on the record is in the leader's log, whatever happens to its copies
  refreshTopic request.topic
  if !(← replicateMessage config request.topic request.partition offset request.message) then
    return ⟨false, ofString "replication_failed", offset, []⟩
  if !(← waitForQuorum request.topic request.partition offset) then
    return ⟨false, ofString "quorum_timeout", offset, []⟩
  -- committed on the leader first; the followers learn of it afterwards
  node (.markCommitted request.topic request.partition offset)
  broadcastCommit config request.topic request.partition offset
  return ⟨true, [], offset, []⟩

/-- The loop that appends the rest of a batch; `expected` is where the record belongs if
    the batch is contiguous. -/
def appendBatch (topic : Bytes) (partition : Int) : List Bytes → Nat → Program (List Nat)
  | [], _ => return []
  | message :: messages, expected => do
    let offset ← node (.append topic partition message (.batch expected))
    let offsets ← appendBatch topic partition messages (expected + 1)
    return offset :: offsets

/-- The loop that commits a batch record by record. -/
def commitBatch (config : BrokerConfig) (topic : Bytes) (partition : Int) (offsets : List Nat) :
    Program Unit :=
  offsets.forM (fun offset => do
    node (.markCommitted topic partition offset)
    broadcastCommit config topic partition offset)

/-- `Broker::handle_batch_produce`.  The empty batch is refused before the role is
    checked, and the messages themselves are not checked. -/
def handleBatchProduce (config : BrokerConfig) (request : Request) : Program Response := do
  match request.messages with
  | [] => return .failure "empty_batch"
  | first :: rest =>
    if !(← node .isLeader) then return ← forwardToLeader request
    if request.topic = [] ∨ request.partition < 0 then return .failure "invalid_batch"
    let firstOffset ← node (.append request.topic request.partition first .client)
    let offsets ← appendBatch request.topic request.partition rest (firstOffset + 1)
    refreshTopic request.topic
    let lastOffset := offsets.getLastD firstOffset
    -- both failures of a batch have the same text
    if !(← replicateBatch config request.topic request.partition firstOffset request.messages) then
      return ⟨false, ofString "quorum_timeout", lastOffset, []⟩
    if !(← waitForQuorum request.topic request.partition lastOffset) then
      return ⟨false, ofString "quorum_timeout", lastOffset, []⟩
    commitBatch config request.topic request.partition (firstOffset :: offsets)
    return ⟨true, [], lastOffset, firstOffset :: offsets⟩

/-! ### Dispatch -/

/-- `Broker::handle_request`. -/
def handleRequest (config : BrokerConfig) (request : Request) : Program Response :=
  match request.type with
  | .produce => handleProduce config request
  | .batchProduce => handleBatchProduce config request
  | .fetch => handleFetch request
  | .metadata => handleMetadata config
  | .joinGroup => handleJoinGroup request
  | .leaveGroup => handleLeaveGroup request
  | .groupFetch => handleGroupFetch request
  | .commitOffset => handleCommitOffset request
  | .groupAssignment => handleGroupAssignment request
  | _ => return .failure "unknown_request_type"

/-- `Broker::handle_inter_broker_request`, before the response is serialized. -/
def handleInterBrokerRequest (config : BrokerConfig) (request : Request) (conn : Option Nat) :
    Program Response := do
  match request.type with
  | .replicate | .batchReplicate =>
    handleReplicationRequest config request conn
    return ⟨true, [], 0, []⟩
  | .ack =>
    node (.handleAck request.brokerId request.topic request.partition request.fetchOffset)
    return ⟨true, [], 0, []⟩
  | .heartbeat =>
    node (.handleHeartbeat request.brokerId)
    return ⟨true, [], 0, []⟩
  | .commit =>
    handleCommitRequest request
    return ⟨true, [], 0, []⟩
  | _ => return .failure "unknown_inter_broker_request"

/-- `TCPServer::process_request`, before the response is serialized. -/
def processRequest (config : BrokerConfig) (payload : Bytes) (conn : Option Nat) :
    Program Response :=
  let request := parseRequest payload
  if request.type.isInterBroker then handleInterBrokerRequest config request conn
  else handleRequest config request

/-- A server thread on one request. -/
def serve (config : BrokerConfig) (payload : Bytes) (conn : Option Nat) :
    Program (Option Response) := do
  let response ← processRequest config payload conn
  net (.respond conn response)
  return some response

/-- One round of `Broker::heartbeat_loop`. -/
def heartbeat (config : BrokerConfig) : Program (Option Response) := do
  broadcastHeartbeat config
  return none

end StreamingPlatform
