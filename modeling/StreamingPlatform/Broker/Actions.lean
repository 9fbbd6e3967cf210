import StreamingPlatform.Core.Groups
import StreamingPlatform.Core.Replication
import StreamingPlatform.Lib.Interleave
import StreamingPlatform.Protocol.Codec
import StreamingPlatform.Storage.Messages

namespace StreamingPlatform

open ByteString Interleave

/-!
# Broker — what a handler can do

A handler is a program over the actions of this file.  A `NodeAct` touches the state of
its own broker and is atomic in the code: a storage call, a call on the consumer groups
(which have their own mutex), a read of an atomic field, or an operation of the
replication manager under its mutex.  A `NetAct` is a socket operation.

The replication mutex is recursive.  Whole calls that hold it (`replicate_message`,
`replicate_batch`, `broadcast_commit`, `broadcast_heartbeat`) are bracketed by `lock` and
`unlock`; every other operation under the mutex is a single action, possible when the
mutex is free or held by the same thread.
-/

/-- Who appends a record.  It does not influence the append: it tells apart a client's
    record, which has no offset beforehand, a later record of a client's batch, which
    `replicate_batch` takes to be at `expected`, and a replicated record, whose sender
    gives it the offset `expected`. -/
inductive AppendOrigin where
  | client
  | batch (expected : Nat)
  | replica (expected : Nat)
  deriving DecidableEq, Repr

/-- Actions on the broker's own state. -/
inductive NodeAct where
  | isLeader
  | getLeaderEndpoint
  | append (topic : Bytes) (partition : Int) (message : Bytes) (origin : AppendOrigin)
  | fetch (topic : Bytes) (partition : Int) (offset : Nat)
  | partitionsForTopic (topic : Bytes)
  | join (groupId memberId topic : Bytes) (partitions : List Int)
  | leave (groupId memberId : Bytes) (partitions : List Int)
  | isAssigned (groupId memberId topic : Bytes) (partition : Int)
  | nextOffset (groupId topic : Bytes) (partition : Int)
  | commit (groupId memberId topic : Bytes) (partition : Int) (offset : Nat)
  | refreshTopic (topic : Bytes) (partitions : List Int)
  | lock
  | unlock
  | openAcks (topic : Bytes) (partition : Int) (offset : Nat)
  | handleAck (followerId : Int) (topic : Bytes) (partition : Int) (offset : Nat)
  | quorumReached (topic : Bytes) (partition : Int) (offset : Nat)
  | markCommitted (topic : Bytes) (partition : Int) (offset : Nat)
  | isCommitted (topic : Bytes) (partition : Int) (offset : Nat)
  | isPeerAvailable (brokerId : Int)
  | markFollowerFailed (brokerId : Int)
  | handleHeartbeat (brokerId : Int)
  | maybeElectLeader
  | failExpired
  /-- How often the loop of `wait_for_quorum` runs before its deadline. -/
  | polls
  deriving DecidableEq, Repr

/-- What they return. -/
abbrev NodeAct.Result : NodeAct → Type
  | .isLeader => Bool
  | .getLeaderEndpoint => Option LeaderEndpoint
  | .append .. => Nat
  | .fetch .. => Except StdException Bytes
  | .partitionsForTopic .. => List Int
  | .join .. => List Int
  | .isAssigned .. => Bool
  | .nextOffset .. => Nat
  | .commit .. => Bool
  | .quorumReached .. => Bool
  | .isCommitted .. => Bool
  | .isPeerAvailable .. => Bool
  | .polls => Nat
  | _ => Unit

/-- How opening a connection and writing the request to it ends. -/
inductive SendResult where
  | sent (conn : Nat)
  | unreachable
  | writeFailed
  deriving DecidableEq, Repr

/-- Socket operations.  `conn` is the connection that a request came in on; `none` is a
    client's. -/
inductive NetAct where
  | send (dest : Int) (payload : Bytes)
  | receive (conn : Nat)
  | sendAck (conn : Option Nat) (ack : Request)
  | respond (conn : Option Nat) (response : Response)
  deriving DecidableEq, Repr

/-- What they return; `none` is a failed read. -/
abbrev NetAct.Result : NetAct → Type
  | .send .. => SendResult
  | .receive .. => Option Bytes
  | _ => Unit

/-- The actions of a handler. -/
inductive Act where
  | node (a : NodeAct)
  | net (a : NetAct)
  deriving DecidableEq, Repr

/-- What an action returns. -/
abbrev Act.Result : Act → Type
  | .node a => a.Result
  | .net a => a.Result

/-- A handler has returned, and its response is to be written. -/
def Act.responds : Act → Bool
  | .net (.respond ..) => true
  | _ => false

/-- A program of a broker. -/
abbrev Program (α : Type) := Prog Act Act.Result α

/-- Perform an action on the broker's own state. -/
def node (a : NodeAct) : Program a.Result := Prog.perform (Act.node a)

/-- Perform a socket operation. -/
def net (a : NetAct) : Program a.Result := Prog.perform (Act.net a)

/-! ### The state of a broker -/

/-- A broker process. -/
structure Node where
  config : BrokerConfig
  type : BrokerType
  leaderBrokerId : Int
  /-- What is found in the directory of a log when it is opened. -/
  disk : Bytes → List Bytes
  storage : StorageEngine (List Bytes) := {}
  replication : ReplicationManager
  groups : ConsumerGroupManager := {}
  /-- The thread that holds the replication mutex. -/
  mutex : Option Nat := none
  /-- The steady clock, in milliseconds. -/
  now : Nat := 0
  alive : Bool := true

namespace Node

/-- `is_leader()`. -/
def isLeader (s : Node) : Bool := s.type = .leader

/-- The messages of a log. -/
def contents (s : Node) (key : Bytes) : List Bytes := s.storage.contents s.disk key

/-- `BrokerConfig::set_leader`. -/
def setLeader (s : Node) (id : Int) : Node :=
  { s with leaderBrokerId := id, type := if id = s.config.brokerId then .leader else .follower }

/-- The mutex is free or held by `τ`. -/
def mayLock (s : Node) (τ : Nat) : Prop := s.mutex = none ∨ s.mutex = some τ

instance (s : Node) (τ : Nat) : Decidable (s.mayLock τ) :=
  inferInstanceAs (Decidable (_ ∨ _))

/-- An operation under the mutex. -/
def locked {β : Type} (s : Node) (τ : Nat) (step : β × Node) : Option (β × Node) :=
  if s.mayLock τ then some step else none

end Node

/-- What is open about an action and settled from outside: whether a socket operation
    succeeds, and how often a loop with a deadline runs. -/
inductive Choice where
  | succeeds
  | fails
  | writeFails
  | times (n : Nat)
  deriving DecidableEq, Repr

open Node in
/-- The effect of an action of thread `τ` on its broker; `none` when it is not possible
    now.  A log holds fewer than `2 ^ 64 - 1` records, so offsets are 64-bit values.  An append
    is one step and does not throw: `get_or_create_log`, which takes no lock, is part of it. -/
def NodeAct.step (τ : Nat) (s : Node) : (a : NodeAct) → Choice → Option (a.Result × Node)
  | .isLeader, _ => some (s.isLeader, s)
  | .getLeaderEndpoint, _ => some (s.config.getLeaderEndpoint s.leaderBrokerId, s)
  | .append topic partition message _, _ =>
    if (s.contents (makeKey topic partition)).length + 1 < 2 ^ 64 then
      let r := s.storage.append (messageLogs s.disk) topic partition message
      some (r.1, { s with storage := r.2 })
    else none
  | .fetch topic partition offset, _ =>
    some (s.storage.fetch (messageLogs s.disk) topic partition offset, s)
  | .partitionsForTopic topic, _ => some (s.storage.partitionsForTopic topic, s)
  | .join groupId memberId topic partitions, _ =>
    let r := s.groups.join groupId memberId topic partitions
    some (r.1, { s with groups := r.2 })
  | .leave groupId memberId partitions, _ =>
    some ((), { s with groups := s.groups.leave groupId memberId partitions })
  | .isAssigned groupId memberId topic partition, _ =>
    some (s.groups.isAssigned groupId memberId topic partition, s)
  | .nextOffset groupId topic partition, _ =>
    some (s.groups.nextOffset groupId topic partition, s)
  | .commit groupId memberId topic partition offset, _ =>
    let r := s.groups.commit groupId memberId topic partition offset
    some (r.1, { s with groups := r.2 })
  | .refreshTopic topic partitions, _ =>
    some ((), { s with groups := s.groups.refreshTopic topic partitions })
  -- no thread takes the lock twice: what is called under it is a single action
  | .lock, _ => if s.mutex = none then some ((), { s with mutex := some τ }) else none
  | .unlock, _ => if s.mutex = some τ then some ((), { s with mutex := none }) else none
  | .openAcks topic partition offset, _ =>
    s.locked τ ((), { s with
      replication := s.replication.openAcks s.config topic partition offset })
  -- the role is read under the mutex; a follower ignores acknowledgements
  | .handleAck followerId topic partition offset, _ =>
    s.locked τ ((), if s.isLeader then { s with
      replication := s.replication.handleAck followerId topic partition offset } else s)
  | .quorumReached topic partition offset, _ =>
    s.locked τ (s.replication.quorumReached s.config topic partition offset, s)
  | .markCommitted topic partition offset, _ =>
    s.locked τ ((), { s with replication := s.replication.markCommitted topic partition offset })
  | .isCommitted topic partition offset, _ =>
    s.locked τ (s.replication.isCommitted topic partition offset, s)
  | .isPeerAvailable brokerId, _ => s.locked τ (s.replication.isPeerAvailable brokerId, s)
  | .markFollowerFailed brokerId, _ =>
    s.locked τ ((), { s with replication := s.replication.markFollowerFailed brokerId })
  | .handleHeartbeat brokerId, _ =>
    s.locked τ ((), { s with replication := s.replication.handleHeartbeat s.now brokerId })
  | .maybeElectLeader, _ =>
    let r := s.replication.maybeElectLeader s.config s.leaderBrokerId s.now
    let s' := { s with replication := r.2 }
    s.locked τ ((), match r.1 with
      | some id => s'.setLeader id
      | none => s')
  | .failExpired, _ =>
    s.locked τ ((), { s with replication := s.replication.failExpired s.now })
  | .polls, .times n => some (n, s)
  | .polls, _ => some ((0 : Nat), s)

end StreamingPlatform
