import StreamingPlatform.Core.Config
import StreamingPlatform.Storage.Engine
import Mathlib.Logic.Function.Basic

namespace StreamingPlatform

open ByteString

/-!
# Core — the state of the replication manager (`replication_manager.cpp`)

The operations of `ReplicationManager` that run under its mutex without talking to other
brokers, as functions on its fields.  Maps are functions to `Option`, sets of broker ids
are lists without repetition or predicates.  `now` is the broker's steady clock in
milliseconds.  The operations that do talk to other brokers are programs and are in
`Broker/Replication`.
-/

/-- `kHeartbeatTimeout`, in milliseconds. -/
def kHeartbeatTimeout : Nat := 750

/-- `ReplicationManager::make_ack_key`. -/
def makeAckKey (topic : Bytes) (partition : Int) (offset : Nat) : Bytes :=
  makeKey topic partition ++ ofString ":" ++ decimal offset

/-- Digits hold no `:`, so the last `:` splits an acknowledgement key, and what is before it
    is the key of a log. -/
theorem eq_of_makeAckKey_eq {topic topic' : Bytes} {partition partition' : Int}
    {offset offset' : Nat} (hp : 0 ≤ partition) (hp' : 0 ≤ partition')
    (h : makeAckKey topic partition offset = makeAckKey topic' partition' offset') :
    topic = topic' ∧ partition = partition' ∧ offset = offset' := by
  have heq : makeKey topic partition ++ 58 :: decimal offset
      = makeKey topic' partition' ++ 58 :: decimal offset' := by
    have h' : makeKey topic partition ++ [58] ++ decimal offset
      = makeKey topic' partition' ++ [58] ++ decimal offset' := h
    simpa using h'
  obtain ⟨hkey, hoffset⟩ := append_decimal_injective (by decide) heq
  obtain ⟨htopic, hpartition⟩ := makeKey_injective hp hp' hkey
  exact ⟨htopic, hpartition, hoffset⟩

/-- The mutable fields of `ReplicationManager`. -/
structure ReplicationManager where
  followerAckOffsets : Int → Option Nat := fun _ => none
  ackCounts : Bytes → Option Nat := fun _ => none
  ackFollowers : Bytes → List Int := fun _ => []
  commitIndexByLog : Bytes → Option Nat := fun _ => none
  lastHeartbeat : Int → Option Nat := fun _ => none
  failedPeers : Int → Bool := fun _ => false

namespace ReplicationManager

/-- The constructor: every peer counts as heard of just now. -/
def construct (config : BrokerConfig) (now : Nat) : ReplicationManager where
  lastHeartbeat := fun id =>
    if id ≠ config.brokerId ∧ id ∈ config.peers.map ClusterPeer.brokerId then some now else none

variable (manager : ReplicationManager)

/-! ### Acknowledgements -/

/-- How `replicate_message` and `replicate_batch` begin: the count of the key is set to
    one and the broker itself joins the followers of the key, which are kept. -/
def openAcks (config : BrokerConfig) (topic : Bytes) (partition : Int) (offset : Nat) :
    ReplicationManager :=
  let key := makeAckKey topic partition offset
  { manager with
    ackCounts := Function.update manager.ackCounts key (some 1)
    ackFollowers := Function.update manager.ackFollowers key
      ((manager.ackFollowers key).insert config.brokerId) }

/-- `ReplicationManager::handle_ack` on a leader. -/
def handleAck (followerId : Int) (topic : Bytes) (partition : Int) (offset : Nat) :
    ReplicationManager :=
  let key := makeAckKey topic partition offset
  if followerId ∈ manager.ackFollowers key then manager
  else
    { manager with
      ackFollowers := Function.update manager.ackFollowers key
        ((manager.ackFollowers key).insert followerId)
      followerAckOffsets := Function.update manager.followerAckOffsets followerId
        (some (max ((manager.followerAckOffsets followerId).getD 0) offset))
      ackCounts := Function.update manager.ackCounts key
        (some ((manager.ackCounts key).getD 0 + 1)) }

/-- The majority of the broker and its peers. -/
def quorum (config : BrokerConfig) : Nat := (1 + config.peers.length) / 2 + 1

/-- `ReplicationManager::quorum_reached`. -/
def quorumReached (config : BrokerConfig) (topic : Bytes) (partition : Int) (offset : Nat) :
    Bool :=
  match manager.ackCounts (makeAckKey topic partition offset) with
  | none => false
  | some count => decide (quorum config ≤ count)

/-! ### Commit index -/

/-- `ReplicationManager::mark_committed`. -/
def markCommitted (topic : Bytes) (partition : Int) (offset : Nat) : ReplicationManager :=
  let key := makeKey topic partition
  { manager with
    commitIndexByLog := Function.update manager.commitIndexByLog key
      (some (max ((manager.commitIndexByLog key).getD 0) offset)) }

theorem commitIndexByLog_markCommitted (topic : Bytes) (partition : Int) (offset : Nat)
    (key : Bytes) :
    (manager.markCommitted topic partition offset).commitIndexByLog key
      = if key = makeKey topic partition
        then some (max ((manager.commitIndexByLog key).getD 0) offset)
        else manager.commitIndexByLog key := by
  by_cases hkey : key = makeKey topic partition
  · subst hkey
    rw [if_pos rfl]
    exact Function.update_self ..
  · rw [if_neg hkey]
    exact Function.update_of_ne hkey ..

/-- `ReplicationManager::is_committed`. -/
def isCommitted (topic : Bytes) (partition : Int) (offset : Nat) : Bool :=
  match manager.commitIndexByLog (makeKey topic partition) with
  | none => false
  | some committed => decide (offset ≤ committed)

/-! ### Liveness and election -/

/-- `ReplicationManager::is_peer_available`. -/
def isPeerAvailable (brokerId : Int) : Bool := !manager.failedPeers brokerId

/-- `ReplicationManager::mark_follower_failed`. -/
def markFollowerFailed (brokerId : Int) : ReplicationManager :=
  { manager with
    failedPeers := Function.update manager.failedPeers brokerId true
    followerAckOffsets := Function.update manager.followerAckOffsets brokerId none }

/-- `ReplicationManager::handle_heartbeat`; a successful exchange does the same. -/
def handleHeartbeat (now : Nat) (brokerId : Int) : ReplicationManager :=
  { manager with
    lastHeartbeat := Function.update manager.lastHeartbeat brokerId (some now)
    failedPeers := Function.update manager.failedPeers brokerId false }

/-- A broker that was last heard of too long ago. -/
def isExpired (now : Nat) (brokerId : Int) : Bool :=
  match manager.lastHeartbeat brokerId with
  | none => false
  | some time => decide (now - time > kHeartbeatTimeout)

/-- The sweep of `maybe_elect_leader`: expired brokers become failed peers. -/
def expirePeers (now : Nat) : ReplicationManager :=
  { manager with failedPeers := fun id => manager.failedPeers id || manager.isExpired now id }

/-- The sweep of `broadcast_heartbeat`: `mark_follower_failed` for every expired broker. -/
def failExpired (now : Nat) : ReplicationManager :=
  { manager with
    failedPeers := fun id => manager.failedPeers id || manager.isExpired now id
    followerAckOffsets := fun id =>
      if manager.isExpired now id then none else manager.followerAckOffsets id }

/-- The lowest id among the broker's own and those of its available peers. -/
def electedLeader (config : BrokerConfig) : Int :=
  config.peers.foldl (fun elected peer =>
    if peer.brokerId ≠ config.brokerId ∧ manager.isPeerAvailable peer.brokerId then
      min elected peer.brokerId
    else elected) config.brokerId

/-- `ReplicationManager::maybe_elect_leader`: the leader id to set, if any, and the
    state after the sweep. -/
def maybeElectLeader (config : BrokerConfig) (leaderId : Int) (now : Nat) :
    Option Int × ReplicationManager :=
  let manager := manager.expirePeers now
  if leaderId ≠ config.brokerId ∧ manager.isPeerAvailable leaderId then (none, manager)
  else (some (manager.electedLeader config), manager)

end ReplicationManager

end StreamingPlatform
