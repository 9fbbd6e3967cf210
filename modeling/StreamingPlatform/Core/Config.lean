import StreamingPlatform.Protocol.Message
import Mathlib.Data.List.Nodup

namespace StreamingPlatform

open ByteString

/-!
# Core — the configuration of a broker (`broker_config.h`, `broker_config.cpp`)

The part of the configuration that never changes.  The two fields that do, `type` and
`leader_broker_id`, are in the broker's state; the data directory is not modelled, since
the storage engine is.
-/

/-- `BrokerType`. -/
inductive BrokerType where
  | leader
  | follower
  deriving DecidableEq, Repr

/-- `ClusterPeer`. -/
structure ClusterPeer where
  brokerId : Int
  host : Bytes
  port : Int
  deriving DecidableEq, Repr

/-- `LeaderEndpoint`. -/
structure LeaderEndpoint where
  brokerId : Int
  host : Bytes
  port : Int
  deriving DecidableEq, Repr

/-- `BrokerConfig` without its mutable fields. -/
structure BrokerConfig where
  port : Int
  brokerId : Int
  ipAddress : Bytes
  peers : List ClusterPeer
  deriving DecidableEq, Repr

namespace BrokerConfig

/-- `BrokerConfig::get_leader_endpoint`; `none` stands for `false`. -/
def getLeaderEndpoint (config : BrokerConfig) (leaderId : Int) : Option LeaderEndpoint :=
  if leaderId = config.brokerId then
    some ⟨config.brokerId, config.ipAddress, config.port⟩
  else
    (config.peers.find? (fun peer => peer.brokerId == leaderId)).map
      (fun peer => ⟨peer.brokerId, peer.host, peer.port⟩)

/-- The entry that other brokers have for this one. -/
def asPeer (config : BrokerConfig) : ClusterPeer :=
  ⟨config.brokerId, config.ipAddress, config.port⟩

end BrokerConfig

/-- A cluster whose brokers have distinct ids and list exactly each other as peers, each
    one once. -/
structure Membership where
  brokers : List BrokerConfig
  ids_nodup : (brokers.map BrokerConfig.brokerId).Nodup
  isInt32 : ∀ b ∈ brokers, IsInt32 b.brokerId
  peers_nodup : ∀ b ∈ brokers, b.peers.Nodup
  mem_peers : ∀ b ∈ brokers, ∀ peer,
    peer ∈ b.peers ↔ ∃ b' ∈ brokers, b' ≠ b ∧ peer = b'.asPeer

namespace Membership

variable (cluster : Membership)

/-- The broker with a given id. -/
def broker? (id : Int) : Option BrokerConfig :=
  cluster.brokers.find? (fun b => b.brokerId == id)

variable {cluster}

theorem eq_of_brokerId_eq {b b' : BrokerConfig} (hb : b ∈ cluster.brokers)
    (hb' : b' ∈ cluster.brokers) (h : b.brokerId = b'.brokerId) : b = b' :=
  List.inj_on_of_nodup_map cluster.ids_nodup hb hb' h

theorem mem_of_broker? {id : Int} {b : BrokerConfig} (h : cluster.broker? id = some b) :
    b ∈ cluster.brokers ∧ b.brokerId = id :=
  ⟨List.mem_of_find?_eq_some h, by simpa using List.find?_some h⟩

/-- A broker has one peer less than the cluster has brokers. -/
theorem length_peers {b : BrokerConfig} (hb : b ∈ cluster.brokers) :
    b.peers.length + 1 = cluster.brokers.length := by
  have hnodup : cluster.brokers.Nodup := List.Nodup.of_map _ cluster.ids_nodup
  have hinj : ∀ b₁ ∈ cluster.brokers.erase b, ∀ b₂ ∈ cluster.brokers.erase b,
      b₁.asPeer = b₂.asPeer → b₁ = b₂ := by
    intro b₁ h₁ b₂ h₂ h
    exact eq_of_brokerId_eq (List.mem_of_mem_erase h₁) (List.mem_of_mem_erase h₂)
      (ClusterPeer.mk.inj h).1
  have hperm : b.peers.Perm ((cluster.brokers.erase b).map BrokerConfig.asPeer) := by
    refine (List.perm_ext_iff_of_nodup (cluster.peers_nodup b hb)
      (List.Nodup.map_on hinj (hnodup.erase b))).mpr (fun peer => ?_)
    rw [cluster.mem_peers b hb, List.mem_map]
    constructor
    · rintro ⟨b', hb', hne, rfl⟩
      exact ⟨b', (List.mem_erase_of_ne hne).mpr hb', rfl⟩
    · rintro ⟨b', hb', rfl⟩
      have := (List.Nodup.mem_erase_iff hnodup).mp hb'
      exact ⟨b', this.2, this.1, rfl⟩
  rw [hperm.length_eq, List.length_map, List.length_erase_of_mem hb]
  have : 0 < cluster.brokers.length := List.length_pos_of_mem hb
  omega

/-- The peers of a broker have distinct ids, none of them its own. -/
theorem peers_ids {b : BrokerConfig} (hb : b ∈ cluster.brokers) :
    (b.peers.map ClusterPeer.brokerId).Nodup ∧
      ∀ peer ∈ b.peers, peer.brokerId ≠ b.brokerId ∧
        ∃ b' ∈ cluster.brokers, b'.brokerId = peer.brokerId := by
  constructor
  · refine List.Nodup.map_on ?_ (cluster.peers_nodup b hb)
    intro p hp p' hp' h
    obtain ⟨b₁, h₁, -, rfl⟩ := (cluster.mem_peers b hb p).mp hp
    obtain ⟨b₂, h₂, -, rfl⟩ := (cluster.mem_peers b hb p').mp hp'
    rw [eq_of_brokerId_eq h₁ h₂ h]
  · intro peer hpeer
    obtain ⟨b', hb', hne, rfl⟩ := (cluster.mem_peers b hb peer).mp hpeer
    refine ⟨fun h => hne (eq_of_brokerId_eq hb' hb h), b', hb', rfl⟩

end Membership

end StreamingPlatform
