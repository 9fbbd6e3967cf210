import StreamingPlatform.Cluster.Runs
import Mathlib.Data.Finset.Max

namespace StreamingPlatform

open ByteString

/-!
# Cluster — leader election

Every broker elects on its own: it looks at its own leader pointer and at the peers that
it considers available, and no message is exchanged.  A broker keeps a pointer to another
broker that it considers available; otherwise it points to the lowest id among its own and
those of its available peers.

An `Election` is one run of `maybe_elect_leader` at a broker, with the view that the broker
has at that moment; whatever happens between two elections shows in the view only.  Once
the brokers of a set `S` all see exactly `S`, one election each settles every pointer
(`leaderBrokerId_elections`):

* whoever is leader then is the lowest broker of `S` (`split_brain_heals`);
* the brokers agree on a leader if and only if no pointer led to a broker of `S` that is
  neither the lowest nor the broker itself (`leaders_agree_iff`).
-/

/-! ### One election -/

namespace ReplicationManager

/-- The loop of `maybe_elect_leader` computes a minimum. -/
theorem foldl_min_spec {ι : Type} (id : ι → Int) (available : ι → Prop) [DecidablePred available]
    (l : List ι) (own : Int) :
    let elected :=
      l.foldl (fun elected x => if available x then min elected (id x) else elected) own
    (elected = own ∨ ∃ x ∈ l, available x ∧ elected = id x) ∧ elected ≤ own ∧
      ∀ x ∈ l, available x → elected ≤ id x := by
  induction l generalizing own with
  | nil => exact ⟨.inl rfl, le_rfl, fun x hx => absurd hx (by simp)⟩
  | cons x l ih =>
    rw [List.foldl_cons]
    by_cases hx : available x
    · rw [if_pos hx]
      obtain ⟨hmem, hown, hall⟩ := ih (min own (id x))
      refine ⟨?_, hown.trans (min_le_left _ _), ?_⟩
      · rcases hmem with heq | ⟨y, hy, hav, heq⟩
        · rcases min_choice own (id x) with h | h
          · exact .inl (heq.trans h)
          · exact .inr ⟨x, List.mem_cons_self, hx, heq.trans h⟩
        · exact .inr ⟨y, List.mem_cons_of_mem _ hy, hav, heq⟩
      · intro y hy hav
        rcases List.mem_cons.mp hy with rfl | hy
        · exact hown.trans (min_le_right _ _)
        · exact hall y hy hav
    · rw [if_neg hx]
      obtain ⟨hmem, hown, hall⟩ := ih own
      refine ⟨?_, hown, ?_⟩
      · rcases hmem with heq | ⟨y, hy, hav, heq⟩
        · exact .inl heq
        · exact .inr ⟨y, List.mem_cons_of_mem _ hy, hav, heq⟩
      · intro y hy hav
        rcases List.mem_cons.mp hy with rfl | hy
        · exact absurd hav hx
        · exact hall y hy hav

end ReplicationManager

namespace Node

/-- `maybe_elect_leader` at a broker: the sweep, and the new leader if there is one. -/
def maybeElectLeader (s : Node) : Node :=
  let r := s.replication.maybeElectLeader s.config s.leaderBrokerId s.now
  let s' := { s with replication := r.2 }
  match r.1 with
  | some id => s'.setLeader id
  | none => s'

variable {s : Node}

/-- This is what the action does. -/
theorem step_maybeElectLeader {τ : Nat} (h : s.mayLock τ) (c : Choice) :
    NodeAct.step τ s .maybeElectLeader c = some ((), s.maybeElectLeader) :=
  if_pos h

/-- The role is that of a leader exactly when the pointer is the broker's own id. -/
def RoleFits (s : Node) : Prop := s.isLeader = true ↔ s.leaderBrokerId = s.config.brokerId

theorem config_maybeElectLeader (s : Node) : s.maybeElectLeader.config = s.config := by
  unfold maybeElectLeader
  dsimp only
  split <;> rfl

/-- `set_leader` sets the role along with the leader. -/
theorem roleFits_setLeader (s : Node) (id : Int) : (s.setLeader id).RoleFits := by
  unfold RoleFits isLeader setLeader
  by_cases h : id = s.config.brokerId
  · simp [h]
  · simp [h]

/-- Hence every election leaves them in agreement. -/
theorem RoleFits.maybeElectLeader (h : s.RoleFits) : s.maybeElectLeader.RoleFits := by
  unfold Node.maybeElectLeader
  dsimp only
  split
  · exact roleFits_setLeader _ _
  · exact h

/-- The broker considers `id` available once it has looked at its clock. -/
def sees (s : Node) (id : Int) : Bool := (s.replication.expirePeers s.now).isPeerAvailable id

/-- The lowest id among the broker's own and those of the peers that it sees. -/
def lowestSeen (s : Node) : Int := (s.replication.expirePeers s.now).electedLeader s.config

/-- **One election.**  A pointer to another broker that is seen is kept. -/
theorem leaderBrokerId_maybeElectLeader (s : Node) :
    s.maybeElectLeader.leaderBrokerId
      = if s.leaderBrokerId ≠ s.config.brokerId ∧ s.sees s.leaderBrokerId = true
        then s.leaderBrokerId else s.lowestSeen := by
  unfold maybeElectLeader ReplicationManager.maybeElectLeader
  dsimp only
  by_cases h : s.leaderBrokerId ≠ s.config.brokerId ∧ s.sees s.leaderBrokerId = true
  · rw [if_pos h]
    unfold sees at h
    rw [if_pos h]
  · rw [if_neg h]
    unfold sees at h
    rw [if_neg h]
    rfl

/-- A broker that points to itself after an election has elected itself. -/
theorem lowestSeen_eq_brokerId (h : s.maybeElectLeader.leaderBrokerId = s.config.brokerId) :
    s.lowestSeen = s.config.brokerId := by
  rw [leaderBrokerId_maybeElectLeader] at h
  split at h
  · next hkept => exact absurd h hkept.1
  · exact h

/-- An election touches the manager by its sweep only. -/
theorem replication_maybeElectLeader (s : Node) :
    s.maybeElectLeader.replication = s.replication.expirePeers s.now := by
  rw [← ReplicationManager.maybeElectLeader_snd s.replication s.config s.leaderBrokerId s.now]
  unfold Node.maybeElectLeader
  dsimp only
  split <;> rfl

/-- The candidate is the lowest of the brokers in sight. -/
theorem lowestSeen_spec (s : Node) :
    (s.lowestSeen = s.config.brokerId ∨ ∃ peer ∈ s.config.peers,
        (peer.brokerId ≠ s.config.brokerId ∧ s.sees peer.brokerId = true) ∧
        s.lowestSeen = peer.brokerId) ∧
      s.lowestSeen ≤ s.config.brokerId ∧
      ∀ peer ∈ s.config.peers, peer.brokerId ≠ s.config.brokerId ∧ s.sees peer.brokerId = true →
        s.lowestSeen ≤ peer.brokerId :=
  ReplicationManager.foldl_min_spec ClusterPeer.brokerId
    (fun peer => peer.brokerId ≠ s.config.brokerId ∧ s.sees peer.brokerId = true)
    s.config.peers s.config.brokerId

/-- **A new leader** takes every broker below it for failed. -/
theorem unavailable_of_elects (hbefore : s.isLeader = false)
    (hafter : s.maybeElectLeader.isLeader = true) {peer : ClusterPeer}
    (hpeer : peer ∈ s.config.peers) (hlt : peer.brokerId < s.config.brokerId) :
    s.maybeElectLeader.replication.isPeerAvailable peer.brokerId = false := by
  have hown : s.lowestSeen = s.config.brokerId := by
    unfold maybeElectLeader ReplicationManager.maybeElectLeader at hafter
    dsimp only at hafter
    split at hafter
    · next id hid =>
      -- an election without a result leaves the role alone
      split at hid
      · exact absurd hid (by simp)
      · obtain rfl := Option.some.inj hid
        by_contra hne
        have hfollower : (s.setLeader s.lowestSeen).isLeader = false := by
          unfold isLeader setLeader
          rw [if_neg hne]
          rfl
        exact absurd (hfollower.symm.trans hafter) (by simp)
    · exact absurd (hbefore.symm.trans hafter) (by simp)
  rw [replication_maybeElectLeader]
  by_contra hseen
  have hle := (lowestSeen_spec s).2.2 peer hpeer ⟨hlt.ne, by simpa [sees] using hseen⟩
  omega

end Node

/-! ### Elections in a cluster -/

/-- One run of `maybe_elect_leader`: where, and what the broker's replication manager and
    clock are at that moment. -/
structure Election where
  broker : Int
  view : ReplicationManager
  now : Nat

/-- The brokers after one election. -/
def elect (nodes : Int → Node) (e : Election) : Int → Node :=
  Function.update nodes e.broker
    { nodes e.broker with replication := e.view, now := e.now }.maybeElectLeader

/-- The brokers after a sequence of elections. -/
def elections (nodes : Int → Node) (es : List Election) : Int → Node := es.foldl elect nodes

/-- The broker that elects considers exactly those of its peers available that are in
    `S`. -/
def Election.SeesExactly (e : Election) (config : BrokerConfig) (S : Finset Int) : Prop :=
  ∀ peer ∈ config.peers,
    (e.view.expirePeers e.now).isPeerAvailable peer.brokerId = true ↔ peer.brokerId ∈ S

instance (e : Election) (config : BrokerConfig) (S : Finset Int) :
    Decidable (e.SeesExactly config S) :=
  inferInstanceAs (Decidable (∀ peer ∈ config.peers, _))

/-- The brokers have the configurations of the cluster's members, and roles that fit. -/
structure Configured (cluster : Membership) (nodes : Int → Node) : Prop where
  config : ∀ b ∈ cluster.brokers, (nodes b.brokerId).config = b
  role : ∀ b ∈ cluster.brokers, (nodes b.brokerId).RoleFits

/-- The pointers lead to members. -/
def PointsInside (cluster : Membership) (nodes : Int → Node) : Prop :=
  ∀ b ∈ cluster.brokers, ∃ b' ∈ cluster.brokers, b'.brokerId = (nodes b.brokerId).leaderBrokerId

variable {e : Election} {i : Int} {es : List Election}

section Cluster

variable {cluster : Membership} {nodes : Int → Node} {S : Finset Int} {m : Int}

theorem Configured.elect (h : Configured cluster nodes) (e : Election) :
    Configured cluster (elect nodes e) := by
  have hboth : ∀ b ∈ cluster.brokers, ((StreamingPlatform.elect nodes e) b.brokerId).config = b ∧
      ((StreamingPlatform.elect nodes e) b.brokerId).RoleFits := by
    intro b hb
    unfold StreamingPlatform.elect
    by_cases heq : b.brokerId = e.broker
    · rw [← heq, Function.update_self, Node.config_maybeElectLeader]
      exact ⟨h.config b hb, Node.RoleFits.maybeElectLeader (h.role b hb)⟩
    · rw [Function.update_of_ne heq]
      exact ⟨h.config b hb, h.role b hb⟩
  exact ⟨fun b hb => (hboth b hb).1, fun b hb => (hboth b hb).2⟩

/-- Elections change no configuration. -/
theorem Configured.elections (h : Configured cluster nodes) (es : List Election) :
    Configured cluster (elections nodes es) := by
  induction es generalizing nodes with
  | nil => exact h
  | cons e es ih => exact ih (h.elect e)

theorem PointsInside.elect (h : PointsInside cluster nodes) (hc : Configured cluster nodes)
    (e : Election) : PointsInside cluster (elect nodes e) := by
  intro b hb
  unfold StreamingPlatform.elect
  by_cases heq : b.brokerId = e.broker
  · rw [← heq, Function.update_self, Node.leaderBrokerId_maybeElectLeader]
    have hconfig := hc.config b hb
    split
    · exact h b hb
    · -- the broker itself, or one of its peers
      rcases (Node.lowestSeen_spec _).1 with hown | ⟨peer, hpeer, -, heq'⟩
      · exact ⟨b, hb, by rw [hown, hconfig]⟩
      · rw [hconfig] at hpeer
        obtain ⟨-, b', hb', hid⟩ := (Membership.peers_ids hb).2 peer hpeer
        exact ⟨b', hb', by rw [heq', hid]⟩
  · rw [Function.update_of_ne heq]
    exact h b hb

/-- They elect members of the cluster. -/
theorem PointsInside.elections (h : PointsInside cluster nodes) (hc : Configured cluster nodes)
    (es : List Election) : PointsInside cluster (elections nodes es) := by
  induction es generalizing nodes with
  | nil => exact h
  | cons e es ih => exact ih (h.elect hc e) (hc.elect e)

/-- Where a pointer leads after an election of broker `i`, whose peers in `S` are seen:
    a pointer to another broker of `S` is kept, every other one goes to the lowest. -/
def settle (S : Finset Int) (m i p : Int) : Int := if p ∈ S ∧ p ≠ i then p else m

/-- A pointer settles once. -/
theorem settle_settle (S : Finset Int) (m i p : Int) :
    settle S m i (settle S m i p) = settle S m i p := by
  unfold settle
  by_cases h : p ∈ S ∧ p ≠ i
  · rw [if_pos h, if_pos h]
  · rw [if_neg h]
    split <;> rfl

/-- An election at a broker of `S` that sees exactly `S`. -/
structure Election.Settling (cluster : Membership) (S : Finset Int) (e : Election) : Prop where
  mem : e.broker ∈ S
  sees : ∀ b ∈ cluster.brokers, b.brokerId = e.broker → e.SeesExactly b S

/-- The brokers of `S` are members of the cluster, and `m` is the lowest of them. -/
structure LiveSet (cluster : Membership) (S : Finset Int) (m : Int) : Prop where
  members : ∀ i ∈ S, ∃ b ∈ cluster.brokers, b.brokerId = i
  least : IsLeast (S : Set Int) m

/-- A broker that sees exactly `S` and does not keep its pointer elects the lowest. -/
theorem lowestSeen_eq (hc : Configured cluster nodes) (hS : LiveSet cluster S m)
    (he : e.Settling cluster S) :
    { nodes e.broker with replication := e.view, now := e.now }.lowestSeen = m := by
  obtain ⟨b, hb, hid⟩ := hS.members _ he.mem
  have hsees := he.sees b hb hid
  have hconfig : (nodes e.broker).config = b := by rw [← hid, hc.config b hb]
  obtain ⟨hmem, hown, hall⟩ :=
    Node.lowestSeen_spec { nodes e.broker with replication := e.view, now := e.now }
  rw [hconfig] at hmem hown hall
  refine le_antisymm ?_ ?_
  · -- the lowest broker of `S` is the broker itself or a peer that it sees
    obtain ⟨b', hb', hid'⟩ := hS.members m hS.least.1
    by_cases heq : b' = b
    · rw [← hid', heq]
      exact hown
    · have hpeer : b'.asPeer ∈ b.peers := (cluster.mem_peers b hb _).mpr ⟨b', hb', heq, rfl⟩
      have hne : b'.brokerId ≠ b.brokerId := fun h => heq (Membership.eq_of_brokerId_eq hb' hb h)
      have hin : b'.asPeer.brokerId ∈ S := by
        show b'.brokerId ∈ S
        rw [hid']
        exact hS.least.1
      rw [← hid']
      exact hall b'.asPeer hpeer ⟨hne, (hsees _ hpeer).mpr hin⟩
  · rcases hmem with heq | ⟨peer, hpeer, ⟨-, hav⟩, heq⟩
    · rw [heq, hid]
      exact hS.least.2 he.mem
    · rw [heq]
      exact hS.least.2 ((hsees peer hpeer).mp hav)

/-- **One election under the view `S`.** -/
theorem leaderBrokerId_elect (hc : Configured cluster nodes) (hp : PointsInside cluster nodes)
    (hS : LiveSet cluster S m) (he : e.Settling cluster S) :
    (elect nodes e e.broker).leaderBrokerId
      = settle S m e.broker (nodes e.broker).leaderBrokerId := by
  obtain ⟨b, hb, hid⟩ := hS.members _ he.mem
  have hconfig : (nodes e.broker).config = b := by rw [← hid, hc.config b hb]
  obtain ⟨b', hb', hid'⟩ := hp b hb
  rw [hid] at hid'
  unfold elect
  rw [Function.update_self, Node.leaderBrokerId_maybeElectLeader, lowestSeen_eq hc hS he, settle]
  dsimp only
  rw [hconfig, hid, ← hid']
  -- another member is a peer, and a peer is seen exactly when it is in `S`
  refine if_congr ?_ rfl rfl
  constructor
  · rintro ⟨hne, hav⟩
    have hpeer : b'.asPeer ∈ b.peers :=
      (cluster.mem_peers b hb _).mpr ⟨b', hb', fun h => hne (by rw [h, hid]), rfl⟩
    exact ⟨(he.sees b hb hid _ hpeer).mp hav, hne⟩
  · rintro ⟨hin, hne⟩
    have hpeer : b'.asPeer ∈ b.peers :=
      (cluster.mem_peers b hb _).mpr ⟨b', hb', fun h => hne (by rw [h, hid]), rfl⟩
    exact ⟨hne, (he.sees b hb hid _ hpeer).mpr hin⟩

/-- An election is local to its broker. -/
theorem elect_of_ne (nodes : Int → Node) (h : i ≠ e.broker) :
    elect nodes e i = nodes i := Function.update_of_ne h _ _

/-- **Any number of elections under the view `S`**, in any order: those brokers that have
    elected at least once have settled, the others are as they were. -/
theorem leaderBrokerId_elections (hc : Configured cluster nodes) (hp : PointsInside cluster nodes)
    (hS : LiveSet cluster S m) (hes : ∀ e ∈ es, e.Settling cluster S)
    (hran : ∃ e ∈ es, e.broker = i) :
    (elections nodes es i).leaderBrokerId = settle S m i (nodes i).leaderBrokerId := by
  have hall : ∀ i, (elections nodes es i).leaderBrokerId
      = if i ∈ es.map Election.broker then settle S m i (nodes i).leaderBrokerId
        else (nodes i).leaderBrokerId := by
    clear hran
    induction es generalizing nodes with
    | nil => exact fun i => (if_neg (by simp)).symm
    | cons e es ih =>
      intro i
      have he := hes e List.mem_cons_self
      show (elections (elect nodes e) es i).leaderBrokerId = _
      rw [ih (hc.elect e) (hp.elect hc e) (fun e' he' => hes e' (List.mem_cons_of_mem _ he')) i]
      by_cases hi : i = e.broker
      · -- the broker that elects first; electing again changes nothing
        rw [hi, leaderBrokerId_elect hc hp hS he, settle_settle, ite_self, List.map_cons,
          if_pos List.mem_cons_self]
      · rw [elect_of_ne nodes hi, List.map_cons]
        simp only [List.mem_cons, hi, false_or]
  obtain ⟨e, he, rfl⟩ := hran
  rw [hall, if_pos (List.mem_map_of_mem he)]

end Cluster

/-- A broker starts with its own configuration. -/
theorem Setup.node_of_mem (setup : Setup) {b : BrokerConfig} (hb : b ∈ setup.cluster.brokers) :
    (setup.node b.brokerId).config = b ∧ (setup.node b.brokerId).type = setup.type b.brokerId ∧
      (setup.node b.brokerId).leaderBrokerId = setup.leaderBrokerId b.brokerId := by
  unfold Setup.node
  cases h : setup.cluster.broker? b.brokerId with
  | none =>
    have := List.find?_eq_none.mp h b hb
    exact absurd (beq_self_eq_true b.brokerId) this
  | some b' =>
    obtain ⟨hb', hid⟩ := Membership.mem_of_broker? h
    exact ⟨Membership.eq_of_brokerId_eq hb' hb hid, rfl, rfl⟩

/-! ### Two brokers that see each other -/

/-- An election of a broker that has just been started and sees all its peers. -/
def freshElection (cluster : Membership) (id : Int) : Election :=
  ⟨id, (cluster.broker? id).elim {} (fun config => .construct config 0), 0⟩

/-- Brokers 1 and 2 elect once. -/
def twoElections : List Election :=
  [freshElection twoBrokers.cluster 1, freshElection twoBrokers.cluster 2]

theorem twoElections_settling :
    (∀ e ∈ twoElections, e.Settling twoBrokers.cluster {1, 2}) ∧
      ∀ i ∈ ({1, 2} : Finset Int), ∃ e ∈ twoElections, e.broker = i := by
  refine ⟨fun e he => ?_, by decide⟩
  rcases List.mem_cons.mp he with rfl | he
  · exact ⟨by decide, by decide⟩
  · rw [List.mem_singleton.mp he]
    exact ⟨by decide, by decide⟩

theorem liveSet_two : LiveSet twoBrokers.cluster {1, 2} 1 := by
  refine ⟨by decide, by decide, fun i hi => ?_⟩
  have hmem : i = 1 ∨ i = 2 := by simpa using hi
  omega

/-! ### At most one leader -/

section Cluster

variable {cluster : Membership} {nodes : Int → Node} {S : Finset Int} {m : Int}

/-- After an election under the view `S` only the lowest broker of `S` can be leader,
    wherever its pointer led before. -/
theorem eq_of_isLeader_elect (hc : Configured cluster nodes) (hS : LiveSet cluster S m)
    (he : e.Settling cluster S) (h : (elect nodes e e.broker).isLeader = true) : e.broker = m := by
  obtain ⟨b, hb, hid⟩ := hS.members _ he.mem
  have hown := ((hc.elect e).role b hb).mp (by rw [hid]; exact h)
  rw [(hc.elect e).config b hb, hid] at hown
  have hconfig : (nodes e.broker).config.brokerId = e.broker := by rw [← hid, hc.config b hb]
  unfold elect at hown
  rw [Function.update_self] at hown
  rw [← lowestSeen_eq hc hS he, Node.lowestSeen_eq_brokerId (hown.trans hconfig.symm)]
  exact hconfig.symm

/-- Brokers that hold no election stay as they are. -/
theorem elections_of_not_mem (h : ∀ e ∈ es, e.broker ≠ i) : elections nodes es i = nodes i := by
  induction es generalizing nodes with
  | nil => rfl
  | cons e es ih =>
    show elections (elect nodes e) es i = nodes i
    rw [ih (fun e' he' => h e' (List.mem_cons_of_mem _ he')),
      elect_of_ne nodes (h e List.mem_cons_self).symm]

/-- A broker that has elected under the view `S` is not leader unless it is the lowest. -/
theorem eq_of_isLeader_elections (hc : Configured cluster nodes) (hS : LiveSet cluster S m)
    (hes : ∀ e ∈ es, e.Settling cluster S) (hran : ∃ e ∈ es, e.broker = i)
    (h : (elections nodes es i).isLeader = true) : i = m := by
  induction es generalizing nodes with
  | nil =>
    obtain ⟨e, he, -⟩ := hran
    exact absurd he (by simp)
  | cons e es ih =>
    have hrest : ∀ e' ∈ es, e'.Settling cluster S :=
      fun e' he' => hes e' (List.mem_cons_of_mem _ he')
    by_cases hlater : ∃ e' ∈ es, e'.broker = i
    · exact ih (hc.elect e) hrest hlater h
    · -- this was the last election of the broker
      obtain ⟨e', he', rfl⟩ := hran
      rcases List.mem_cons.mp he' with rfl | he'
      · change (elections (elect nodes e') es e'.broker).isLeader = true at h
        rw [elections_of_not_mem (fun e'' he'' heq => hlater ⟨e'', he'', heq⟩)] at h
        exact eq_of_isLeader_elect hc hS (hes e' List.mem_cons_self) h
      · exact absurd ⟨e', he', rfl⟩ hlater

/-- **A split brain heals.**  Whatever the pointers were, once every broker of `S` has
    elected at least once while the brokers of `S` see exactly `S`, at most one broker of
    `S` is leader, and it is the lowest of them. -/
theorem split_brain_heals (cluster : Membership) (nodes : Int → Node) (S : Finset Int)
    (es : List Election) (hc : Configured cluster nodes)
    (hS : ∀ i ∈ S, ∃ b ∈ cluster.brokers, b.brokerId = i)
    (hes : ∀ e ∈ es, e.Settling cluster S) (hall : ∀ i ∈ S, ∃ e ∈ es, e.broker = i) :
    (∀ i ∈ S, (elections nodes es i).isLeader = true → ∀ j ∈ S, i ≤ j) ∧
      ∀ i ∈ S, ∀ j ∈ S, (elections nodes es i).isLeader = true →
        (elections nodes es j).isLeader = true → i = j := by
  have hlowest : ∀ i ∈ S, (elections nodes es i).isLeader = true → ∀ j ∈ S, i ≤ j := by
    intro i hi hleader j hj
    have hlive : LiveSet cluster S (S.min' ⟨i, hi⟩) :=
      ⟨hS, ⟨S.min'_mem _, fun k hk => S.min'_le k hk⟩⟩
    rw [eq_of_isLeader_elections hc hlive hes (hall i hi) hleader]
    exact S.min'_le j hj
  refine ⟨hlowest, fun i hi j hj hleader hleader' => ?_⟩
  exact le_antisymm (hlowest i hi hleader j hj) (hlowest j hj hleader' i hi)

/-- Two brokers that both consider themselves leader: broker 1 remains. -/
theorem split_brain_heals_two :
    let nodes : Int → Node := fun id => (twoBrokers.node id).setLeader id
    (nodes 1).isLeader = true ∧ (nodes 2).isLeader = true ∧
      (elections nodes twoElections 1).isLeader = true ∧
      ∀ i ∈ ({1, 2} : Finset Int), ∀ j ∈ ({1, 2} : Finset Int),
        (elections nodes twoElections i).isLeader = true →
        (elections nodes twoElections j).isLeader = true → i = j := by
  intro nodes
  have hc : Configured twoBrokers.cluster nodes :=
    ⟨fun b hb => (twoBrokers.node_of_mem hb).1, fun b _ => Node.roleFits_setLeader _ _⟩
  refine ⟨by decide, by decide, by decide, ?_⟩
  exact (split_brain_heals twoBrokers.cluster nodes {1, 2} twoElections hc liveSet_two.members
    twoElections_settling.1 twoElections_settling.2).2

end Cluster

/-! ### Agreement -/

/-- The brokers are started with the same leader id, that of a member. -/
structure Setup.StartedWith (setup : Setup) (leader : Int) : Prop where
  member : ∃ b ∈ setup.cluster.brokers, b.brokerId = leader
  pointer : ∀ b ∈ setup.cluster.brokers, setup.leaderBrokerId b.brokerId = leader
  role : ∀ b ∈ setup.cluster.brokers,
    setup.type b.brokerId = .leader ↔ b.brokerId = leader

section Agreement

variable {setup : Setup} {leader : Int}

theorem Setup.StartedWith.configured (h : setup.StartedWith leader) :
    Configured setup.cluster setup.node := by
  refine ⟨fun b hb => (setup.node_of_mem hb).1, fun b hb => ?_⟩
  obtain ⟨hconfig, htype, hpointer⟩ := setup.node_of_mem hb
  unfold Node.RoleFits Node.isLeader
  rw [decide_eq_true_eq, htype, hpointer, hconfig, h.pointer b hb, h.role b hb]
  exact eq_comm

theorem Setup.StartedWith.pointsInside (h : setup.StartedWith leader) :
    PointsInside setup.cluster setup.node := by
  intro b hb
  obtain ⟨b', hb', hid⟩ := h.member
  exact ⟨b', hb', by rw [(setup.node_of_mem hb).2.2, h.pointer b hb, hid]⟩

/-- The endpoint of a member is found under its id. -/
theorem getLeaderEndpoint_of_mem {cluster : Membership} {b b' : BrokerConfig}
    (hb : b ∈ cluster.brokers) (hb' : b' ∈ cluster.brokers) :
    ∃ endpoint, b.getLeaderEndpoint b'.brokerId = some endpoint ∧
      endpoint.brokerId = b'.brokerId := by
  unfold BrokerConfig.getLeaderEndpoint
  by_cases heq : b'.brokerId = b.brokerId
  · rw [if_pos heq]
    exact ⟨_, rfl, heq.symm⟩
  · rw [if_neg heq]
    have hpeer : b'.asPeer ∈ b.peers :=
      (cluster.mem_peers b hb _).mpr ⟨b', hb', fun h => heq (by rw [h]), rfl⟩
    cases hfind : b.peers.find? (fun peer => peer.brokerId == b'.brokerId) with
    | none =>
      have := List.find?_eq_none.mp hfind b'.asPeer hpeer
      exact absurd (beq_self_eq_true b'.brokerId) this
    | some peer => exact ⟨_, rfl, by simpa using List.find?_some hfind⟩

/-- **When the brokers agree.**  All brokers are started with the same leader id; then
    come any elections under any views; then the brokers of `S` see exactly `S` and each
    of them elects at least once.  After that they all name the same broker of `S`, it
    considers itself leader, and a request that any of them forwards goes to it, if and
    only if before that no broker of `S` pointed to a broker of `S` other than itself and
    the lowest one. -/
theorem leaders_agree_iff (setup : Setup) (leader : Int) (hstart : setup.StartedWith leader)
    (history : List Election) (S : Finset Int) (m : Int) (hS : LiveSet setup.cluster S m)
    (es : List Election) (hes : ∀ e ∈ es, e.Settling setup.cluster S)
    (hall : ∀ i ∈ S, ∃ e ∈ es, e.broker = i) :
    let nodes := elections setup.node history
    let nodes' := elections nodes es
    (∃ ℓ ∈ S, (nodes' ℓ).isLeader = true ∧ ∀ i ∈ S, (nodes' i).leaderBrokerId = ℓ ∧
        ∃ endpoint, (nodes' i).config.getLeaderEndpoint (nodes' i).leaderBrokerId = some endpoint ∧
          endpoint.brokerId = ℓ)
      ↔ ∀ i ∈ S, (nodes i).leaderBrokerId ∈ S →
          (nodes i).leaderBrokerId = i ∨ (nodes i).leaderBrokerId = m := by
  intro nodes nodes'
  have hc : Configured setup.cluster nodes := hstart.configured.elections history
  have hp : PointsInside setup.cluster nodes :=
    hstart.pointsInside.elections hstart.configured history
  have hc' : Configured setup.cluster nodes' := hc.elections es
  have hsettled : ∀ i ∈ S, (nodes' i).leaderBrokerId = settle S m i (nodes i).leaderBrokerId :=
    fun i hi => leaderBrokerId_elections hc hp hS hes (hall i hi)
  constructor
  · rintro ⟨ℓ, hℓ, hleader, hsame⟩ i hi hin
    -- the leader is the lowest, and a pointer that is kept must lead to it
    have hlowest : ℓ = m := eq_of_isLeader_elections hc hS hes (hall ℓ hℓ) hleader
    by_cases hown : (nodes i).leaderBrokerId = i
    · exact .inl hown
    · have hkept := (hsame i hi).1
      rw [hsettled i hi, settle, if_pos ⟨hin, hown⟩, hlowest] at hkept
      exact .inr hkept
  · intro hgood
    have hpoint : ∀ i ∈ S, (nodes' i).leaderBrokerId = m := by
      intro i hi
      rw [hsettled i hi, settle]
      split
      · next hkept => exact (hgood i hi hkept.1).resolve_left hkept.2
      · rfl
    obtain ⟨b, hb, hid⟩ := hS.members m hS.least.1
    refine ⟨m, hS.least.1, ?_, fun i hi => ⟨hpoint i hi, ?_⟩⟩
    · have hrole := (hc'.role b hb).mpr
      rw [hc'.config b hb, hid] at hrole
      exact hrole (hpoint m hS.least.1)
    · obtain ⟨b', hb', hid'⟩ := hS.members i hi
      have hconfig := hc'.config b' hb'
      rw [hid'] at hconfig
      rw [hpoint i hi, hconfig, ← hid]
      exact getLeaderEndpoint_of_mem hb' hb

/-- Started with broker 1 as leader, the two agree on it. -/
theorem leaders_agree_iff_two :
    twoBrokers.StartedWith 1 ∧
      ∃ ℓ ∈ ({1, 2} : Finset Int), (elections twoBrokers.node twoElections ℓ).isLeader = true ∧
        ∀ i ∈ ({1, 2} : Finset Int),
          (elections twoBrokers.node twoElections i).leaderBrokerId = ℓ := by
  have hstart : twoBrokers.StartedWith 1 := ⟨by decide, by decide, by decide⟩
  have hagree := leaders_agree_iff twoBrokers 1 hstart [] {1, 2} 1 liveSet_two twoElections
    twoElections_settling.1 twoElections_settling.2
  obtain ⟨ℓ, hℓ, hleader, hall⟩ := hagree.mpr (by decide)
  exact ⟨hstart, ℓ, hℓ, hleader, fun i hi => (hall i hi).1⟩

/-- The same brokers, started with broker 2 as leader. -/
def ledByTwo : Setup :=
  { twoBrokers with
    type := fun id => if id = 2 then .leader else .follower
    leaderBrokerId := fun _ => 2 }

/-- **No agreement.**  Broker 1 keeps its pointer to broker 2, which is up; broker 2
    elects broker 1, which has the lower id.  Neither is leader, and each one forwards to
    the other. -/
theorem leaders_disagree :
    ledByTwo.StartedWith 2 ∧ LiveSet ledByTwo.cluster {1, 2} 1 ∧
      (∀ e ∈ twoElections, e.Settling ledByTwo.cluster {1, 2}) ∧
      (∀ i ∈ ({1, 2} : Finset Int), ∃ e ∈ twoElections, e.broker = i) ∧
      (elections ledByTwo.node twoElections 1).leaderBrokerId = 2 ∧
      (elections ledByTwo.node twoElections 2).leaderBrokerId = 1 ∧
      (elections ledByTwo.node twoElections 1).isLeader = false ∧
      (elections ledByTwo.node twoElections 2).isLeader = false :=
  ⟨⟨by decide, by decide, by decide⟩, liveSet_two, twoElections_settling.1,
    twoElections_settling.2, by decide, by decide, by decide, by decide⟩

end Agreement

end StreamingPlatform
