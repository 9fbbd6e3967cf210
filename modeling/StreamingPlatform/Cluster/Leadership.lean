import StreamingPlatform.Cluster.Outage
import StreamingPlatform.Protocol.Responses

namespace StreamingPlatform

open ByteString Interleave World

/-!
# Cluster — leadership over whole runs

All brokers are started with the same leader, and no broker ever has a reason to doubt
another one: whenever it runs `maybe_elect_leader`, it considers all of its peers available
(`healthy`).  Nothing else is assumed of the run.  The leader then stays in office if and only
if it has the lowest id of the cluster (`leader_stays_iff`).  Otherwise its first heartbeat
round takes the office away from it: it elects the lowest broker, which goes on pointing to
the old leader because that one is up.  From then on there is no leader, and no request that
needs one is ever answered with success again (`no_success_without_leader`).
-/

/-! ### Roles that fit -/

theorem Node.SameRole.roleFits {s s' : Node} (h : s.SameRole s') (hconfig : s'.config = s.config)
    (hs : s.RoleFits) : s'.RoleFits := by
  unfold Node.RoleFits Node.isLeader at hs ⊢
  rw [h.1, h.2, hconfig]
  exact hs

variable {k τ : Nat} {a : Act} {c : Choice} {e : EnvStep}
  {started : Option (Program (Option Response))} {n : Int} {b : BrokerConfig} {r : a.Result}

theorem Configured.exec {cluster : Membership} {w w' : World} {τ : Nat} {a : Act} {c : Choice}
    {r : a.Result} (hc : Configured cluster w.nodes) (h : World.exec τ a c w = some (r, w')) :
    Configured cluster w'.nodes := by
  have hconfig : ∀ n, (w'.nodes n).config = (w.nodes n).config :=
    fun n => ((World.exec_mono h).1.nodes n).config
  refine ⟨fun b hb => (hconfig _).trans (hc.config b hb), fun b hb => ?_⟩
  rcases World.exec_role h b.brokerId with ⟨-, hsame⟩ | ⟨-, -, heq⟩
  · exact hsame.roleFits (hconfig _) (hc.role b hb)
  · rw [heq]
    exact (hc.role b hb).maybeElectLeader

theorem Configured.env {cluster : Membership} {w w' : World} (hc : Configured cluster w.nodes)
    (h : World.env k e w = some (w', started)) : Configured cluster w'.nodes := by
  have hconfig : ∀ n, (w'.nodes n).config = (w.nodes n).config :=
    fun n => ((World.env_mono h).1.nodes n).config
  exact ⟨fun b hb => (hconfig _).trans (hc.config b hb),
    fun b hb => (World.env_role h _).roleFits (hconfig _) (hc.role b hb)⟩

/-! ### Where the brokers point -/

/-- Elections take place at brokers that consider all of their peers available. -/
def healthy : Guard Act World EnvStep where
  act w τ a := a = .node .maybeElectLeader → ∀ n, w.RunsAt τ n →
    ∀ peer ∈ (w.nodes n).config.peers, (w.nodes n).sees peer.brokerId = true
  env _ _ := True

/-- Broker `n` has held an election. -/
def World.Elected (w : World) (n : Int) : Prop :=
  ∃ τ, w.RunsAt τ n ∧ w.Did τ (.node .maybeElectLeader) ()

/-- What was elected stays in the history. -/
theorem World.Elected.mono {w w' : World} (hw : w.Elected n) (h : w.Mono w') : w'.Elected n := by
  obtain ⟨τ, hat, hdid⟩ := hw
  exact ⟨τ, h.runsAt hat, h.did hdid⟩

/-- The lowest id of a cluster. -/
def Membership.Lowest (cluster : Membership) (m : Int) : Prop :=
  IsLeast {i | ∃ b ∈ cluster.brokers, b.brokerId = i} m

/-- A cluster has a lowest broker. -/
theorem Membership.exists_lowest {cluster : Membership} (hb : b ∈ cluster.brokers) :
    ∃ m, cluster.Lowest m := by
  let ids := (cluster.brokers.map BrokerConfig.brokerId).toFinset
  have hids : ∀ i, i ∈ ids ↔ ∃ b ∈ cluster.brokers, b.brokerId = i := by simp [ids]
  have hne : ids.Nonempty := ⟨b.brokerId, (hids _).mpr ⟨b, hb, rfl⟩⟩
  exact ⟨ids.min' hne, (hids _).mp (ids.min'_mem hne),
    fun i hi => ids.min'_le i ((hids i).mpr hi)⟩

/-- A broker that sees all of its peers elects the lowest. -/
theorem lowestSeen_of_sees {cluster : Membership} {m : Int} (hm : cluster.Lowest m) {s : Node}
    (hs : s.config ∈ cluster.brokers)
    (hsees : ∀ peer ∈ s.config.peers, s.sees peer.brokerId = true) : s.lowestSeen = m := by
  obtain ⟨hmem, hown, hall⟩ := s.lowestSeen_spec
  refine le_antisymm ?_ ?_
  · obtain ⟨b, hb, hid⟩ := hm.1
    by_cases heq : b = s.config
    · rw [← hid, heq]
      exact hown
    · have hpeer : b.asPeer ∈ s.config.peers := (cluster.mem_peers _ hs _).mpr ⟨b, hb, heq, rfl⟩
      have hne : b.brokerId ≠ s.config.brokerId :=
        fun h => heq (Membership.eq_of_brokerId_eq hb hs h)
      rw [← hid]
      exact hall b.asPeer hpeer ⟨hne, hsees _ hpeer⟩
  · rcases hmem with heq | ⟨peer, hpeer, -, heq⟩
    · rw [heq]
      exact hm.2 ⟨_, hs, rfl⟩
    · obtain ⟨-, b, hb, hid⟩ := (Membership.peers_ids hs).2 peer hpeer
      rw [heq, ← hid]
      exact hm.2 ⟨b, hb, rfl⟩

/-- Where the brokers point in a run in which nobody doubts anybody: all to the leader they
    were started with, except for the leader itself once it has held an election. -/
structure Pointed (cluster : Membership) (leader m : Int) (w : World) : Prop where
  configured : Configured cluster w.nodes
  others : ∀ b ∈ cluster.brokers, b.brokerId ≠ leader →
    (w.nodes b.brokerId).leaderBrokerId = leader
  before : ¬ w.Elected leader → (w.nodes leader).leaderBrokerId = leader
  after : w.Elected leader → (w.nodes leader).leaderBrokerId = m

namespace Pointed

variable {cluster : Membership} {leader m : Int} {w w' : World}

/-- A member's pointer leads to the leader or, if it is the leader's, to the lowest broker. -/
theorem leader_or_lowest (h : Pointed cluster leader m w) (hb : b ∈ cluster.brokers) :
    (w.nodes b.brokerId).leaderBrokerId = leader ∨
      (b.brokerId = leader ∧ (w.nodes b.brokerId).leaderBrokerId = m) := by
  by_cases hown : b.brokerId = leader
  · rw [hown]
    by_cases helected : w.Elected leader
    · exact .inr ⟨rfl, h.after helected⟩
    · exact .inl (h.before helected)
  · exact .inl (h.others b hb hown)

/-- **One election.**  A broker that sees all its peers keeps a pointer to another one; a
    broker that points to itself elects the lowest. -/
theorem leaderBrokerId_elect (hm : cluster.Lowest m) (h : Pointed cluster leader m w)
    (hleader : ∃ b ∈ cluster.brokers, b.brokerId = leader) (hb : b ∈ cluster.brokers)
    (hsees : ∀ peer ∈ b.peers, (w.nodes b.brokerId).sees peer.brokerId = true) :
    (w.nodes b.brokerId).maybeElectLeader.leaderBrokerId
      = if b.brokerId = leader then m else leader := by
  have hconfig := h.configured.config b hb
  rw [Node.leaderBrokerId_maybeElectLeader, hconfig]
  have hlowest : (w.nodes b.brokerId).lowestSeen = m :=
    lowestSeen_of_sees hm (hconfig.symm ▸ hb) (by rw [hconfig]; exact hsees)
  -- every other member is a peer that is seen
  have hseen : ∀ i, (∃ b' ∈ cluster.brokers, b'.brokerId = i) → i ≠ b.brokerId →
      (w.nodes b.brokerId).sees i = true := by
    rintro i ⟨b', hb', rfl⟩ hne
    have hpeer : b'.asPeer ∈ b.peers :=
      (cluster.mem_peers b hb _).mpr ⟨b', hb', fun heq => hne (by rw [heq]), rfl⟩
    exact hsees _ hpeer
  by_cases hown : b.brokerId = leader
  · rw [if_pos hown]
    split
    · next hkept =>
      rcases h.leader_or_lowest hb with hself | ⟨-, hlow⟩
      · exact absurd (hself.trans hown.symm) hkept.1
      · exact hlow
    · exact hlowest
  · rw [if_neg hown]
    have hpointer := h.others b hb hown
    have hne : leader ≠ b.brokerId := fun heq => hown heq.symm
    rw [hpointer, if_pos ⟨hne, hseen leader hleader hne⟩]

/-- Only an election of the first leader moves its pointer. -/
theorem exec (hm : cluster.Lowest m) (hleader : ∃ b ∈ cluster.brokers, b.brokerId = leader)
    (hP : Pointed cluster leader m w) (hG : healthy.act w τ a)
    (h : World.exec τ a c w = some (r, w')) : Pointed cluster leader m w' := by
  -- what an election does to the pointer of a member
  have helect : ∀ b ∈ cluster.brokers, a = .node .maybeElectLeader → w.RunsAt τ b.brokerId →
      w'.nodes b.brokerId = (w.nodes b.brokerId).maybeElectLeader →
      (w'.nodes b.brokerId).leaderBrokerId = if b.brokerId = leader then m else leader := by
    intro b hb ha hat heq
    rw [heq]
    refine hP.leaderBrokerId_elect hm hleader hb (fun peer hpeer => hG ha _ hat peer ?_)
    rw [hP.configured.config b hb]
    exact hpeer
  obtain ⟨b₀, hb₀, rfl⟩ := hleader
  refine ⟨hP.configured.exec h, fun b hb hne => ?_, fun hnot => ?_, fun helected => ?_⟩
  · rcases World.exec_role h b.brokerId with ⟨-, hsame⟩ | ⟨ha, hat, heq⟩
    · rw [hsame.2]
      exact hP.others b hb hne
    · rw [helect b hb ha hat heq, if_neg hne]
  · rcases World.exec_role h b₀.brokerId with ⟨-, hsame⟩ | ⟨rfl, hat, heq⟩
    · rw [hsame.2]
      exact hP.before (fun helected => hnot (helected.mono (World.exec_mono h).1))
    · exact absurd ⟨τ, (World.exec_mono h).1.runsAt hat, World.did_exec h⟩ hnot
  · rcases World.exec_role h b₀.brokerId with ⟨hother, hsame⟩ | ⟨ha, hat, heq⟩
    · rw [hsame.2]
      refine hP.after ?_
      -- the election was held before, for this action is not one of the leader
      obtain ⟨τ', hat', hdid⟩ := helected
      have hat₀ : w.RunsAt τ' b₀.brokerId := by
        unfold RunsAt at hat' ⊢
        rwa [(World.exec_history h).2] at hat'
      rcases did_cases h hdid with hold | hnew
      · exact ⟨τ', hat₀, hold⟩
      · cases hnew
        exact absurd ⟨rfl, hat₀⟩ hother
    · rw [helect b₀ hb₀ ha hat heq, if_pos rfl]

theorem env (hI : Inv cluster w) (hP : Pointed cluster leader m w)
    (h : World.env k e w = some (w', started)) : Pointed cluster leader m w' := by
  have hmono := (World.env_mono h).1
  have hsame : ∀ n, (w'.nodes n).leaderBrokerId = (w.nodes n).leaderBrokerId :=
    fun n => (World.env_role h n).2
  refine ⟨hP.configured.env h, fun b hb hne => ?_, fun hnot => ?_, fun helected => ?_⟩
  · rw [hsame]
    exact hP.others b hb hne
  · rw [hsame]
    exact hP.before (fun helected => hnot (helected.mono hmono))
  · rw [hsame]
    obtain ⟨τ, hat, hdid⟩ := helected
    unfold Did at hdid
    rw [(World.env_cases h).1.history] at hdid
    obtain ⟨n, hn⟩ := hI.ran _ hdid
    obtain rfl := (hmono.runsAt hn).unique hat
    exact hP.after ⟨τ, hn, hdid⟩

end Pointed

section Healthy

variable {setup : Setup} {leader m : Int} {p : ClusterPool}

/-- At the start all point to the configured leader. -/
theorem pointed_start (hstart : setup.StartedWith leader) :
    Pointed setup.cluster leader m setup.pool.world := by
  have hpointer : ∀ b ∈ setup.cluster.brokers,
      (setup.node b.brokerId).leaderBrokerId = leader :=
    fun b hb => ((setup.node_of_mem hb).2.2).trans (hstart.pointer b hb)
  obtain ⟨b₀, hb₀, hid⟩ := hstart.member
  refine ⟨hstart.configured, fun b hb _ => hpointer b hb, fun _ => ?_, fun helected => ?_⟩
  · rw [← hid]
    exact (hpointer b₀ hb₀).trans hid.symm
  · obtain ⟨τ, -, hdid⟩ := helected
    exact absurd hdid List.not_mem_nil

/-- In a healthy run the pointers are what `Pointed` says they are. -/
theorem pointed_of_healthy (hstart : setup.StartedWith leader) (hm : setup.cluster.Lowest m)
    (h : Reachable clusterMachine healthy setup.pool p) :
    Pointed setup.cluster leader m p.world :=
  (cluster_invariant (fun _ hP hG _ hexec => hP.exec hm hstart.member hG hexec)
    (fun hI hP _ henv => hP.env hI henv) setup.inv setup.allSafe (pointed_start hstart) h).2.2

/-- A broker that has just been started is up, its mutex is free, and it considers every peer
    available. -/
theorem Setup.node_started (setup : Setup) (hb : b ∈ setup.cluster.brokers) :
    (setup.node b.brokerId).alive = true ∧ (setup.node b.brokerId).mutex = none ∧
      ∀ id, (setup.node b.brokerId).sees id = true := by
  unfold Setup.node
  cases h : setup.cluster.broker? b.brokerId with
  | none => exact absurd (beq_self_eq_true b.brokerId) (List.find?_eq_none.mp h b hb)
  | some b' =>
    refine ⟨rfl, rfl, fun id => ?_⟩
    simp only [Node.sees, ReplicationManager.isPeerAvailable, ReplicationManager.expirePeers,
      ReplicationManager.isExpired, ReplicationManager.construct]
    split <;> simp

/-- A heartbeat round takes the mutex and elects. -/
theorem heartbeat_elects (config : BrokerConfig) : ∃ k, heartbeat config
    = .act (.node .lock) (fun _ => .act (.node .maybeElectLeader) k) := ⟨_, rfl⟩

/-- The first thread of the cluster is a heartbeat round of broker `n`. -/
def Setup.roundBegun (setup : Setup) (n : Int) : World :=
  { nodes := setup.node, tasks := [⟨n, .heartbeat⟩] }

/-- The round has taken the mutex. -/
def Setup.roundLocked (setup : Setup) (n : Int) : World :=
  { setup.roundBegun n with
    nodes := Function.update setup.node n { setup.node n with mutex := some 0 }
    history := [⟨0, .node .lock, ()⟩] }

/-- The round gets to its election. -/
theorem reachable_roundLocked (halive : (setup.node n).alive = true)
    (hmutex : (setup.node n).mutex = none) {k : Unit → Program (Option Response)}
    (hprog : heartbeat (setup.node n).config
      = .act (.node .lock) (fun _ => .act (.node .maybeElectLeader) k)) :
    Reachable clusterMachine healthy setup.pool
      ⟨setup.roundLocked n, [.act (.node .maybeElectLeader) k]⟩ := by
  have hbegin : clusterMachine.env 0 (.heartbeat n) setup.pool.world
      = some (setup.roundBegun n, some (heartbeat (setup.node n).config)) := if_pos ⟨rfl, halive⟩
  have hlock : NodeAct.step 0 (setup.node n) .lock .succeeds
      = some ((), { setup.node n with mutex := some 0 }) := if_pos hmutex
  have hexec : clusterMachine.exec 0 (.node .lock) .succeeds (setup.roundBegun n)
      = some ((), setup.roundLocked n) :=
    exec_of_node (show (setup.roundBegun n).tasks[0]? = some ⟨n, .heartbeat⟩ from rfl) halive
      hlock
  have hguard : healthy.act (setup.roundBegun n) 0 (.node .lock) := fun h => by cases h
  have hreach : Reachable clusterMachine healthy setup.pool
      ⟨setup.roundBegun n, [heartbeat (setup.node n).config]⟩ :=
    Reachable.env (G := healthy) (p := setup.pool) trivial hbegin
  exact hreach.trans (Reachable.run (p := ⟨setup.roundBegun n, [heartbeat (setup.node n).config]⟩)
    (k := fun _ => .act (.node .maybeElectLeader) k) (congrArg some hprog) hguard hexec)

/-- The first heartbeat round of a broker. -/
theorem exists_elected (hb : b ∈ setup.cluster.brokers) :
    ∃ p, Reachable clusterMachine healthy setup.pool p ∧ p.world.Elected b.brokerId := by
  obtain ⟨halive, hmutex, hsees⟩ := setup.node_started hb
  generalize hn : b.brokerId = n at halive hmutex hsees ⊢
  obtain ⟨k, hprog⟩ := heartbeat_elects (setup.node n).config
  have hlocked : (setup.roundLocked n).nodes n = { setup.node n with mutex := some 0 } :=
    Function.update_self ..
  have helect : NodeAct.step 0 ((setup.roundLocked n).nodes n) .maybeElectLeader .succeeds
      = some ((), ((setup.roundLocked n).nodes n).maybeElectLeader) := by
    rw [hlocked]
    exact Node.step_maybeElectLeader (.inr rfl) .succeeds
  have halive' : ((setup.roundLocked n).nodes n).alive = true := by
    rw [hlocked]
    exact halive
  have hguard : healthy.act (setup.roundLocked n) 0 (.node .maybeElectLeader) := by
    rintro - n' ⟨task, htask, rfl⟩ peer -
    obtain rfl := Option.some.inj htask
    show ((setup.roundLocked n).nodes n).sees peer.brokerId = true
    rw [hlocked]
    exact hsees peer.brokerId
  have hexec : clusterMachine.exec 0 (.node .maybeElectLeader) .succeeds (setup.roundLocked n)
      = _ :=
    exec_of_node (show (setup.roundLocked n).tasks[0]? = some ⟨n, .heartbeat⟩ from rfl) halive'
      helect
  have hreach := Reachable.run
    (p := ⟨setup.roundLocked n, [.act (.node .maybeElectLeader) k]⟩) rfl hguard hexec
  exact ⟨_, (reachable_roundLocked halive hmutex hprog).trans hreach, 0,
    ⟨⟨n, .heartbeat⟩, rfl, rfl⟩, List.mem_append_right _ (List.mem_singleton.mpr rfl)⟩

/-- **When the leader stays in office.**  All brokers are started with the same leader.  In
    every healthy run they all go on pointing to it, and it alone considers itself leader, if
    and only if it has the lowest id of the cluster. -/
theorem leader_stays_iff (setup : Setup) (leader : Int) (hstart : setup.StartedWith leader) :
    (∀ p, Reachable clusterMachine healthy setup.pool p → ∀ b ∈ setup.cluster.brokers,
      (p.world.nodes b.brokerId).leaderBrokerId = leader ∧
        ((p.world.nodes b.brokerId).isLeader = true ↔ b.brokerId = leader))
      ↔ ∀ b ∈ setup.cluster.brokers, leader ≤ b.brokerId := by
  obtain ⟨b₀, hb₀, hid⟩ := id hstart.member
  obtain ⟨m, hm⟩ := Membership.exists_lowest hb₀
  constructor
  · -- the first heartbeat round of the leader elects the lowest broker
    intro hstays b hb
    obtain ⟨p, hreach, helected⟩ := exists_elected hb₀
    have hpointer := (hstays p hreach b₀ hb₀).1
    rw [hid] at helected hpointer
    rw [(pointed_of_healthy hstart hm hreach).after helected] at hpointer
    rw [← hpointer]
    exact hm.2 ⟨b, hb, rfl⟩
  · intro hlowest p hreach b hb
    obtain rfl : m = leader := le_antisymm (hm.2 ⟨b₀, hb₀, hid⟩) (by
      obtain ⟨b', hb', hid'⟩ := hm.1
      rw [← hid']
      exact hlowest b' hb')
    have hP := pointed_of_healthy hstart hm hreach
    have hpointer : (p.world.nodes b.brokerId).leaderBrokerId = m :=
      (hP.leader_or_lowest hb).elim id (fun h => h.2)
    refine ⟨hpointer, ?_⟩
    have hrole := hP.configured.role b hb
    unfold Node.RoleFits at hrole
    rw [hrole, hpointer, hP.configured.config b hb]
    exact eq_comm

/-- Started with broker 1 as leader, brokers 1 and 2 keep it; started with broker 2, they do
    not keep that one. -/
theorem leader_stays_iff_two :
    (∀ p, Reachable clusterMachine healthy twoBrokers.pool p → ∀ b ∈ twoBrokers.cluster.brokers,
      (p.world.nodes b.brokerId).leaderBrokerId = 1 ∧
        ((p.world.nodes b.brokerId).isLeader = true ↔ b.brokerId = 1)) ∧
    ¬ ∀ p, Reachable clusterMachine healthy ledByTwo.pool p → ∀ b ∈ ledByTwo.cluster.brokers,
      (p.world.nodes b.brokerId).leaderBrokerId = 2 ∧
        ((p.world.nodes b.brokerId).isLeader = true ↔ b.brokerId = 2) := by
  have hone : twoBrokers.StartedWith 1 := ⟨by decide, by decide, by decide⟩
  have htwo : ledByTwo.StartedWith 2 := ⟨by decide, by decide, by decide⟩
  rw [leader_stays_iff twoBrokers 1 hone, leader_stays_iff ledByTwo 2 htwo]
  exact ⟨by decide, by decide⟩

end Healthy

/-! ### Without a leader -/

/-- No member considers itself leader. -/
def Leaderless (cluster : Membership) (w : World) : Prop :=
  ∀ b ∈ cluster.brokers, (w.nodes b.brokerId).isLeader = false

/-- Runs without a leader. -/
def leaderless (cluster : Membership) : Guard Act World EnvStep where
  act w _ _ := Leaderless cluster w
  env w _ := Leaderless cluster w

/-- A response that is written as a failure is read as one. -/
theorem parseResponse_failure {r : Response} (h : r.success = false) :
    (parseResponse (serializeResponse r)).success = false := by
  by_cases hmalformed : parseResponse (serializeResponse r) = malformedResponse
  · rw [hmalformed]
    rfl
  · obtain ⟨-, success, kind, hbyte, hbytes⟩ := spells_of_ne_malformed hmalformed
    -- the byte after the version
    have hread : (serializeResponse r)[1]? = some success := by
      rw [hbytes]
      rfl
    have hwritten : (serializeResponse r)[1]? = some 0 := by
      rw [serializeResponse, h]
      rfl
    rw [hread, Option.some.injEq] at hwritten
    rw [hbyte, hwritten]
    rfl

section Refusals

variable {cluster : Membership}

/-- Whatever runs is a member of the cluster. -/
structure Staffed (cluster : Membership) (w : World) : Prop where
  alive : ∀ n, (w.nodes n).alive = true → ∃ b ∈ cluster.brokers, b.brokerId = n
  tasks : ∀ (τ : Nat) (task : Task), w.tasks[τ]? = some task →
    ∃ b ∈ cluster.brokers, b.brokerId = task.node

theorem Staffed.exec {w w' : World} (hw : Staffed cluster w)
    (h : World.exec τ a c w = some (r, w')) : Staffed cluster w' := by
  refine ⟨fun n hn => hw.alive n (World.exec_alive h n ▸ hn), ?_⟩
  rw [(World.exec_history h).2]
  exact hw.tasks

theorem Staffed.env {w w' : World} (hw : Staffed cluster w)
    (h : World.env k e w = some (w', started)) : Staffed cluster w' := by
  refine ⟨fun n hn => hw.alive n ((World.env_cases h).1.alive n hn), fun τ task ht => ?_⟩
  rcases World.env_task h ht with hold | ⟨-, -, -, halive, -⟩
  · exact hw.tasks τ task hold
  · exact hw.alive task.node halive

/-- Runs without a leader: what needs one is not answered with success. -/
def refusals (cluster : Membership) : Outage where
  step _ _ _ := true
  envStep _ _ := true
  guard := leaderless cluster
  Asked _ request := request.Forwarded
  Answer response := response.success = false
  Inv := Staffed cluster
  exec_inv := fun hw h => hw.exec h
  env_inv := fun hw h => hw.env h
  forwarded := id
  follower := by
    rintro w τ a n request hw hG ⟨task, htask, rfl⟩ -
    obtain ⟨b, hb, hid⟩ := hw.tasks τ task htask
    rw [← hid]
    exact hG b hb

/-- **Forwarding without a leader.**  What comes back is a failure, be it of the broker's own or
    the answer of another one. -/
theorem relayed_refusals {T C : Nat} : (refusals cluster).Relayed T C := by
  intro τ w n request _ hforwarded hsame
  have hfail : ∀ {w : World} (text : String), Safe (refusals cluster).rely
      ((refusals cluster).protocol T C) τ (fun r _ => r.success = false)
      (pure (Response.failure text)) w :=
    fun _ => Safe.ret (fun _ _ _ => rfl)
  unfold forwardToLeader
  refine Safe.perform (fun w₁ _ _ _ => ⟨trivial, fun _ endpoint w₂ _ _ => ?_⟩)
  cases endpoint with
  | none => exact hfail _
  | some leader =>
    refine Safe.perform (fun w₃ _ hI₃ _ => ⟨trivial, fun _ sent w₄ hsend _ => ?_⟩)
    cases sent with
    | unreachable => exact hfail _
    | writeFailed => exact hfail _
    | sent conn =>
      -- the connection is a new one
      obtain ⟨hconn, hconns⟩ : conn = w₃.conns.length ∧ w₄.conns = w₃.conns ++
          [{ dest := leader.brokerId, payload := encodeRequest request }] := by
        rcases exec_send hsend with ⟨heq, hconns⟩ | ⟨hnot, -⟩
        · exact ⟨SendResult.sent.inj heq, hconns⟩
        · exact absurd rfl (hnot conn)
      have hopened : w₄.conns[conn]?
          = some { dest := leader.brokerId, payload := encodeRequest request } := by
        rw [hconns, hconn]
        exact List.getElem?_concat_length
      refine Safe.perform (fun w₅ hR₅ hI₅ _ => ⟨trivial, fun _ frame? w₆ hreceive _ => ?_⟩)
      cases frame? with
      | none => exact hfail _
      | some frame =>
        refine Safe.ret (fun _ _ _ => ?_)
        obtain ⟨c, hc, hhead⟩ := exec_receive hreceive
        obtain ⟨c', hc', -, hpayload⟩ := hR₅.1.conns conn _ hopened
        rw [hc, Option.some.injEq] at hc'
        subst hc'
        obtain ⟨response, hfalse, rfl⟩ :=
          (hI₅.frames conn c hc frame (List.mem_of_mem_head? hhead)).elim (hconn ▸ hI₃.opened) hc
            (show (parseRequest c.payload).Forwarded by rw [hpayload, hsame]; exact hforwarded)
        exact parseResponse_failure hfalse

/-- **While there is no leader**, no request that needs one and is taken up meanwhile is answered
    with success. -/
theorem refused_of_leaderless {G : Guard Act World EnvStep} {setup : Setup} {p p' : ClusterPool}
    (h : Reachable clusterMachine G setup.pool p)
    (h' : Reachable clusterMachine (leaderless setup.cluster) p p')
    (hnow : Leaderless setup.cluster p'.world) {request : Request} {response : Response}
    (hlate : p.world.tasks[τ]? = none) (hserves : p'.world.Serves τ n request)
    (hforwarded : request.Forwarded) (hreturned : Returned p' τ response) :
    response.success = false := by
  obtain ⟨hI, -⟩ := cluster_sound h
  have hstaffed : Staffed setup.cluster p.world :=
    ⟨fun n hn => ⟨_, hI.alive n hn⟩, fun τ task ht => ⟨_, hI.tasks τ task ht⟩⟩
  rw [← Machine.restrict_true (M := clusterMachine)] at h'
  exact Outage.answer_of_relayed (O := refusals setup.cluster) relayed_refusals h hstaffed h'
    (fun _ => hnow) hlate hserves hforwarded hreturned

end Refusals

/-! ### The outage -/

/-- The check for `healthy`. -/
def healthy? (p : ClusterPool) : Label Choice EnvStep → Bool
  | .run τ _ =>
    match p.world.tasks[τ]? with
    | some task => (nextAct? p τ != some (.node .maybeElectLeader)) ||
        (p.world.nodes task.node).config.peers.all
          (fun peer => (p.world.nodes task.node).sees peer.brokerId)
    | none => false
  | .env _ => true

/-- The check decides the guard. -/
theorem healthy_allows (p : ClusterPool) (l : Label Choice EnvStep) (h : healthy? p l = true) :
    healthy.Allows p l := by
  cases l with
  | env e => trivial
  | run τ c =>
    rintro a k hprog rfl n ⟨task, htask, rfl⟩ peer hpeer
    simp only [healthy?, htask, nextAct?_eq hprog, bne_self_eq_false, Bool.false_or,
      List.all_eq_true] at h
    exact h peer hpeer

/-- Once the leader has stepped down there is none. -/
theorem Pointed.leaderless {cluster : Membership} {leader m : Int} {w : World}
    (hP : Pointed cluster leader m w) (helected : w.Elected leader) (hne : m ≠ leader) :
    Leaderless cluster w := by
  intro b hb
  have hrole := hP.configured.role b hb
  unfold Node.RoleFits at hrole
  rw [← Bool.not_eq_true, hrole, hP.configured.config b hb]
  by_cases hown : b.brokerId = leader
  · rw [hown, hP.after helected]
    exact hne
  · rw [hP.others b hb hown]
    exact fun h => hown h.symm

/-- **A leader that is not the lowest broker means an outage for good.**  All brokers are started
    with the same leader, which has not the lowest id, and no broker ever doubts another one.
    Once the leader has gone through an election, no broker is leader ever after, and no request
    that needs a leader and is taken up from then on is answered with success, at whichever
    broker it arrives. -/
theorem no_success_without_leader (setup : Setup) (leader : Int)
    (hstart : setup.StartedWith leader)
    (hlower : ∃ b ∈ setup.cluster.brokers, b.brokerId < leader) {p p' : ClusterPool}
    (h : Reachable clusterMachine healthy setup.pool p) (helected : p.world.Elected leader)
    (h' : Reachable clusterMachine healthy p p') :
    (∀ b ∈ setup.cluster.brokers, (p'.world.nodes b.brokerId).isLeader = false) ∧
      ∀ τ n request response, p.world.tasks[τ]? = none → p'.world.Serves τ n request →
        request.Forwarded → Returned p' τ response → response.success = false := by
  obtain ⟨b, hb, hlt⟩ := hlower
  obtain ⟨m, hm⟩ := Membership.exists_lowest hb
  have hne : m ≠ leader := ((hm.2 ⟨b, hb, rfl⟩).trans_lt hlt).ne
  have hnone : ∀ {q}, Reachable clusterMachine healthy p q → Leaderless setup.cluster q.world :=
    fun hq => (pointed_of_healthy hstart hm (h.trans hq)).leaderless
      (helected.mono (reachable_mono hq)) hne
  have hrun : Reachable clusterMachine (leaderless setup.cluster) p p' := by
    refine h'.restrict (fun q l hq _ => ?_)
    cases l with
    | run τ c => exact fun _ _ _ => hnone hq
    | env e => exact hnone hq
  exact ⟨hnone h', fun τ n request response hlate hserves hforwarded hreturned =>
    refused_of_leaderless h hrun (hnone h') hlate hserves hforwarded hreturned⟩

/-- Brokers 1 and 2 are started with broker 2 as leader.  After its first heartbeat round a
    client's produce goes from broker 1 to broker 2, which fails to hand it back. -/
theorem no_success_without_leader_two :
    ∃ p p', Reachable clusterMachine healthy ledByTwo.pool p ∧ p.world.Elected 2 ∧
      Reachable clusterMachine healthy p p' ∧
      finished p' 1 = some (.failure "leader_unreachable") ∧
      ∀ b ∈ ledByTwo.cluster.brokers, (p'.world.nodes b.brokerId).isLeader = false := by
  have hstart : ledByTwo.StartedWith 2 := ⟨by decide, by decide, by decide⟩
  obtain ⟨p, p', h, h', hpointer, hfinished⟩ := clusterMachine.exists_reachable_later healthy_allows
    (fun p p' => (p.world.nodes 2).leaderBrokerId = 1 ∧
      finished p' 1 = some (.failure "leader_unreachable"))
    ledByTwo.pool ([.env (.heartbeat 2)] ++ go 0 2)
    ([.env (.client 1 (produceOf [65]))] ++ go 1 3 ++ [.env (.accept 0)] ++ go 2 2 ++
      [.run 2 .fails] ++ go 2 1 ++ go 1 2) (by decide +kernel)
  -- the pointer has changed, so there was an election
  have helected : p.world.Elected 2 := by
    obtain ⟨b, hb, -⟩ := hstart.member
    obtain ⟨m, hm⟩ := Membership.exists_lowest hb
    by_contra hnot
    rw [(pointed_of_healthy hstart hm h).before hnot] at hpointer
    exact absurd hpointer (by decide)
  exact ⟨p, p', h, helected, h', hfinished,
    (no_success_without_leader ledByTwo 2 hstart (by decide) h helected h').1⟩

end StreamingPlatform
