import StreamingPlatform.Cluster.Leadership
import StreamingPlatform.Cluster.Smooth

namespace StreamingPlatform

open ByteString Interleave World

/-!
# Cluster — failover

Some brokers `S` are cut off from the rest of the cluster, because the others have crashed or
cannot be reached.  From then on nobody in `S` hears from anybody outside, and whoever of them
holds an election considers its peers in `S` available (`parted`).  Nothing else is assumed of
the run.

A heartbeat round first elects and then tries to reach the peers.  So the first complete round
of a broker tells it who is gone, and the election of its next round makes use of that.  After
two complete rounds of every broker in `S` all of them point to the lowest one and it alone is
leader, if and only if none of them pointed to another broker of `S` but the lowest when the
others went (`failover_iff`).  In particular this is so when they all pointed to a leader that
has gone.
-/

/-! ### Complete rounds -/

/-- Threads that owe nothing. -/
def unwatched : Protocol clusterMachine anyStep where
  Inv _ := True
  Pre _ _ _ := True
  exec_inv := fun _ _ _ _ => trivial
  env_inv := fun _ _ _ => trivial

/-- Thread `τ` has tried to reach a peer, and its broker has noted how that ended. -/
def World.Tried (w : World) (τ : Nat) (id : Int) : Prop :=
  w.Did τ (.node (.handleHeartbeat id)) () ∨ w.Did τ (.node (.markFollowerFailed id)) ()

variable {id : Int} {k : Nat} {e : EnvStep} {G : Guard Act World EnvStep} {p : ClusterPool}
  {c : Choice} {a : Act} {started : Option (Program (Option Response))} {r : a.Result}

theorem World.Mono.tried {w w' : World} (h : w.Mono w') {τ : Nat} {id : Int}
    (hw : w.Tried τ id) : w'.Tried τ id :=
  hw.imp h.did h.did

section Rounds

variable {τ : Nat} {w : World}

theorem unwatched_any {α : Type} (p : Program α) :
    Safe clusterRely unwatched τ (fun _ _ => True) p w := by
  induction p generalizing w with
  | ret a => exact fun _ _ _ => trivial
  | act a k ih => exact fun _ _ _ _ => ⟨trivial, fun _ r _ _ => ih r⟩

/-- A peer whose exchange was noted has been tried. -/
theorem tries_recordExchange (peer : ClusterPeer) (ok : Bool) :
    Safe clusterRely unwatched τ (fun _ w' => w'.Tried τ peer.brokerId)
      (recordExchange peer ok) w := by
  unfold recordExchange
  split
  · intro w₁ _ _ _
    refine ⟨trivial, fun c r w₂ hexec => Safe.ret (fun w₃ hrely _ => ?_)⟩
    exact .inl (hrely.1.did (did_exec hexec))
  · intro w₁ _ _ _
    refine ⟨trivial, fun c r w₂ hexec => Safe.ret (fun w₃ hrely _ => ?_)⟩
    exact .inr (hrely.1.did (did_exec hexec))

/-- A heartbeat round tries its peer. -/
theorem tries_heartbeatRound (config : BrokerConfig) (request : Bytes) (peer : ClusterPeer) :
    Safe clusterRely unwatched τ
      (fun _ w' => peer.brokerId ≠ config.brokerId → w'.Tried τ peer.brokerId)
      (heartbeatRound config request peer) w := by
  unfold heartbeatRound
  split
  · next hown => exact Safe.ret (fun _ _ _ hne => absurd hown hne)
  · refine Safe.bind trivial (unwatched_any _) (fun ok w₁ _ _ _ => ?_)
    exact (tries_recordExchange peer ok).mono (fun _ _ _ _ htried _ => htried)

/-- The loop tries all peers. -/
theorem tries_peers (config : BrokerConfig) (request : Bytes) (peers : List ClusterPeer) :
    Safe clusterRely unwatched τ
      (fun _ w' => ∀ peer ∈ peers, peer.brokerId ≠ config.brokerId → w'.Tried τ peer.brokerId)
      (peers.forM (heartbeatRound config request)) w := by
  induction peers generalizing w with
  | nil => exact Safe.ret (fun _ _ _ peer hpeer => absurd hpeer List.not_mem_nil)
  | cons first rest ih =>
    refine Safe.bind trivial (tries_heartbeatRound config request first) ?_
    intro _ w₁ _ _ hfirst
    refine ih.mono (fun _ w₂ hmono _ hrest peer hpeer hne => ?_)
    rcases List.mem_cons.mp hpeer with rfl | hpeer
    · exact hmono.tried (hfirst hne)
    · exact hrest peer hpeer hne

/-- What a round has done: it has held an election and tried all peers. -/
def World.RoundDone (w : World) (τ : Nat) (config : BrokerConfig) : Prop :=
  w.Did τ (.node .maybeElectLeader) () ∧
    ∀ peer ∈ config.peers, peer.brokerId ≠ config.brokerId → w.Tried τ peer.brokerId

theorem World.Mono.roundDone {w' : World} (h : w.Mono w') {config : BrokerConfig}
    (hw : w.RoundDone τ config) : w'.RoundDone τ config :=
  ⟨h.did hw.1, fun peer hpeer hne => h.tried (hw.2 peer hpeer hne)⟩

/-- A heartbeat tries all peers and then elects. -/
theorem roundDone_heartbeat (config : BrokerConfig) :
    Safe clusterRely unwatched τ (fun _ w' => w'.RoundDone τ config) (heartbeat config) w := by
  unfold heartbeat broadcastHeartbeat withLock
  refine Safe.bind (Q := fun _ w' => w'.RoundDone τ config) trivial ?_ ?_
  · refine Safe.perform (fun w₁ _ _ _ => ⟨trivial, fun _ _ w₂ _ _ => ?_⟩)
    refine Safe.bind (Q := fun _ w' => w'.RoundDone τ config) trivial ?_ ?_
    · refine Safe.perform (fun w₃ _ _ _ => ⟨trivial, fun _ _ w₄ helect _ => ?_⟩)
      refine Safe.perform (fun w₅ hrely _ _ => ⟨trivial, fun _ _ w₆ hexec _ => ?_⟩)
      have hdid : w₆.Did τ (.node .maybeElectLeader) () :=
        (World.exec_mono hexec).1.did (hrely.1.did (did_exec helect))
      exact (tries_peers config _ config.peers).mono
        (fun _ _ hmono _ htried => ⟨hmono.did hdid, htried⟩)
    · intro _ w₃ _ _ hdone
      refine Safe.perform (fun w₄ hrely _ _ => ⟨trivial, fun _ _ w₅ hexec _ => ?_⟩)
      have hdone' : w₅.RoundDone τ config :=
        (World.exec_mono hexec).1.roundDone (hrely.1.roundDone hdone)
      exact Safe.ret (fun w₆ hrely' _ => hrely'.1.roundDone hdone')
  · intro _ w₁ _ _ hdone
    exact Safe.ret (fun w₂ hrely _ => hrely.1.roundDone hdone)

/-- A thread of a heartbeat round has done all of it when it is at its end. -/
def World.EndsRound (w : World) (τ : Nat) : Prop :=
  ∀ n, w.tasks[τ]? = some ⟨n, .heartbeat⟩ → w.RoundDone τ (w.nodes n).config

/-- Of all programs, only heartbeats are rounds. -/
theorem endsRound_program {w' : World} {prog : Program (Option Response)}
    (h : World.env k e w = some (w', some prog)) :
    Safe clusterRely unwatched k (fun _ w'' => w''.EndsRound k) prog w' := by
  obtain ⟨task, -, htask, rfl⟩ := World.env_started h
  -- of other tasks there is nothing to show
  have hother : task.source ≠ .heartbeat → ∀ p : Program (Option Response),
      Safe clusterRely unwatched k (fun _ w'' => w''.EndsRound k) p w' := by
    intro hsource p
    refine (unwatched_any p).mono (fun _ w'' hmono _ _ n hn => ?_)
    rw [hmono.task htask, Option.some.injEq] at hn
    rw [hn] at hsource
    exact absurd rfl hsource
  obtain ⟨m, source⟩ := task
  cases source with
  | client payload => exact hother Source.noConfusion _
  | peer conn payload => exact hother Source.noConfusion _
  | heartbeat =>
    refine (roundDone_heartbeat _).mono (fun _ w'' hmono _ hdone n hn => ?_)
    rw [hmono.task htask, Option.some.injEq, Task.mk.injEq] at hn
    have hconfig : (w''.nodes n).config = (w.nodes m).config := by
      rw [← hn.1]
      exact ((hmono.nodes m).config).trans (((World.env_mono h).1.nodes m).config)
    rw [hconfig]
    exact hdone

/-- A heartbeat that has finished has made its round. -/
theorem endsRound_of_finished {setup : Setup} (h : Reachable clusterMachine G setup.pool p)
    {r : Option Response} (hprog : p.progs[τ]? = some (.ret r)) : p.world.EndsRound τ := by
  have hsafe : AllSafe clusterRely unwatched (fun τ _ w => w.EndsRound τ) setup.pool := by
    intro τ prog hτ
    cases hτ
  obtain ⟨-, hall, -⟩ := unwatched.invariant clusterRely (fun _ _ henv => endsRound_program henv)
    ⟨fun _ => trivial, fun _ => trivial⟩ (J := fun _ => True)
    (fun _ _ _ _ _ => trivial) (fun _ _ _ _ => trivial) trivial hsafe trivial h
  exact hall.result trivial hprog

end Rounds

/-! ### Who is known to be gone -/

/-- **A peer that counts as failed** does so until it is heard of. -/
theorem NodeAct.step_failed {τ : Nat} {s s' : Node} {a : NodeAct} {r : a.Result}
    (h : a.step τ s c = some (r, s')) (hne : a ≠ .handleHeartbeat id)
    (hfailed : s.replication.failedPeers id = true) : s'.replication.failedPeers id = true := by
  have hplain : ∀ {x : a.Result} {t : Node},
      (some (x, t) : Option (a.Result × Node)) = some (r, s') →
      t.replication.failedPeers id = true → s'.replication.failedPeers id = true := by
    intro x t heq ht
    rwa [← (Prod.mk.inj (Option.some.inj heq)).2]
  have hlocked : ∀ {x : a.Result} {t : Node}, s.locked τ (x, t) = some (r, s') →
      t.replication.failedPeers id = true → s'.replication.failedPeers id = true := by
    intro x t heq ht
    rwa [(Prod.mk.inj (Node.locked_eq_some heq).2).2]
  -- a sweep only adds to the failed peers
  have hswept : (s.replication.failedPeers id || s.replication.isExpired s.now id) = true := by
    rw [hfailed]
    rfl
  cases a with
  | lock | unlock | append =>
    obtain ⟨-, h⟩ := Option.ite_none_right_eq_some.mp h
    exact hplain h hfailed
  | maybeElectLeader =>
    obtain ⟨hmay, -⟩ := Node.locked_eq_some h
    rw [Node.step_maybeElectLeader hmay c] at h
    refine hplain h ?_
    rw [Node.replication_maybeElectLeader]
    exact hswept
  | handleAck other topic partition offset =>
    refine hlocked h ?_
    split
    · unfold ReplicationManager.handleAck
      dsimp only
      split <;> exact hfailed
    · exact hfailed
  | markFollowerFailed other =>
    refine hlocked h ?_
    show Function.update s.replication.failedPeers other true id = true
    by_cases heq : id = other
    · rw [heq, Function.update_self]
    · rw [Function.update_of_ne heq]
      exact hfailed
  | handleHeartbeat other =>
    refine hlocked h ?_
    -- the one action that revives a peer, but another one
    show Function.update s.replication.failedPeers other false id = true
    rw [Function.update_of_ne (fun heq => hne (by rw [heq]))]
    exact hfailed
  | failExpired => exact hlocked h hswept
  | openAcks | markCommitted | quorumReached | isCommitted | isPeerAvailable =>
    exact hlocked h hfailed
  | polls => cases c <;> exact hplain h hfailed
  | _ => exact hplain h hfailed

/-- Nobody in `S` hears from anybody outside, and whoever elects there sees its peers in `S`. -/
def parted (S : Finset Int) : Guard Act World EnvStep where
  act w τ a := ∀ n ∈ S, w.RunsAt τ n → (∀ id, a = .node (.handleHeartbeat id) → id ∈ S) ∧
    (a = .node .maybeElectLeader → ∀ peer ∈ (w.nodes n).config.peers, peer.brokerId ∈ S →
      (w.nodes n).sees peer.brokerId = true)
  env _ _ := True

section Parted

variable {cluster : Membership} {S : Finset Int} {m : Int} {w w' : World}

/-- Broker `n` counts `id` as failed. -/
def World.Gone (w : World) (n id : Int) : Prop := (w.nodes n).replication.failedPeers id = true

/-- Whoever is outside and counts as failed, does so from then on. -/
theorem World.Gone.exec {n : Int} (hgone : w.Gone n id) (hn : n ∈ S) (hid : id ∉ S) {τ : Nat}
    (hG : (parted S).act w τ a) (h : World.exec τ a c w = some (r, w')) : w'.Gone n id := by
  rcases exec_control h n with ⟨heq, -⟩ | ⟨act, rfl, hat, -⟩
  · unfold World.Gone
    rw [heq]
    exact hgone
  · refine NodeAct.step_failed (exec_node_at h hat) ?_ hgone
    rintro rfl
    exact hid ((hG n hn hat).1 id rfl)

/-- A peer that is gone stays gone. -/
theorem World.Gone.env {n : Int} (hgone : w.Gone n id) (h : World.env k e w = some (w', started)) :
    w'.Gone n id := by
  obtain ⟨now, alive, hnode⟩ := (env_cases h).1.nodes n
  unfold World.Gone
  rw [hnode]
  exact hgone

/-- What the threads know that have been started after the first `T` ones. -/
structure Noted (S : Finset Int) (T : Nat) (w : World) : Prop where
  /-- They have not heard from anybody outside. -/
  silent : ∀ (τ : Nat) (n id : Int), T ≤ τ → w.RunsAt τ n → n ∈ S → id ∉ S →
    ¬ w.Did τ (.node (.handleHeartbeat id)) ()
  /-- Whom they could not reach counts as failed. -/
  gone : ∀ (τ : Nat) (n id : Int), T ≤ τ → w.RunsAt τ n → n ∈ S → id ∉ S →
    w.Did τ (.node (.markFollowerFailed id)) () → w.Gone n id

namespace Noted

variable {T : Nat}

theorem exec (hN : Noted S T w) {τ : Nat} (hG : (parted S).act w τ a)
    (h : World.exec τ a c w = some (r, w')) : Noted S T w' := by
  have hback : ∀ {τ' : Nat} {n : Int}, w'.RunsAt τ' n → w.RunsAt τ' n :=
    fun hat => (runsAt_exec h _ _).mp hat
  refine ⟨fun τ' n id hτ hat hn hid hdid => ?_, fun τ' n id hτ hat hn hid hdid => ?_⟩
  · rcases did_cases h hdid with hold | hnew
    · exact hN.silent τ' n id hτ (hback hat) hn hid hold
    · cases hnew
      exact hid ((hG n hn (hback hat)).1 id rfl)
  · rcases did_cases h hdid with hold | hnew
    · exact (hN.gone τ' n id hτ (hback hat) hn hid hold).exec hn hid hG h
    · cases hnew
      have hstep := Node.locked_eq_some (exec_node_at h (hback hat))
      unfold World.Gone
      rw [(Prod.mk.inj hstep.2).2]
      exact Function.update_self ..

theorem env (hN : Noted S T w) (hI : Inv cluster w) (h : World.env k e w = some (w', started)) :
    Noted S T w' := by
  refine ⟨fun τ n id hτ hat hn hid hdid => ?_, fun τ n id hτ hat hn hid hdid => ?_⟩
  · obtain ⟨hat', hdid'⟩ := did_env hI h hat hdid
    exact hN.silent τ n id hτ hat' hn hid hdid'
  · obtain ⟨hat', hdid'⟩ := did_env hI h hat hdid
    exact (hN.gone τ n id hτ hat' hn hid hdid').env h

/-- **A complete round tells who is gone.** -/
theorem gone_of_round (hN : Noted S T w) {τ : Nat} {n : Int} (hτ : T ≤ τ) (hn : n ∈ S)
    (htask : w.tasks[τ]? = some ⟨n, .heartbeat⟩) (hround : w.EndsRound τ) {peer : ClusterPeer}
    (hpeer : peer ∈ (w.nodes n).config.peers) (hne : peer.brokerId ≠ (w.nodes n).config.brokerId)
    (hout : peer.brokerId ∉ S) : w.Gone n peer.brokerId := by
  have hat : w.RunsAt τ n := ⟨_, htask, rfl⟩
  rcases (hround n htask).2 peer hpeer hne with hheard | hfailed
  · exact absurd hheard (hN.silent τ n _ hτ hat hn hout)
  · exact hN.gone τ n _ hτ hat hn hout hfailed

end Noted

/-! ### Where the pointers go -/

variable {b : BrokerConfig}

/-- A broker that sees all of `S` elects nobody of `S` but the lowest. -/
theorem lowestSeen_of_mem (hc : Configured cluster w.nodes) (hS : LiveSet cluster S m)
    (hb : b ∈ cluster.brokers)
    (hseen : ∀ i ∈ S, i ≠ b.brokerId → (w.nodes b.brokerId).sees i = true)
    (hmem : (w.nodes b.brokerId).lowestSeen ∈ S) : (w.nodes b.brokerId).lowestSeen = m := by
  obtain ⟨-, hown, hall⟩ := (w.nodes b.brokerId).lowestSeen_spec
  rw [hc.config b hb] at hown hall
  refine le_antisymm ?_ (hS.least.2 hmem)
  by_cases heq : m = b.brokerId
  · rw [heq]
    exact hown
  · obtain ⟨b', hb', hid⟩ := hS.members m hS.least.1
    have hpeer : b'.asPeer ∈ b.peers :=
      (cluster.mem_peers b hb _).mpr ⟨b', hb', fun h => heq (by rw [← hid, h]), rfl⟩
    rw [← hid] at heq ⊢
    have hin : b'.brokerId ∈ S := by
      rw [hid]
      exact hS.least.1
    exact hall b'.asPeer hpeer ⟨heq, hseen _ hin heq⟩

/-- **An election in `S`** does not change where the pointer is bound for. -/
theorem settle_maybeElectLeader (hc : Configured cluster w.nodes) (hS : LiveSet cluster S m)
    (hb : b ∈ cluster.brokers)
    (hsees : ∀ peer ∈ b.peers, peer.brokerId ∈ S → (w.nodes b.brokerId).sees peer.brokerId = true) :
    settle S m b.brokerId (w.nodes b.brokerId).maybeElectLeader.leaderBrokerId
      = settle S m b.brokerId (w.nodes b.brokerId).leaderBrokerId := by
  have hconfig := hc.config b hb
  -- another broker of `S` is a peer that is seen
  have hseen : ∀ i ∈ S, i ≠ b.brokerId → (w.nodes b.brokerId).sees i = true := by
    intro i hi hne
    obtain ⟨b', hb', rfl⟩ := hS.members i hi
    have hpeer : b'.asPeer ∈ b.peers :=
      (cluster.mem_peers b hb _).mpr ⟨b', hb', fun heq => hne (by rw [heq]), rfl⟩
    exact hsees _ hpeer hi
  rw [Node.leaderBrokerId_maybeElectLeader, hconfig]
  split
  · rfl
  · next hnot =>
    -- the pointer led to the broker itself or out of `S`
    have hleft : ¬ ((w.nodes b.brokerId).leaderBrokerId ∈ S ∧
        (w.nodes b.brokerId).leaderBrokerId ≠ b.brokerId) :=
      fun hboth => hnot ⟨hboth.2, hseen _ hboth.1 hboth.2⟩
    rw [settle, settle, if_neg hleft]
    split
    · next hkept => exact lowestSeen_of_mem hc hS hb hseen hkept.1
    · rfl

/-- The election that broker `n` would hold now. -/
def electionAt (w : World) (n : Int) : Election := ⟨n, (w.nodes n).replication, (w.nodes n).now⟩

/-- It does to the broker what `maybe_elect_leader` does. -/
theorem elect_electionAt (w : World) (n : Int) :
    elect w.nodes (electionAt w n) n = (w.nodes n).maybeElectLeader :=
  Function.update_self ..

/-- **An election of a broker that knows who is gone** settles its pointer. -/
theorem leaderBrokerId_of_gone (hc : Configured cluster w.nodes) (hp : PointsInside cluster w.nodes)
    (hS : LiveSet cluster S m) (hb : b ∈ cluster.brokers) (hin : b.brokerId ∈ S)
    (hsees : ∀ peer ∈ b.peers, peer.brokerId ∈ S → (w.nodes b.brokerId).sees peer.brokerId = true)
    (hgone : ∀ peer ∈ b.peers, peer.brokerId ∉ S → w.Gone b.brokerId peer.brokerId) :
    (w.nodes b.brokerId).maybeElectLeader.leaderBrokerId
      = settle S m b.brokerId (w.nodes b.brokerId).leaderBrokerId := by
  have he : (electionAt w b.brokerId).Settling cluster S := by
    refine ⟨hin, fun b' hb' hid peer hpeer => ?_⟩
    obtain rfl : b' = b := Membership.eq_of_brokerId_eq hb' hb hid
    constructor
    · intro hseen
      by_contra hout
      have hfailed := hgone peer hpeer hout
      unfold World.Gone at hfailed
      -- a peer that counts as failed is not seen
      simp only [electionAt, ReplicationManager.isPeerAvailable,
        ReplicationManager.expirePeers, hfailed, Bool.true_or, Bool.not_true] at hseen
      cases hseen
    · exact fun hmem => hsees peer hpeer hmem
  rw [← elect_electionAt]
  exact leaderBrokerId_elect hc hp hS he

end Parted

/-! ### Two rounds -/

/-- Pointers lead to members in every run. -/
theorem PointsInside.exec {cluster : Membership} {w w' : World} {τ : Nat}
    (hp : PointsInside cluster w.nodes) (hc : Configured cluster w.nodes)
    (h : World.exec τ a c w = some (r, w')) : PointsInside cluster w'.nodes := by
  intro b hb
  rcases World.exec_role h b.brokerId with ⟨-, hsame⟩ | ⟨-, -, heq⟩
  · rw [hsame.2]
    exact hp b hb
  · rw [heq, ← elect_electionAt]
    exact hp.elect hc (electionAt w b.brokerId) b hb

/-- The environment names no leader. -/
theorem PointsInside.env {cluster : Membership} {w w' : World} (hp : PointsInside cluster w.nodes)
    (h : World.env k e w = some (w', started)) : PointsInside cluster w'.nodes := by
  intro b hb
  rw [(World.env_role h _).2]
  exact hp b hb

section Failover

variable {setup : Setup} {leader m : Int} {S : Finset Int}

/-- A cluster that is started with one leader has fitting roles, and pointers to members, ever
    after. -/
theorem configured_of_startedWith (hstart : setup.StartedWith leader)
    (h : Reachable clusterMachine G setup.pool p) :
    Configured setup.cluster p.world.nodes ∧ PointsInside setup.cluster p.world.nodes :=
  (cluster_invariant
    (J := fun w => Configured setup.cluster w.nodes ∧ PointsInside setup.cluster w.nodes)
    (fun _ hJ _ _ hexec => ⟨hJ.1.exec hexec, hJ.2.exec hJ.1 hexec⟩)
    (fun _ hJ _ henv => ⟨hJ.1.env henv, hJ.2.env henv⟩) setup.inv setup.allSafe
    ⟨hstart.configured, hstart.pointsInside⟩ h).2.2

/-- The brokers of `S` since the others have gone: `T` threads have been started before, and
    their pointers were `old`. -/
structure Drifting (cluster : Membership) (S : Finset Int) (m : Int) (T : Nat) (old : Int → Int)
    (w : World) : Prop where
  configured : Configured cluster w.nodes
  inside : PointsInside cluster w.nodes
  noted : Noted S T w
  bound : ∀ n ∈ S, settle S m n (w.nodes n).leaderBrokerId = settle S m n (old n)

namespace Drifting

variable {cluster : Membership} {T : Nat} {old : Int → Int} {w w' : World}

theorem exec (hS : LiveSet cluster S m) (hD : Drifting cluster S m T old w) {τ : Nat}
    (hG : (parted S).act w τ a) (h : World.exec τ a c w = some (r, w')) :
    Drifting cluster S m T old w' := by
  refine ⟨hD.configured.exec h, hD.inside.exec hD.configured h, hD.noted.exec hG h,
    fun n hn => ?_⟩
  rcases World.exec_role h n with ⟨-, hsame⟩ | ⟨ha, hat, heq⟩
  · rw [hsame.2]
    exact hD.bound n hn
  · obtain ⟨b, hb, rfl⟩ := hS.members n hn
    have hsees := (hG _ hn hat).2 ha
    rw [hD.configured.config b hb] at hsees
    rw [heq, settle_maybeElectLeader hD.configured hS hb hsees]
    exact hD.bound _ hn

theorem env (hI : Inv cluster w) (hD : Drifting cluster S m T old w)
    (h : World.env k e w = some (w', started)) : Drifting cluster S m T old w' := by
  refine ⟨hD.configured.env h, hD.inside.env h, hD.noted.env hI h, fun n hn => ?_⟩
  rw [(World.env_role h n).2]
  exact hD.bound n hn

end Drifting

/-- A broker `n` of `S` since it knows who is gone: `T` threads have been started before. -/
structure Settling (cluster : Membership) (S : Finset Int) (m : Int) (T₀ T : Nat)
    (old : Int → Int) (n : Int) (w : World) : Prop where
  drifting : Drifting cluster S m T₀ old w
  gone : ∀ b ∈ cluster.brokers, b.brokerId = n → ∀ peer ∈ b.peers, peer.brokerId ∉ S →
    w.Gone n peer.brokerId
  elected : ∀ τ : Nat, T ≤ τ → w.RunsAt τ n →
    w.Did τ (.node .maybeElectLeader) () → (w.nodes n).leaderBrokerId = settle S m n (old n)

namespace Settling

variable {cluster : Membership} {T₀ T : Nat} {old : Int → Int} {n : Int} {w w' : World}

theorem exec (hS : LiveSet cluster S m) (hn : n ∈ S) (hE : Settling cluster S m T₀ T old n w)
    {τ : Nat} (hG : (parted S).act w τ a) (h : World.exec τ a c w = some (r, w')) :
    Settling cluster S m T₀ T old n w' := by
  have hD := hE.drifting
  refine ⟨hD.exec hS hG h, fun b hb hid peer hpeer hout => ?_, fun τ' hτ hat hdid => ?_⟩
  · exact (hE.gone b hb hid peer hpeer hout).exec hn hout hG h
  · rcases World.exec_role h n with ⟨hother, hsame⟩ | ⟨ha, hat', heq⟩
    · -- the election was held before
      rw [hsame.2]
      have hat₀ := (runsAt_exec h τ' n).mp hat
      rcases did_cases h hdid with hold | hnew
      · exact hE.elected τ' hτ hat₀ hold
      · cases hnew
        exact absurd ⟨rfl, hat₀⟩ hother
    · -- the broker knows who is gone, and elects
      obtain ⟨b, hb, rfl⟩ := hS.members n hn
      have hsees := (hG _ hn hat').2 ha
      rw [hD.configured.config b hb] at hsees
      rw [heq, leaderBrokerId_of_gone hD.configured hD.inside hS hb hn hsees (hE.gone b hb rfl)]
      exact hD.bound _ hn

theorem env (hI : Inv cluster w) (hE : Settling cluster S m T₀ T old n w)
    (h : World.env k e w = some (w', started)) : Settling cluster S m T₀ T old n w' := by
  refine ⟨hE.drifting.env hI h, fun b hb hid peer hpeer hout => ?_, fun τ hτ hat hdid => ?_⟩
  · exact (hE.gone b hb hid peer hpeer hout).env h
  · rw [(World.env_role h n).2]
    obtain ⟨hat', hdid'⟩ := did_env hI h hat hdid
    exact hE.elected τ hτ hat' hdid'

end Settling

/-- Thread `τ` is a heartbeat round of broker `n` that was begun and ended between `p` and
    `p'`. -/
def RoundBetween (p p' : ClusterPool) (n : Int) (τ : Nat) : Prop :=
  p.world.tasks[τ]? = none ∧ p'.world.tasks[τ]? = some ⟨n, .heartbeat⟩ ∧
    (p'.progs[τ]?).bind Prog.result? = some none

instance (p p' : ClusterPool) (n : Int) (τ : Nat) : Decidable (RoundBetween p p' n τ) :=
  inferInstanceAs (Decidable (_ ∧ _))

variable {p' : ClusterPool}

/-- What such a round has done. -/
theorem RoundBetween.done {n : Int} {τ : Nat} (hround : RoundBetween p p' n τ)
    (h : Reachable clusterMachine G setup.pool p') :
    p.world.tasks.length ≤ τ ∧ p'.world.tasks[τ]? = some ⟨n, .heartbeat⟩ ∧
      p'.world.EndsRound τ := by
  obtain ⟨hnew, htask, hresult⟩ := hround
  obtain ⟨prog, hprog, hret⟩ := Option.bind_eq_some_iff.mp hresult
  rw [Prog.eq_ret_of_result? hret] at hprog
  exact ⟨List.getElem?_eq_none_iff.mp hnew, htask, endsRound_of_finished h hprog⟩

/-- Broker `n` has been through two complete rounds, one after another, between `p` and `p'`,
    while `S` was cut off. -/
def TwoRounds (S : Finset Int) (p p' : ClusterPool) (n : Int) : Prop :=
  ∃ p₁, Reachable clusterMachine (parted S) p p₁ ∧ Reachable clusterMachine (parted S) p₁ p' ∧
    (∃ τ, RoundBetween p p₁ n τ) ∧ ∃ τ, RoundBetween p₁ p' n τ

/-- Both rounds are part of one run. -/
theorem TwoRounds.reachable {n : Int} (h : TwoRounds S p p' n) :
    Reachable clusterMachine (parted S) p p' := by
  obtain ⟨p₁, h₁, h₂, -⟩ := h
  exact h₁.trans h₂

/-- **Two rounds settle the pointer of a broker.** -/
theorem TwoRounds.settled (hstart : setup.StartedWith leader) (hS : LiveSet setup.cluster S m)
    (h : Reachable clusterMachine G setup.pool p) {n : Int} (hn : n ∈ S)
    (hrounds : TwoRounds S p p' n) :
    (p'.world.nodes n).leaderBrokerId = settle S m n (p.world.nodes n).leaderBrokerId := by
  obtain ⟨p₁, h₁, h₂, ⟨τ₁, hfirst⟩, τ₂, hsecond⟩ := hrounds
  have h₀₁ := (reachable_anyStep h).trans (reachable_anyStep h₁)
  have h₀₂ := h₀₁.trans (reachable_anyStep h₂)
  obtain ⟨hI, hsafe⟩ := cluster_sound h
  obtain ⟨hc, hp⟩ := configured_of_startedWith hstart h
  -- nobody has been started yet
  have hnone : ∀ {q : ClusterPool} {τ : Nat} {n : Int}, q.world.tasks.length ≤ τ →
      ¬ q.world.RunsAt τ n := by
    rintro q τ n hτ ⟨task, htask, -⟩
    exact absurd (List.getElem?_eq_some_iff.mp htask).1 (Nat.not_lt.mpr hτ)
  have hdrift : Drifting setup.cluster S m p.world.tasks.length
      (fun n => (p.world.nodes n).leaderBrokerId) p.world :=
    ⟨hc, hp, ⟨fun _ _ _ hτ hat => absurd hat (hnone hτ), fun _ _ _ hτ hat => absurd hat (hnone hτ)⟩,
      fun _ _ => rfl⟩
  obtain ⟨hI₁, hsafe₁, hdrift₁⟩ := cluster_invariant
    (fun _ hJ hG _ hexec => hJ.exec hS hG hexec) (fun hI hJ _ henv => hJ.env hI henv) hI hsafe
    hdrift h₁
  -- its first round has told it who is gone
  have hgone : ∀ b ∈ setup.cluster.brokers, b.brokerId = n → ∀ peer ∈ b.peers,
      peer.brokerId ∉ S → p₁.world.Gone n peer.brokerId := by
    rintro b hb rfl peer hpeer hout
    obtain ⟨hnew, htask, hends⟩ := hfirst.done h₀₁
    have hconfig := hdrift₁.configured.config b hb
    refine hdrift₁.noted.gone_of_round hnew hn htask hends (hconfig.symm ▸ hpeer) ?_ hout
    rw [hconfig]
    exact fun heq => hout (heq ▸ hn)
  have hsettling : Settling setup.cluster S m p.world.tasks.length p₁.world.tasks.length
      (fun n => (p.world.nodes n).leaderBrokerId) n p₁.world :=
    ⟨hdrift₁, hgone, fun _ hτ hat => absurd hat (hnone hτ)⟩
  obtain ⟨-, -, hsettling₂⟩ := cluster_invariant
    (fun _ hJ hG _ hexec => hJ.exec hS hn hG hexec) (fun hI hJ _ henv => hJ.env hI henv) hI₁ hsafe₁
    hsettling h₂
  -- and its second round has held an election
  obtain ⟨hnew, htask, hends⟩ := hsecond.done h₀₂
  exact hsettling₂.elected τ₂ hnew ⟨_, htask, rfl⟩ (hends n htask).1

/-- Which pointers end at the lowest broker. -/
theorem settle_eq_lowest (S : Finset Int) (m i q : Int) :
    settle S m i q = m ↔ (q ∈ S → q = i ∨ q = m) := by
  unfold settle
  split
  · next h =>
    constructor
    · exact fun heq _ => .inr heq
    · exact fun himp => (himp h.1).resolve_left h.2
  · next h =>
    refine ⟨fun _ hin => .inl ?_, fun _ => rfl⟩
    by_contra hne
    exact h ⟨hin, hne⟩

/-- **When failover succeeds.**  All brokers are started with the same leader, and anything may
    have happened until some brokers `S` are cut off from the others.  Once each of them has been
    through two complete heartbeat rounds, one after another, all of them point to the lowest
    broker of `S` and that one alone is leader among them, if and only if none of them pointed to
    another broker of `S` than itself and the lowest when the others went. -/
theorem failover_iff (setup : Setup) (leader : Int) (hstart : setup.StartedWith leader)
    (hS : LiveSet setup.cluster S m) {G : Guard Act World EnvStep} {p p' : ClusterPool}
    (h : Reachable clusterMachine G setup.pool p) (hrounds : ∀ n ∈ S, TwoRounds S p p' n) :
    (∀ n ∈ S, (p'.world.nodes n).leaderBrokerId = m ∧
      ((p'.world.nodes n).isLeader = true ↔ n = m)) ↔
    ∀ n ∈ S, (p.world.nodes n).leaderBrokerId ∈ S →
      (p.world.nodes n).leaderBrokerId = n ∨ (p.world.nodes n).leaderBrokerId = m := by
  have hsettled : ∀ n ∈ S, (p'.world.nodes n).leaderBrokerId
      = settle S m n (p.world.nodes n).leaderBrokerId :=
    fun n hn => (hrounds n hn).settled hstart hS h hn
  have h' := (reachable_anyStep h).trans (reachable_anyStep (hrounds m hS.least.1).reachable)
  obtain ⟨hc, -⟩ := configured_of_startedWith hstart h'
  constructor
  · intro hled n hn
    rw [← settle_eq_lowest, ← hsettled n hn]
    exact (hled n hn).1
  · intro hpointers n hn
    have hpointer : (p'.world.nodes n).leaderBrokerId = m := by
      rw [hsettled n hn, settle_eq_lowest]
      exact hpointers n hn
    refine ⟨hpointer, ?_⟩
    obtain ⟨b, hb, rfl⟩ := hS.members n hn
    have hrole := hc.role b hb
    unfold Node.RoleFits at hrole
    rw [hrole, hpointer, hc.config b hb]
    exact eq_comm

/-- The check for `parted`. -/
def parted? (S : Finset Int) (p : ClusterPool) : Label Choice EnvStep → Bool
  | .run τ _ =>
    match p.world.tasks[τ]?, nextAct? p τ with
    | some task, some (.node (.handleHeartbeat id)) => task.node ∉ S || id ∈ S
    | some task, some (.node .maybeElectLeader) =>
      (p.world.nodes task.node).config.peers.all (fun peer =>
        peer.brokerId ∉ S || (p.world.nodes task.node).sees peer.brokerId)
    | _, _ => true
  | .env _ => true

/-- The check decides the guard. -/
theorem parted_allows (S : Finset Int) (p : ClusterPool) (l : Label Choice EnvStep)
    (h : parted? S p l = true) : (parted S).Allows p l := by
  cases l with
  | env e => trivial
  | run τ c =>
    rintro a k hprog n hn ⟨task, htask, rfl⟩
    simp only [parted?, htask, nextAct?_eq hprog] at h
    constructor
    · rintro id rfl
      simpa [hn] using h
    · rintro rfl peer hpeer hin
      have hall := List.all_eq_true.mp h peer hpeer
      simpa [hin] using hall

/-- A heartbeat round of thread `τ` in a cluster of three brokers, of which the first cannot be
    reached. -/
def roundWithoutFirst (n : Int) (τ : Nat) : List (Label Choice EnvStep) :=
  [.env (.heartbeat n)] ++ go τ 3 ++ [.run τ .fails] ++ go τ 4

/-- What is to be seen when broker 1 is down in `p` and brokers 2 and 3 hold a round each until
    `p₁` and another one until `p₂`. -/
def SeenFailover (p p₁ p₂ : ClusterPool) : Prop :=
  (p.world.nodes 1).alive = false ∧
  (∀ n ∈ ({2, 3} : Finset Int), (p.world.nodes n).leaderBrokerId = 1) ∧
  (RoundBetween p p₁ 2 0 ∧ RoundBetween p p₁ 3 1) ∧
  RoundBetween p₁ p₂ 2 2 ∧ RoundBetween p₁ p₂ 3 3

instance (p p₁ p₂ : ClusterPool) : Decidable (SeenFailover p p₁ p₂) :=
  inferInstanceAs (Decidable (_ ∧ _))

/-- Brokers 2 and 3 go on, and 2 is the lowest of them. -/
theorem liveSet_two_three : LiveSet threeBrokers.cluster {2, 3} 2 := by
  refine ⟨by decide, by decide, fun i hi => ?_⟩
  rcases Finset.mem_insert.mp (Finset.mem_coe.mp hi) with rfl | hi
  · exact le_rfl
  · rw [Finset.mem_singleton.mp hi]
    decide

/-- Brokers 1, 2 and 3, of which 1 is the leader and crashes.  After two rounds of broker 2 and
    two of broker 3 both point to broker 2, which is the leader. -/
theorem failover_iff_three :
    ∃ p p', Reachable clusterMachine brokerTraffic threeBrokers.pool p ∧
      (p.world.nodes 1).alive = false ∧ Reachable clusterMachine (parted {2, 3}) p p' ∧
      ∀ n ∈ ({2, 3} : Finset Int), (p'.world.nodes n).leaderBrokerId = 2 ∧
        ((p'.world.nodes n).isLeader = true ↔ n = 2) := by
  have hstart : threeBrokers.StartedWith 1 := ⟨by decide, by decide, by decide⟩
  obtain ⟨p, h, hlater⟩ := clusterMachine.exists_reachable clientTraffic_allows
    (fun p => (clusterMachine.run (parted? {2, 3}) p
        (roundWithoutFirst 2 0 ++ roundWithoutFirst 3 1)).any (fun p₁ =>
      (clusterMachine.run (parted? {2, 3}) p₁
        (roundWithoutFirst 2 2 ++ roundWithoutFirst 3 3)).any (fun p₂ =>
          decide (SeenFailover p p₁ p₂))) = true)
    threeBrokers.pool [.env (.crash 1)] (by decide +kernel)
  obtain ⟨p₁, p₂, h₁, h₂, hdown, hled, ⟨hfirst₂, hfirst₃⟩, hsecond₂, hsecond₃⟩ :=
    clusterMachine.exists_reachable_later (parted_allows {2, 3}) (SeenFailover p) p _ _ hlater
  have hrounds : ∀ n ∈ ({2, 3} : Finset Int), TwoRounds {2, 3} p p₂ n := by
    intro n hn
    rcases Finset.mem_insert.mp hn with rfl | hn
    · exact ⟨p₁, h₁, h₂, ⟨0, hfirst₂⟩, 2, hsecond₂⟩
    · rw [Finset.mem_singleton.mp hn]
      exact ⟨p₁, h₁, h₂, ⟨1, hfirst₃⟩, 3, hsecond₃⟩
  refine ⟨p, p₂, h, hdown, h₁.trans h₂, (failover_iff threeBrokers 1 hstart liveSet_two_three h
    hrounds).mpr (fun n hn hin => ?_)⟩
  rw [hled n hn] at hin
  exact absurd hin (by decide)

end Failover

end StreamingPlatform
