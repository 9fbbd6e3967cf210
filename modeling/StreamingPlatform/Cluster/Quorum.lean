import StreamingPlatform.Cluster.Disks
import StreamingPlatform.Cluster.Threads
import Mathlib.Data.List.Perm.Subperm

namespace StreamingPlatform

open ByteString Interleave World

/-!
# Cluster — acknowledged records and the majority

A produce that was answered with success is on a majority of the brokers and stays there,
whatever else happens in the cluster.  The election, however, looks at broker ids and
liveness only, so a broker outside that majority can become leader
(`failover_elects_broker_without_record`); what remains true is that some live broker has
the record as long as only a minority has crashed.
-/

/-- **Acknowledged produces are on a majority**, from the moment the handler returns, and a
    broker that has not forwarded the produce holds the record itself, on every run whose
    topics have no `/`, whose frames are short enough and which opens logs without a race.  In
    particular, a response frame never passes for an ACK. -/
theorem acknowledged_produce_on_majority {setup : Setup} {p p' : ClusterPool}
    (h : Reachable clusterMachine (inScope brokerTraffic) setup.pool p)
    (h' : Reachable clusterMachine (inScope brokerTraffic) p p') {τ : Nat} {n : Int}
    {request : Request} {response : Response} (hserves : p.world.Serves τ n request)
    (htype : request.type = .produce) (hreturned : Returned p τ response)
    (hsuccess : response.success = true) :
    Majority setup.cluster (fun id => p'.world.Holds id request.topic request.partition
        response.appendedOffset request.message) ∧
      (p.world.Did τ (.node .isLeader) false ∨ p'.world.Holds n request.topic request.partition
        response.appendedOffset request.message) ∧
      ∀ r, (parseRequest (serializeResponse r)).type ≠ .ack := by
  obtain ⟨hI, hS⟩ := cluster_sound h
  have hserved := served_of_returned hI hS hserves hreturned
  refine ⟨?_, ?_, type_parseRequest_serializeResponse⟩
  · obtain ⟨-, hmajority⟩ :=
      hserved.forwarded (honest_of_reachable (Guard.within_refines _ _) h) htype
    obtain ⟨τ', n', hbacks⟩ := hmajority hsuccess
    exact World.Mono.majority (fun id hid => (reachable_mono h').holds hid.1) hbacks
  · have hlocal := hserved.promised hsuccess
    simp only [htype] at hlocal
    exact hlocal.imp_right (fun hread => (reachable_mono h').holds hread.holds)

/-- One record, acknowledged by the other of two brokers. -/
theorem acknowledged_produce_on_majority_of_two :
    ∃ p : ClusterPool, Reachable clusterMachine (inScope brokerTraffic) twoBrokers.pool p ∧
      Returned p 0 ⟨true, [], 0, []⟩ ∧
      Majority twoBrokers.cluster (fun id => p.world.Holds id (ofString "t") 0 0 [65]) := by
  obtain ⟨p, hreach, hfinished, htask⟩ := clusterMachine.exists_reachable
    (inScope_allows clientTraffic_allows)
    (fun p => finished p 0 = some ⟨true, [], 0, []⟩ ∧
      p.world.tasks[0]? = some ⟨1, .client (produceOf [65])⟩)
    twoBrokers.pool replicatedProduce (by decide +kernel)
  have hreturned := returned_of_finished hfinished
  exact ⟨p, hreach, hreturned, (acknowledged_produce_on_majority hreach .start
    ⟨_, htask, rfl, congrArg some parse_produceOf_A⟩ rfl hreturned rfl).1⟩

/-! ### Two topics in one directory -/

/-- A broker that was started in `/srv` with the data directory `data`. -/
def srvData : EngineSettings (List Bytes) :=
  engineSettings [ofString "srv"] (ofString "data") (1024 * 1024) 64 fitsBuffer

/-- Requests on partition 0 of `t` and of `./t`, whose logs are both in `/srv/data/t-0`. -/
def produceOn (topic message : String) : Bytes :=
  encodeRequest { type := .produce, topic := ofString topic, message := ofString message }

@[inherit_doc produceOn]
def fetchOn (topic : String) (offset : Nat) : Bytes :=
  encodeRequest { type := .fetch, topic := ofString topic, fetchOffset := offset }

/-- `a0` and `a1` are produced to `t`, and `b0` to `./t` between them. -/
def sharedProduces : List (Label Choice EnvStep) :=
  [.env (.client 1 (produceOn "t" "a0"))] ++ go 0 16 ++
    [.env (.client 1 (produceOn "./t" "b0"))] ++ go 1 16 ++
    [.env (.client 1 (produceOn "t" "a1"))] ++ go 2 16

/-- `a1` is fetched, and then `b0`. -/
def sharedFetches : List (Label Choice EnvStep) :=
  [.env (.client 1 (fetchOn "t" 1))] ++ go 3 3 ++ [.env (.client 1 (fetchOn "./t" 0))] ++ go 4 3

/-- The streams of the two logs write to one file, each where it has seen the end: `a1` and
    `b0` are both meant for the place behind `a0`.  `a1` is acknowledged at offset 1 of `t` and
    read there, until a fetch from `./t` writes `b0` over it, and the only broker of the
    cluster holds `b0` at that offset. -/
theorem acknowledged_record_overwritten :
    ∃ p p', Reachable (Disks.machine srvData) Disks.traffic (Disks.start oneBroker) p ∧
      Reachable (Disks.machine srvData) Disks.traffic p p' ∧
      p.world.world.Serves 2 1
        { type := .produce, topic := ofString "t", message := ofString "a1" } ∧
      p.progs[2]? = some (.ret (some ⟨true, [], 1, []⟩)) ∧
      p'.progs[3]? = some (.ret (some ⟨true, ofString "a1", 1, []⟩)) ∧
      ((p'.world.engines 1).fetch srvData (ofString "t") 0 1).1 = .ok (ofString "b0") := by
  obtain ⟨p, p', hreach, hreach', htask, hproduced, hfetched, hlater⟩ :=
    (Disks.machine srvData).exists_reachable_later Disks.traffic_allows
      (fun p p' => p.world.world.tasks[2]? = some ⟨1, .client (produceOn "t" "a1")⟩ ∧
        (p.progs[2]?).bind Prog.result? = some (some ⟨true, [], 1, []⟩) ∧
        (p'.progs[3]?).bind Prog.result? = some (some ⟨true, ofString "a1", 1, []⟩) ∧
        ((p'.world.engines 1).fetch srvData (ofString "t") 0 1).1 = .ok (ofString "b0"))
      (Disks.start oneBroker) sharedProduces sharedFetches (by decide +kernel)
  have hparse : parseRequest (produceOn "t" "a1")
      = { type := .produce, topic := ofString "t", message := ofString "a1" } := by
    decide +kernel
  exact ⟨p, p', hreach, hreach', ⟨_, htask, rfl, congrArg some hparse⟩,
    Prog.eq_ret_of_bind hproduced, Prog.eq_ret_of_bind hfetched, hlater⟩

/-! ### Failover -/

/-- The brokers that have crashed. -/
def crashed (cluster : Membership) (w : World) : List BrokerConfig :=
  cluster.brokers.filter (fun b => !(w.nodes b.brokerId).alive)

/-- A majority is not contained in a minority. -/
theorem exists_alive {cluster : Membership} {w : World} {ids : List Int} (hnodup : ids.Nodup)
    (hmember : ∀ id ∈ ids, id ∈ cluster.brokers.map BrokerConfig.brokerId)
    (hmajority : cluster.brokers.length < 2 * ids.length)
    (hminority : 2 * (crashed cluster w).length < cluster.brokers.length) :
    ∃ id ∈ ids, (w.nodes id).alive = true := by
  by_contra hnone
  push Not at hnone
  -- a majority of dead brokers would be more than have crashed
  have hsubset : ids ⊆ (crashed cluster w).map BrokerConfig.brokerId := by
    intro id hid
    obtain ⟨b, hb, rfl⟩ := List.mem_map.mp (hmember id hid)
    refine List.mem_map.mpr ⟨b, List.mem_filter.mpr ⟨hb, ?_⟩, rfl⟩
    simpa using hnone b.brokerId hid
  have hle := (hnodup.subperm hsubset).length_le
  rw [List.length_map] at hle
  omega

/-- Whoever has become leader has elected itself on the way, and took every broker below it for
    failed then. -/
theorem exists_election {G : Guard Act World EnvStep} {setup : Setup} {p p' : ClusterPool}
    (h : Reachable clusterMachine G setup.pool p) (h' : Reachable clusterMachine G p p') {L : Int}
    (hbefore : (p.world.nodes L).isLeader = false)
    (hafter : (p'.world.nodes L).isLeader = true) :
    ∃ q, Reachable clusterMachine G p q ∧ Reachable clusterMachine G q p' ∧
      (q.world.nodes L).isLeader = true ∧
      ∀ id ∈ setup.cluster.brokers.map BrokerConfig.brokerId, id < L →
        (q.world.nodes L).replication.isPeerAvailable id = false := by
  induction h' with
  | start => exact absurd (hbefore.symm.trans hafter) (by simp)
  | @step p₁ p₂ l hreach hallow hstep ih =>
    have hlast : Reachable clusterMachine G p₁ p₂ := Reachable.start.step l hallow hstep
    by_cases hmiddle : (p₁.world.nodes L).isLeader = true
    · obtain ⟨q, hq, hq', hleader⟩ := ih hmiddle
      exact ⟨q, hq, hq'.trans hlast, hleader⟩
    -- the last step is the election
    refine ⟨p₂, hreach.trans hlast, .start, hafter, ?_⟩
    have hsame : ¬ (p₁.world.nodes L).SameRole (p₂.world.nodes L) := by
      intro hrole
      unfold Node.isLeader at hmiddle hafter
      rw [hrole.1] at hafter
      exact hmiddle hafter
    rcases Machine.step_cases hstep with ⟨τ, c, a, k, r, -, -, hexec, -⟩ | ⟨e, started, -, henv, -⟩
    · rcases World.exec_role hexec L with ⟨-, hrole⟩ | ⟨-, hat, hnode⟩
      · exact absurd hrole hsame
      · obtain ⟨task, htask, rfl⟩ := hat
        obtain ⟨hmember, hown⟩ := (cluster_sound (h.trans hreach)).1.tasks τ task htask
        intro id hid hlt
        obtain ⟨b, hb, rfl⟩ := List.mem_map.mp hid
        have hpeer : b.asPeer ∈ (p₁.world.nodes task.node).config.peers := by
          refine (setup.cluster.mem_peers _ hmember _).mpr ⟨b, hb, fun heq => ?_, rfl⟩
          rw [heq, hown] at hlt
          exact absurd hlt (lt_irrefl _)
        rw [hnode] at hafter ⊢
        exact Node.unavailable_of_elects (by simpa using hmiddle) hafter hpeer (hown.symm ▸ hlt)
    · exact absurd (World.env_role henv L) hsame

/-- **What survives a failover.**  The brokers that have acknowledged a record, with the one
    that has asked them, are a majority, and hold the record for good.  So a later leader has
    it if it is one of them; otherwise, when it elected itself, it took all of them that are
    below it for failed.  As long as only a minority of the brokers has crashed, one of them is
    alive. -/
theorem acknowledged_record_survives {setup : Setup} {p : ClusterPool}
    (h : Reachable clusterMachine (inScope brokerTraffic) setup.pool p) {τ : Nat} {n : Int}
    {request : Request} {response : Response} (hserves : p.world.Serves τ n request)
    (htype : request.type = .produce) (hreturned : Returned p τ response)
    (hsuccess : response.success = true) :
    ∃ (τ₀ : Nat) (n₀ : Int) (ids : List Int), ids.Nodup ∧
      setup.cluster.brokers.length < 2 * ids.length ∧
      (∀ id ∈ ids, id ∈ setup.cluster.brokers.map BrokerConfig.brokerId ∧
        (id = n₀ ∨ p.world.Did τ₀ (.node (.handleAck id request.topic request.partition
          response.appendedOffset)) ())) ∧
      ∀ p', Reachable clusterMachine (inScope brokerTraffic) p p' →
        (∀ id ∈ ids, p'.world.Holds id request.topic request.partition
          response.appendedOffset request.message) ∧
        (∀ L, (p.world.nodes L).isLeader = false → (p'.world.nodes L).isLeader = true →
          ∃ q, Reachable clusterMachine (inScope brokerTraffic) p q ∧
            Reachable clusterMachine (inScope brokerTraffic) q p' ∧
            (q.world.nodes L).isLeader = true ∧
            ∀ id ∈ ids, id < L → (q.world.nodes L).replication.isPeerAvailable id = false) ∧
        (2 * (crashed setup.cluster p'.world).length < setup.cluster.brokers.length →
          ∃ id ∈ ids, (p'.world.nodes id).alive = true) := by
  obtain ⟨hI, hS⟩ := cluster_sound h
  obtain ⟨-, hmajority⟩ := (served_of_returned hI hS hserves hreturned).forwarded
    (honest_of_reachable (Guard.within_refines _ _) h) htype
  obtain ⟨τ₀, n₀, ids, hnodup, hids, hlen⟩ := hmajority hsuccess
  refine ⟨τ₀, n₀, ids, hnodup, hlen, fun id hid => ⟨(hids id hid).1, (hids id hid).2.2⟩,
    fun p' h' => ⟨?_, fun L hbefore hafter => ?_, ?_⟩⟩
  · exact fun id hid => (reachable_mono h').holds (hids id hid).2.1
  · obtain ⟨q, hq, hq', hleader, hbelow⟩ := exists_election h h' hbefore hafter
    exact ⟨q, hq, hq', hleader, fun id hid => hbelow id (hids id hid).1⟩
  · exact exists_alive hnodup (fun id hid => (hids id hid).1) hlen

/-- Broker 1 cannot reach broker 2 and has its record acknowledged by broker 3. -/
def produceWithoutBroker2 : List (Label Choice EnvStep) :=
  [.env (.client 1 (produceOf [65]))] ++ go 0 8 ++ [.run 0 .fails] ++ go 0 3 ++
    [.env (.accept 0)] ++ go 1 3 ++ go 0 16

/-- Broker 1 crashes, and broker 2 finds the others silent for too long. -/
def failover : List (Label Choice EnvStep) :=
  -- one millisecond more than `kHeartbeatTimeout`
  [.env (.crash 1), .env (.tick 2 751), .env (.heartbeat 2)] ++ go 2 2

/-- **The new leader** of three brokers need not have the record, which brokers 1 and 3 have. -/
theorem failover_elects_broker_without_record :
    ∃ p p' : ClusterPool, Reachable clusterMachine (inScope brokerTraffic) threeBrokers.pool p ∧
      Reachable clusterMachine (inScope brokerTraffic) p p' ∧
      p.world.Serves 0 1 { type := .produce, topic := ofString "t", message := [65] } ∧
      Returned p 0 ⟨true, [], 0, []⟩ ∧
      (crashed threeBrokers.cluster p'.world).map BrokerConfig.brokerId = [1] ∧
      (p'.world.nodes 2).isLeader = true ∧ ¬ p'.world.Holds 2 (ofString "t") 0 0 [65] := by
  obtain ⟨p, p', hreach, hreach', hfinished, htask, hcrashed, hleader, hcontents⟩ :=
    clusterMachine.exists_reachable_later (inScope_allows clientTraffic_allows)
      (fun p p' => finished p 0 = some ⟨true, [], 0, []⟩ ∧
        p.world.tasks[0]? = some ⟨1, .client (produceOf [65])⟩ ∧
        (crashed threeBrokers.cluster p'.world).map BrokerConfig.brokerId = [1] ∧
        (p'.world.nodes 2).isLeader = true ∧
        (p'.world.nodes 2).contents (makeKey (ofString "t") 0) = [])
      threeBrokers.pool produceWithoutBroker2 failover (by decide +kernel)
  refine ⟨p, p', hreach, hreach', ⟨_, htask, rfl, congrArg some parse_produceOf_A⟩,
    returned_of_finished hfinished, hcrashed, hleader, ?_⟩
  unfold World.Holds
  rw [hcontents]
  simp

/-- The majority is brokers 1 and 3, and broker 2 is elected because it takes broker 1 for
    failed. -/
theorem acknowledged_record_survives_in_three :
    ∃ p p' : ClusterPool, Reachable clusterMachine (inScope brokerTraffic) threeBrokers.pool p ∧
      Reachable clusterMachine (inScope brokerTraffic) p p' ∧
      (p'.world.nodes 2).isLeader = true ∧
      ∃ ids : List Int, 3 < 2 * ids.length ∧
        (∀ id ∈ ids, p'.world.Holds id (ofString "t") 0 0 [65]) ∧
        ∃ q : ClusterPool, (q.world.nodes 2).isLeader = true ∧
          ∀ id ∈ ids, id < 2 → (q.world.nodes 2).replication.isPeerAvailable id = false := by
  obtain ⟨p, p', hreach, hreach', hfinished, htask, hbefore, hafter⟩ :=
    clusterMachine.exists_reachable_later (inScope_allows clientTraffic_allows)
      (fun p p' => finished p 0 = some ⟨true, [], 0, []⟩ ∧
        p.world.tasks[0]? = some ⟨1, .client (produceOf [65])⟩ ∧
        (p.world.nodes 2).isLeader = false ∧ (p'.world.nodes 2).isLeader = true)
      threeBrokers.pool produceWithoutBroker2 failover (by decide +kernel)
  obtain ⟨-, -, ids, -, hlen, -, hlater⟩ := acknowledged_record_survives hreach
    ⟨_, htask, rfl, congrArg some parse_produceOf_A⟩ rfl (returned_of_finished hfinished) rfl
  obtain ⟨hholds, helections, -⟩ := hlater p' hreach'
  obtain ⟨q, -, -, hleader, hbelow⟩ := helections 2 hbefore hafter
  exact ⟨p, p', hreach, hreach', hafter, ids, hlen, hholds, q, hleader, hbelow⟩

end StreamingPlatform
