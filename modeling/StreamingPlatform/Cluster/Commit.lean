import StreamingPlatform.Cluster.Limits

namespace StreamingPlatform

open ByteString Interleave World

/-!
# Cluster — the commit index and reading

A broker has one commit index for each log, and the produce that raises it covers every
offset below.  So what a commit says about a record is that a record at this or a later
offset has reached quorum (`committed_covered_by_quorum`), not that the record itself has:
one whose producer was told `replication_failed` can become readable
(`failed_produce_becomes_readable`).

In the other direction, a record that was acknowledged can be read from then on
(`acknowledged_record_fetched`), unless it is empty: `handle_fetch` takes an empty record
for a missing one, and `handle_batch_produce` lets empty messages pass
(`empty_record_not_fetched`).
-/

/-! ### What a commit covers -/

/-- **A committed offset is covered by a quorum.** Some produce to the log has appended a
    record at this offset or a later one and has seen it reach quorum. -/
theorem committed_covered_by_quorum {setup : Setup} {p : ClusterPool}
    (h : Reachable clusterMachine (inScope brokerTraffic) setup.pool p) {n : Int} {topic : Bytes}
    {partition : Int} {offset : Nat} (hp : 0 ≤ partition)
    (hcommitted : (p.world.nodes n).replication.isCommitted topic partition offset = true) :
    p.world.Quorate topic partition offset := by
  obtain ⟨hI, -⟩ := cluster_sound h
  unfold ReplicationManager.isCommitted at hcommitted
  split at hcommitted
  · exact absurd hcommitted (by simp)
  · next c hc =>
    have hle : offset ≤ c := of_decide_eq_true hcommitted
    obtain ⟨topic', partition', hp', hkey, τ, last, message, origin, hlast, hrest⟩ :=
      hI.committed (honest_of_reachable (Guard.within_refines _ _) h) n _ c hc
    -- keys with non-negative partitions name one log only
    obtain ⟨rfl, rfl⟩ := makeKey_injective hp hp' hkey
    exact ⟨τ, last, message, origin, hle.trans hlast, hrest⟩

/-- One record, replicated to the other of two brokers and committed. -/
theorem committed_covered_by_quorum_of_two :
    ∃ p : ClusterPool, Reachable clusterMachine (inScope brokerTraffic) twoBrokers.pool p ∧
      (p.world.nodes 1).replication.isCommitted (ofString "t") 0 0 = true ∧
      p.world.Quorate (ofString "t") 0 0 := by
  obtain ⟨p, hreach, hcommitted⟩ := clusterMachine.exists_reachable
    (inScope_allows clientTraffic_allows)
    (fun p => (p.world.nodes 1).replication.isCommitted (ofString "t") 0 0 = true)
    twoBrokers.pool replicatedProduce (by decide +kernel)
  exact ⟨p, hreach, hcommitted, committed_covered_by_quorum hreach le_rfl hcommitted⟩

/-- Broker 2 appends the first record and acknowledges it, but the ACK is lost; after a
    heartbeat the second record is acknowledged and committed. -/
def lostAck : List (Label Choice EnvStep) :=
  [.env (.client 1 (produceOf [65]))] ++ go 0 9 ++ [.env (.accept 0)] ++ go 1 4 ++
    [.run 0 .fails] ++ go 0 4 ++ [.env (.heartbeat 1)] ++ go 2 6 ++
    [.env (.client 1 (produceOf [66]))] ++ go 3 9 ++ [.env (.accept 2)] ++ go 4 4 ++ go 3 15 ++
    [.env (.client 1 (fetchOf 0))] ++ go 5 3

/-- **A record whose producer was told `replication_failed`** is committed by the next record and
    then read. -/
theorem failed_produce_becomes_readable :
    ∃ p : ClusterPool, Reachable clusterMachine (inScope brokerTraffic) twoBrokers.pool p ∧
      p.world.Serves 0 1 { type := .produce, topic := ofString "t", message := [65] } ∧
      Returned p 0 ⟨false, ofString "replication_failed", 0, []⟩ ∧
      (p.world.nodes 1).isLeader = true ∧
      (p.world.nodes 1).replication.isCommitted (ofString "t") 0 0 = true ∧
      p.world.Serves 5 1 { type := .fetch, topic := ofString "t" } ∧
      Returned p 5 ⟨true, [65], 0, []⟩ := by
  obtain ⟨p, hreach, htask, hdone, hleader, hcommitted, htask₅, hdone₅⟩ :=
    clusterMachine.exists_reachable (inScope_allows clientTraffic_allows)
      (fun p => p.world.tasks[0]? = some ⟨1, .client (produceOf [65])⟩ ∧
        finished p 0 = some ⟨false, ofString "replication_failed", 0, []⟩ ∧
        (p.world.nodes 1).isLeader = true ∧
        (p.world.nodes 1).replication.isCommitted (ofString "t") 0 0 = true ∧
        p.world.tasks[5]? = some ⟨1, .client (fetchOf 0)⟩ ∧
        finished p 5 = some ⟨true, [65], 0, []⟩)
      twoBrokers.pool lostAck (by decide +kernel)
  exact ⟨p, hreach, ⟨_, htask, rfl, congrArg some parse_produceOf_A⟩, returned_of_finished hdone,
    hleader, hcommitted, ⟨_, htask₅, rfl, congrArg some parse_fetchOf_zero⟩,
    returned_of_finished hdone₅⟩

/-! ### Reading what was acknowledged -/

/-- A produce to broker `n` was answered with success and gave `message` the offset
    `offset`. -/
def Acknowledged (p : ClusterPool) (n : Int) (topic : Bytes) (partition : Int) (offset : Nat)
    (message : Bytes) : Prop :=
  ∃ τ request response, p.world.Serves τ n request ∧ Returned p τ response ∧
    response.success = true ∧ request.topic = topic ∧ request.partition = partition ∧
    ((request.type = .produce ∧ response.appendedOffset = offset ∧ request.message = message) ∨
      (request.type = .batchProduce ∧ ∃ i : Nat, response.appendedOffsets[i]? = some offset ∧
        request.messages[i]? = some message))

variable {topic : Bytes} {partition : Int} {offset : Nat}

/-- What was acknowledged by a broker that did not forward it is readable there. -/
theorem readable_of_acknowledged {cluster : Membership} {p : ClusterPool} (hI : Inv cluster p.world)
    (hS : AllSafe clusterRely (contract cluster) (Answers cluster) p) {n : Int}
    (htold : Recorded (ToldLeader n) p.world) {message : Bytes}
    (h : Acknowledged p n topic partition offset message) :
    p.world.Readable n topic partition offset message := by
  obtain ⟨τ, request, response, hserves, hreturned, hs, rfl, rfl, hkind⟩ := h
  have hlocal := (served_of_returned hI hS hserves hreturned).promised hs
  have hhere := not_forwarded htold hserves.runsAt
  rcases hkind with ⟨htype, rfl, rfl⟩ | ⟨htype, i, hoffset, hmessage⟩
  · simp only [htype] at hlocal
    exact hlocal.resolve_left hhere
  · simp only [htype] at hlocal
    obtain ⟨hi, rfl⟩ := List.getElem?_eq_some_iff.mp hoffset
    obtain ⟨hi', rfl⟩ := List.getElem?_eq_some_iff.mp hmessage
    exact (List.forall₂_iff_get.mp (hlocal.resolve_left hhere)).2 i hi hi'

/-- What threads started after `w₀` are told about a record. -/
def ToldRecord (w₀ : World) (n : Int) (topic : Bytes) (partition : Int) (offset : Nat)
    (message : Bytes) (_ : World) (n' : Int) (e : Event) : Prop :=
  n' = n → w₀.tasks[e.thread]? = none →
  match e with
  | ⟨_, .node (.isCommitted topic' partition' offset'), result⟩ =>
    topic' = topic → partition' = partition → offset' = offset → (result : Bool) = true
  | ⟨_, .node (.fetch topic' partition' offset'), result⟩ =>
    topic' = topic → partition' = partition → offset' = offset →
      (result : Except StdException Bytes) = .ok message
  | _ => True

theorem toldRecord_exec {w₀ w w' : World} {n : Int} {message : Bytes} {τ : Nat} {a : Act}
    {c : Choice} {r : a.Result} (hread : w.Readable n topic partition offset message)
    (h : Recorded (ToldRecord w₀ n topic partition offset message) w)
    (hexec : World.exec τ a c w = some (r, w')) :
    Recorded (ToldRecord w₀ n topic partition offset message) w' := by
  refine h.exec (fun _ h => h) hexec ?_
  rintro n' hn' rfl -
  split
  · next heq =>
    cases heq
    rintro rfl rfl rfl
    obtain ⟨-, hresult⟩ := Node.locked_eq_some (World.exec_node_at hexec hn')
    obtain ⟨committed, hle, hc⟩ := hread.committed
    rw [(Prod.mk.inj hresult).1, ReplicationManager.isCommitted, hc]
    exact decide_eq_true hle
  · next heq =>
    cases heq
    rintro rfl rfl rfl
    have hstep := World.exec_node_at hexec hn'
    rw [← (Prod.mk.inj (Option.some.inj hstep)).1]
    exact StorageEngine.fetch_of_getElem? hread.opened hread.holds
  · trivial

/-! ### A fetch can always be finished -/

/-- The actions of a FETCH. -/
def Act.reads : Act → Prop
  | .node (.isCommitted ..) | .node (.fetch ..) | .net (.respond ..) => True
  | _ => False

theorem reads_serve {config : BrokerConfig} {payload : Bytes} {conn : Option Nat}
    (htype : (parseRequest payload).type = .fetch) :
    (serve config payload conn).AllActs Act.reads := by
  refine .bind ?_ (fun _ => .bind (.perform trivial) (fun _ => .pure _))
  unfold processRequest handleRequest
  dsimp only
  rw [htype, if_neg (by decide)]
  exact acts_handleFetch trivial trivial

section Finishing

variable {G : Guard Act World EnvStep} {setup : Setup} {p : ClusterPool} {τ : Nat} {n : Int}
  {request : Request}

/-- Whatever is left of a FETCH. -/
theorem reads_of_reachable (h : Reachable clusterMachine G setup.pool p)
    (hserves : p.world.Serves τ n request) (htype : request.type = .fetch)
    {prog : Program (Option Response)} (hprog : p.progs[τ]? = some prog) :
    prog.AllActs Act.reads := by
  induction h generalizing prog with
  | start => exact absurd hprog (by simp [Setup.pool])
  | @step q _ l hreach _ hstep ih =>
    rcases Machine.step_cases hstep with ⟨τ', c, a, k, r, -, hold, hexec, hprogs⟩ |
      ⟨e, started, -, henv, hprogs⟩
    · -- a thread has moved: what is left of its program is part of what was left before
      have hserves' : q.world.Serves τ n request := by
        unfold World.Serves at hserves
        rwa [(World.exec_history hexec).2] at hserves
      rw [hprogs] at hprog
      rcases getElem?_set_prog hold hprog with ⟨rfl, rfl⟩ | ⟨-, hsame⟩
      · exact (ih hserves' hold).2 r
      · exact ih hserves' hsame
    · obtain ⟨task, htask, hnode, hrequest⟩ := hserves
      rw [hprogs] at hprog
      rcases World.env_task henv htask with hold | ⟨-, rfl, -, -, hstarted⟩
      · rcases getElem?_append_started hprog with hsame | ⟨rfl, -⟩
        · exact ih ⟨task, hold, hnode, hrequest⟩ hsame
        · -- a thread that has a task is not the one just started
          have hlt := (List.getElem?_eq_some_iff.mp hold).1
          rw [length_progs hreach] at hlt
          exact absurd hlt (Nat.lt_irrefl _)
      · -- the thread just started serves the request
        rcases getElem?_append_started hprog with hsame | ⟨-, hnew⟩
        · exact absurd (List.getElem?_eq_some_iff.mp hsame).1 (Nat.lt_irrefl _)
        · rw [hstarted] at hnew
          obtain rfl := Option.some.inj hnew
          unfold Task.request? at hrequest
          unfold Task.program
          cases hsource : task.source with
          | client payload =>
            rw [hsource] at hrequest
            exact reads_serve (Option.some.inj hrequest ▸ htype)
          | peer conn payload =>
            rw [hsource] at hrequest
            exact reads_serve (Option.some.inj hrequest ▸ htype)
          | heartbeat =>
            rw [hsource] at hrequest
            exact absurd hrequest (by simp)

/-- A FETCH waits for nothing but the replication mutex. -/
theorem fetch_can_finish (h : Reachable clusterMachine (inScope (staysLeader n)) setup.pool p)
    (hserves : p.world.Serves τ n request) (htype : request.type = .fetch)
    (halive : (p.world.nodes n).alive = true) (hleader : (p.world.nodes n).isLeader = true)
    (hmutex : (p.world.nodes n).mutex = none)
    (hrace : p.world.RaceFree τ (.node (.fetch topic partition offset))) :
    ∃ p' response, Reachable clusterMachine (inScope (staysLeader n)) p p' ∧
      Returned p' τ response := by
  obtain ⟨task, htask, hnode, -⟩ := id hserves
  obtain ⟨prog, hprog⟩ : ∃ prog, p.progs[τ]? = some prog := by
    have hlt := (List.getElem?_eq_some_iff.mp htask).1
    exact ⟨_, List.getElem?_eq_getElem (length_progs h ▸ hlt)⟩
  let ready (w : World) : Prop := w.tasks[τ]? = some task ∧ (w.nodes n).alive = true ∧
    (w.nodes n).isLeader = true ∧ (w.nodes n).mutex = none ∧
    w.RaceFree τ (.node (.fetch topic partition offset))
  -- a read leaves its broker as it is
  have hnodeact : ∀ {a : NodeAct} {w : World} {r : a.Result}, ready w →
      a.step τ (w.nodes n) .succeeds = some (r, w.nodes n) →
      ∃ c r w', World.exec τ (.node a) c w = some (r, w') ∧ ready w' := by
    intro a w r ⟨hw, halive, hleader, hmutex, hrace⟩ hstep
    have hexec : World.exec τ (.node a) .succeeds w
        = some (r, { w with history := w.history ++ [⟨τ, .node a, r⟩] }) := by
      simp only [World.exec, hw, hnode, halive, if_true, World.effect, hstep, Option.map_some,
        Function.update_eq_self]
    exact ⟨.succeeds, r, _, hexec, hw, halive, hleader, hmutex, hrace.exec hexec rfl⟩
  have hready : ∀ {a : Act} {w : World}, a.reads → ¬ a.responds → ready w →
      (inScope (staysLeader n)).act w τ a ∧
        ∃ c r w', World.exec τ a c w = some (r, w') ∧ ready w' := by
    intro a w ha hrespond hw
    obtain ⟨-, -, hleader, hmutex, hrace⟩ := id hw
    unfold Act.reads at ha
    split at ha
    · exact ⟨⟨hleader, .of_none rfl rfl, .of_usesLogs rfl _ _⟩, hnodeact hw (if_pos (.inl hmutex))⟩
    · exact ⟨⟨hleader, .of_none rfl rfl, hrace⟩, hnodeact hw rfl⟩
    · exact absurd rfl hrespond
    · exact ha.elim
  obtain ⟨p', prog', hreach, hprog', hstop⟩ := clusterMachine.exists_until hready hprog
    (reads_of_reachable h hserves htype hprog) ⟨htask, halive, hleader, hmutex, hrace⟩
  obtain ⟨hI, hS⟩ := cluster_sound (h.trans hreach)
  cases prog' with
  | ret result =>
    obtain ⟨response, rfl, -⟩ :=
      hS.result hI hprog' n request ((reachable_mono hreach).serves hserves)
    exact ⟨p', response, hreach, .inr hprog'⟩
  | act a k =>
    have hresponds := hstop a rfl
    unfold Act.responds at hresponds
    split at hresponds
    · exact ⟨p', _, hreach, .inl ⟨_, _, hprog'⟩⟩
    · cases hresponds

end Finishing

/-- **Acknowledged records are readable.** On a broker that stays leader, every FETCH of an
    acknowledged record that starts later returns exactly the message, unless the message
    is empty; and whenever the replication mutex is free and no other thread is about to open
    a log, it can return. -/
theorem acknowledged_record_fetched {setup : Setup} {n : Int} {p p' : ClusterPool}
    (h : Reachable clusterMachine (inScope (staysLeader n)) setup.pool p)
    (h' : Reachable clusterMachine (inScope (staysLeader n)) p p') {topic : Bytes} {partition : Int}
    {offset : Nat} {message : Bytes} (hack : Acknowledged p n topic partition offset message)
    {τ : Nat} {request : Request} (hserves : p'.world.Serves τ n request)
    (hlate : p.world.tasks[τ]? = none) (htype : request.type = .fetch)
    (htopic : request.topic = topic) (hpartition : request.partition = partition)
    (hoffset : request.fetchOffset = offset) :
    (∀ response, Returned p' τ response →
      (response = ⟨true, message, offset, []⟩ ↔ message ≠ [])) ∧
    ((p'.world.nodes n).alive = true → (p'.world.nodes n).isLeader = true →
      (p'.world.nodes n).mutex = none →
      p'.world.RaceFree τ (.node (.fetch topic partition offset)) → ∃ p'' response,
        Reachable clusterMachine (inScope (staysLeader n)) p' p'' ∧ Returned p'' τ response) := by
  refine ⟨fun response hreturned => ?_, fetch_can_finish (h.trans h') hserves htype⟩
  replace h := h.of_within
  replace h' := h'.of_within
  obtain ⟨hI, hS, htold⟩ := cluster_invariant (J := Recorded (ToldLeader n))
    (fun _ hJ hact _ hexec => toldLeader_exec hact hJ hexec)
    (fun hI hJ _ henv => hJ.env (fun _ h => h) hI henv) setup.inv setup.allSafe
    (fun e he => absurd he (by simp [Setup.pool])) h
  have hread := readable_of_acknowledged hI hS htold hack
  -- nothing was told yet to threads that were not there
  have hnone : Recorded (ToldRecord p.world n topic partition offset message) p.world := by
    rintro e - n' ⟨task, htask, -⟩ - hnone
    rw [htask] at hnone
    exact absurd hnone (by simp)
  -- from here on, threads that start are told the truth about the record
  obtain ⟨hI', hS', -, htold'⟩ := cluster_invariant
    (J := fun w => w.Readable n topic partition offset message ∧
      Recorded (ToldRecord p.world n topic partition offset message) w)
    (fun _ hJ _ _ hexec => ⟨(World.exec_mono hexec).1.readable hJ.1,
      toldRecord_exec hJ.1 hJ.2 hexec⟩)
    (fun hI hJ _ henv => ⟨(World.env_mono henv).1.readable hJ.1,
      hJ.2.env (fun _ h => h) hI henv⟩) hI hS
    ⟨hread, hnone⟩ h'
  have hat := hserves.runsAt
  subst htopic hpartition hoffset
  rcases (served_of_returned hI' hS' hserves hreturned).fetched htype with
    ⟨m, hne, rfl, hdid, -⟩ | ⟨hs, hempty | hneg | hdid | ⟨r, hdid, hr⟩⟩
  · -- the fetch returned a record, and that is the message
    have hm := htold'.did hdid hat rfl hlate rfl rfl rfl
    obtain rfl := Except.ok.inj hm
    exact ⟨fun _ => hne, fun _ => rfl⟩
  · exact absurd hempty hread.topic_ne
  · exact absurd hneg (Int.not_lt.mpr hread.partition_nonneg)
  · exact absurd (htold'.did hdid hat rfl hlate rfl rfl rfl) (by simp)
  · -- the log returned the message, but it is empty
    have hm := hr message (htold'.did hdid hat rfl hlate rfl rfl rfl)
    refine ⟨fun heq => ?_, fun hne => absurd hm hne⟩
    rw [heq] at hs
    exact absurd hs (by simp)

/-- One record, acknowledged and then fetched. -/
theorem acknowledged_record_fetched_of_two :
    ∃ p p' : ClusterPool, Reachable clusterMachine (inScope (staysLeader 1)) twoBrokers.pool p ∧
      Reachable clusterMachine (inScope (staysLeader 1)) p p' ∧
      Acknowledged p 1 (ofString "t") 0 0 [65] ∧
      Returned p' 2 ⟨true, [65], 0, []⟩ ∧
      ∀ response, Returned p' 2 response → response = ⟨true, [65], 0, []⟩ := by
  obtain ⟨p, p', hreach, hreach', htask, hdone, hlate, htask', hdone'⟩ :=
    clusterMachine.exists_reachable_later (inScope_allows (staysLeader_allows 1))
      (fun p p' => p.world.tasks[0]? = some ⟨1, .client (produceOf [65])⟩ ∧
        finished p 0 = some ⟨true, [], 0, []⟩ ∧ p.world.tasks[2]? = none ∧
        p'.world.tasks[2]? = some ⟨1, .client (fetchOf 0)⟩ ∧
        finished p' 2 = some ⟨true, [65], 0, []⟩)
      twoBrokers.pool replicatedProduce ([.env (.client 1 (fetchOf 0))] ++ go 2 3)
      (by decide +kernel)
  have hack : Acknowledged p 1 (ofString "t") 0 0 [65] :=
    ⟨0, _, _, ⟨_, htask, rfl, congrArg some parse_produceOf_A⟩, returned_of_finished hdone,
      rfl, rfl, rfl, .inl ⟨rfl, rfl, rfl⟩⟩
  refine ⟨p, p', hreach, hreach', hack, returned_of_finished hdone', fun response hr => ?_⟩
  exact ((acknowledged_record_fetched hreach hreach' hack
    ⟨_, htask', rfl, congrArg some parse_fetchOf_zero⟩ hlate rfl rfl rfl rfl).1 response hr).mpr
    (by decide)

/-- A batch on partition 0 of topic `t` with one record, which is empty. -/
def emptyBatch : Bytes :=
  encodeRequest { type := .batchProduce, topic := ofString "t", messages := [[]] }

/-- The batch arrives with its empty record. -/
theorem parse_emptyBatch : parseRequest emptyBatch
    = { type := .batchProduce, topic := ofString "t", messages := [[]] } := by
  decide +kernel

/-- The batch is replicated and acknowledged. -/
def replicatedEmptyBatch : List (Label Choice EnvStep) :=
  [.env (.client 1 emptyBatch)] ++ go 0 9 ++ [.env (.accept 0)] ++ go 1 4 ++ go 0 14

/-- **An empty record** is acknowledged, and its fetch is answered with `offset_not_found`. -/
theorem empty_record_not_fetched :
    ∃ p p' : ClusterPool, Reachable clusterMachine (inScope (staysLeader 1)) twoBrokers.pool p ∧
      Reachable clusterMachine (inScope (staysLeader 1)) p p' ∧
      Acknowledged p 1 (ofString "t") 0 0 [] ∧ p.world.tasks[2]? = none ∧
      p'.world.Serves 2 1 { type := .fetch, topic := ofString "t" } ∧
      Returned p' 2 (.failure "offset_not_found") := by
  obtain ⟨p, p', hreach, hreach', htask, hdone, hlate, htask', hdone'⟩ :=
    clusterMachine.exists_reachable_later (inScope_allows (staysLeader_allows 1))
      (fun p p' => p.world.tasks[0]? = some ⟨1, .client emptyBatch⟩ ∧
        finished p 0 = some ⟨true, [], 0, [0]⟩ ∧ p.world.tasks[2]? = none ∧
        p'.world.tasks[2]? = some ⟨1, .client (fetchOf 0)⟩ ∧
        finished p' 2 = some (.failure "offset_not_found"))
      twoBrokers.pool replicatedEmptyBatch ([.env (.client 1 (fetchOf 0))] ++ go 2 3)
      (by decide +kernel)
  refine ⟨p, p', hreach, hreach', ?_, hlate,
    ⟨_, htask', rfl, congrArg some parse_fetchOf_zero⟩, returned_of_finished hdone'⟩
  exact ⟨0, _, _, ⟨_, htask, rfl, congrArg some parse_emptyBatch⟩, returned_of_finished hdone,
    rfl, rfl, rfl, .inr ⟨rfl, 0, rfl, rfl⟩⟩

end StreamingPlatform
