import StreamingPlatform.Broker.Quiet
import StreamingPlatform.Cluster.Contract
import StreamingPlatform.Lib.Sequential
import StreamingPlatform.Protocol.Parsed

namespace StreamingPlatform

open ByteString Interleave World

/-!
# Cluster — a broker that serves one request at a time

The handlers as sequential programs: `Node.alone` is what an action does to a broker that
nobody else changes meanwhile, with a network that may answer anything.  A thread of the
cluster that is not interrupted is such a run (`runs_of_uninterrupted`).

For the requests that change logs or groups, what a leader's logs and groups are
afterwards is a function of what they were before: `Node.afterProduce`, `Node.afterJoin`,
`Node.afterLeave`.
-/

/-- An action of thread `τ` at a broker on its own. -/
def Node.alone (τ : Nat) (s : Node) : (a : Act) → a.Result → Node → Prop
  | .node a, r, s' => ∃ c, a.step τ s c = some (r, s')
  | .net _, _, s' => s' = s

/-- **A thread that is not interrupted** takes its broker through a sequential run of its
    program. -/
theorem runs_of_uninterrupted {p p' : ClusterPool} {τ : Nat} {n : Int} {cs : List Choice}
    (hrun : clusterMachine.run (fun _ _ => true) p (cs.map (Label.run τ)) = some p')
    (hn : p.world.RunsAt τ n) {prog : Program (Option Response)} (hprog : p.progs[τ]? = some prog)
    {result : Option Response} (hdone : p'.progs[τ]? = some (.ret result)) :
    prog.Runs (Node.alone τ) (p.world.nodes n) result (p'.world.nodes n) := by
  refine Machine.runs_of_run (fun w : World => w.nodes n) (I := fun w => w.RunsAt τ n)
    ?_ ?_ hrun hn hprog hdone
  · intro a c w r w' hw hexec
    exact (World.exec_mono hexec).1.runsAt hw
  · intro a c w r w' hw hexec
    cases a with
    | node a => exact ⟨c, World.exec_node_at hexec hw⟩
    | net a =>
      obtain ⟨task, conns, -, -, rfl⟩ := World.exec_net hexec
      exact rfl

/-! ### What is left alone -/

/-- Two states of a broker with the same configuration, logs and groups. -/
structure Node.Alike (s s' : Node) : Prop where
  config : s'.config = s.config
  disk : s'.disk = s.disk
  storage : s'.storage = s.storage
  groups : s'.groups = s.groups

theorem Node.Alike.refl (s : Node) : s.Alike s := ⟨rfl, rfl, rfl, rfl⟩

theorem Node.Alike.trans {s s' s'' : Node} (h : s.Alike s') (h' : s'.Alike s'') : s.Alike s'' :=
  ⟨h'.config.trans h.config, h'.disk.trans h.disk, h'.storage.trans h.storage,
    h'.groups.trans h.groups⟩

variable {a : NodeAct} {α : Type} {p : Program α} {b : α}

/-- A quiet action keeps the logs and the groups. -/
theorem NodeAct.Effect.alike {τ : Nat} {s s' : Node} {a : NodeAct} (h : NodeAct.Effect τ s a s')
    (ha : (Act.node a).Quiet) : s.Alike s' := by
  refine ⟨h.mono.config, h.mono.disk, ?_, ?_⟩
  · rcases h.storage with heq | ⟨_, _, _, _, rfl, -⟩
    · exact heq
    · exact ha.elim
  · rcases h.groups_cases with heq | ⟨_, _, _, _, rfl, -⟩ | ⟨_, _, _, rfl, -⟩ |
      ⟨_, _, _, _, _, rfl, -⟩ | ⟨_, _, rfl, -⟩
    · exact heq
    all_goals exact ha.elim

section Alone

variable {τ : Nat} {s s' : Node} {config : BrokerConfig} {request : Request}
  {response : Response}

/-- So does a quiet step. -/
theorem alike_of_node {r : a.Result} (h : s.alone τ (.node a) r s') (ha : (Act.node a).Quiet) :
    s.Alike s' := by
  obtain ⟨c, h⟩ := h
  exact (NodeAct.step_effect h).alike ha

/-- So does a run of quiet actions. -/
theorem alike_of_quiet (hp : p.AllActs Act.Quiet) (h : p.Runs (Node.alone τ) s b s') :
    s.Alike s' := by
  refine Prog.Runs.rel (R := Node.Alike) .refl .trans (fun {a s r s'} ha hstep => ?_) hp h
  cases a with
  | node a => exact alike_of_node hstep ha
  | net a =>
    obtain rfl := hstep
    exact .refl _

/-- So does an exchange with other brokers. -/
theorem alike_of_exchanges {payload : Bytes} (hp : p.AllActs (Act.Exchanges payload))
    (h : p.Runs (Node.alone τ) s b s') : s.Alike s' :=
  alike_of_quiet (hp.mono (fun _ ha => ha.quiet)) h

/-! ### Single actions -/

theorem runs_node_bind {f : a.Result → Program α} :
    (node a >>= f).Runs (Node.alone τ) s b s'
      ↔ ∃ r s₁, s.alone τ (.node a) r s₁ ∧ (f r).Runs (Node.alone τ) s₁ b s' :=
  Prog.runs_perform_bind

theorem alone_isLeader {r : Bool} (h : s.alone τ (.node .isLeader) r s') :
    r = s.isLeader ∧ s' = s := by
  obtain ⟨c, h⟩ := h
  obtain ⟨rfl, rfl⟩ := Prod.mk.inj (Option.some.inj h)
  exact ⟨rfl, rfl⟩

/-- The handlers begin by asking for the role; a leader goes on. -/
theorem runs_onLeader {forward handle : Program α} (hleader : s.isLeader = true)
    (h : (node .isLeader >>= fun leader => if (!leader) = true then forward else handle).Runs
      (Node.alone τ) s b s') : handle.Runs (Node.alone τ) s b s' := by
  obtain ⟨leader, s₁, hrole, h⟩ := runs_node_bind.mp h
  obtain ⟨rfl, rfl⟩ := alone_isLeader hrole
  rw [hleader] at h
  exact h

variable {topic : Bytes}

theorem alone_partitionsForTopic {topic : Bytes} {r : List Int}
    (h : s.alone τ (.node (.partitionsForTopic topic)) r s') :
    r = s.storage.partitionsForTopic topic ∧ s' = s := by
  obtain ⟨c, h⟩ := h
  obtain ⟨rfl, rfl⟩ := Prod.mk.inj (Option.some.inj h)
  exact ⟨rfl, rfl⟩

/-- An append gives an offset and changes the storage only. -/
theorem alone_append {message : Bytes} {partition : Int} {origin : AppendOrigin} {r : Nat}
    (h : s.alone τ (.node (.append topic partition message origin)) r s') :
    r < 2 ^ 64 ∧ s' = { s with
      storage := (s.storage.append (messageLogs s.disk) topic partition message).2 } := by
  obtain ⟨c, h⟩ := h
  obtain ⟨hlength, h⟩ := Option.ite_none_right_eq_some.mp h
  obtain ⟨rfl, rfl⟩ := Prod.mk.inj (Option.some.inj h)
  refine ⟨?_, rfl⟩
  rw [StorageEngine.append_fst]
  exact Nat.lt_of_succ_lt hlength

/-- The connection does not matter for a client's request. -/
theorem processRequest_client (config : BrokerConfig) {payload : Bytes}
    (h : (parseRequest payload).type.isInterBroker = false) (conn : Option Nat) :
    processRequest config payload conn = handleRequest config (parseRequest payload) := by
  unfold processRequest
  dsimp only
  rw [h]
  rfl

/-! ### What a request does to logs and groups -/

/-- After a produce: the records are appended and the groups of the topic refreshed. -/
def Node.afterProduce (s : Node) (topic : Bytes) (partition : Int) (messages : List Bytes) :
    Node :=
  let storage := s.storage.appendAll (messageLogs s.disk)
    (messages.map (fun message => (topic, partition, message)))
  { s with
    storage := storage
    groups := s.groups.refreshTopic topic (storage.partitionsForTopic topic) }

/-- After a join. -/
def Node.afterJoin (s : Node) (groupId memberId topic : Bytes) : Node :=
  { s with groups :=
      (s.groups.join groupId memberId topic (s.storage.partitionsForTopic topic)).2 }

/-- After a leave, where `topic` is the one that the request names. -/
def Node.afterLeave (s : Node) (groupId memberId topic : Bytes) : Node :=
  { s with groups := s.groups.leave groupId memberId (s.storage.partitionsForTopic topic) }

/-- A refresh gives the groups the partitions that the storage has. -/
theorem runs_refreshTopic {u : Unit} (h : (refreshTopic topic).Runs (Node.alone τ) s u s') :
    s' = { s with groups := s.groups.refreshTopic topic (s.storage.partitionsForTopic topic) } := by
  obtain ⟨partitions, s₁, hread, h⟩ := h
  obtain ⟨rfl, rfl⟩ := alone_partitionsForTopic hread
  obtain ⟨c, h⟩ := Prog.runs_perform.mp h
  exact (Prod.mk.inj (Option.some.inj h)).2.symm

/-- JOIN_GROUP is refused, or joins the group. -/
theorem runs_handleJoinGroup (hleader : s.isLeader = true)
    (h : (handleJoinGroup request).Runs (Node.alone τ) s response s') :
    response.OffsetsFit ∧
      (s.Alike s' ∨ (s.afterJoin request.groupId request.memberId request.topic).Alike s') := by
  have h := runs_onLeader hleader h
  split at h
  · obtain ⟨rfl, rfl⟩ := h
    exact ⟨Response.offsetsFit_failure _, .inl (.refl _)⟩
  · obtain ⟨partitions, s₂, hread, h⟩ := runs_node_bind.mp h
    obtain ⟨rfl, rfl⟩ := alone_partitionsForTopic hread
    split at h
    · obtain ⟨rfl, rfl⟩ := h
      exact ⟨Response.offsetsFit_failure _, .inl (.refl _)⟩
    · obtain ⟨assigned, s₃, ⟨c, hjoin⟩, rfl, rfl⟩ := h
      obtain ⟨-, rfl⟩ := Prod.mk.inj (Option.some.inj hjoin)
      exact ⟨Response.offsetsFit_single _ _ (by decide), .inr (.refl _)⟩

/-- LEAVE_GROUP is refused, or leaves it. -/
theorem runs_handleLeaveGroup (hleader : s.isLeader = true)
    (h : (handleLeaveGroup request).Runs (Node.alone τ) s response s') :
    response.Fits ∧
      (s.Alike s' ∨ (s.afterLeave request.groupId request.memberId request.topic).Alike s') := by
  have h := runs_onLeader hleader h
  split at h
  · obtain ⟨rfl, rfl⟩ := h
    exact ⟨Response.failure_fits _ (by decide), .inl (.refl _)⟩
  · obtain ⟨partitions, s₂, hread, h⟩ := runs_node_bind.mp h
    obtain ⟨rfl, rfl⟩ := alone_partitionsForTopic hread
    obtain ⟨u, s₃, ⟨c, hleave⟩, rfl, rfl⟩ := h
    obtain ⟨-, rfl⟩ := Prod.mk.inj (Option.some.inj hleave)
    exact ⟨Response.fits_single (by decide) (by decide), .inr (.refl _)⟩

/-- PRODUCE is refused, or appends and refreshes. -/
theorem runs_handleProduce (hleader : s.isLeader = true)
    (h : (handleProduce config request).Runs (Node.alone τ) s response s') :
    response.Fits ∧ (s.Alike s' ∨ (0 ≤ request.partition ∧
      (s.afterProduce request.topic request.partition [request.message]).Alike s')) := by
  have h := runs_onLeader hleader h
  split at h
  · obtain ⟨rfl, rfl⟩ := h
    exact ⟨Response.failure_fits _ (by decide), .inl (.refl _)⟩
  · split at h
    · obtain ⟨rfl, rfl⟩ := h
      exact ⟨Response.failure_fits _ (by decide), .inl (.refl _)⟩
    · next hpartition =>
      split at h
      · obtain ⟨rfl, rfl⟩ := h
        exact ⟨Response.failure_fits _ (by decide), .inl (.refl _)⟩
      · obtain ⟨offset, s₁, happend, h⟩ := runs_node_bind.mp h
        obtain ⟨hoffset, rfl⟩ := alone_append happend
        obtain ⟨_, s₂, hrefresh, h⟩ := Prog.runs_bind.mp h
        obtain rfl := runs_refreshTopic hrefresh
        -- from here on logs and groups stay as they are
        obtain ⟨replicated, s₃, hreplicate, h⟩ := Prog.runs_bind.mp h
        have hs₃ := alike_of_exchanges (exchanges_replicateMessage _ _ _ _) hreplicate
        split at h
        · obtain ⟨rfl, rfl⟩ := h
          exact ⟨Response.fits_single (by decide) hoffset, .inr ⟨by omega, hs₃⟩⟩
        · obtain ⟨reached, s₄, hwait, h⟩ := Prog.runs_bind.mp h
          have hs₄ := hs₃.trans (alike_of_exchanges (exchanges_waitForQuorum [] _ _ _) hwait)
          split at h
          · obtain ⟨rfl, rfl⟩ := h
            exact ⟨Response.fits_single (by decide) hoffset, .inr ⟨by omega, hs₄⟩⟩
          · obtain ⟨_, s₅, hcommit, h⟩ := runs_node_bind.mp h
            obtain ⟨_, s₆, hcast, rfl, rfl⟩ := Prog.runs_bind.mp h
            have hs₆ := (hs₄.trans (alike_of_node hcommit trivial)).trans
              (alike_of_exchanges (exchanges_broadcastCommit _ _ _) hcast)
            exact ⟨Response.fits_single (by decide) hoffset, .inr ⟨by omega, hs₆⟩⟩

/-- Appending the rest of a batch. -/
theorem runs_appendBatch {partition : Int} {messages : List Bytes} {expected : Nat}
    {offsets : List Nat}
    (h : (appendBatch topic partition messages expected).Runs (Node.alone τ) s offsets s') :
    (∀ o ∈ offsets, o < 2 ^ 64) ∧ offsets.length = messages.length ∧
      s' = { s with
        storage := s.storage.appendAll (messageLogs s.disk)
          (messages.map (fun message => (topic, partition, message))) } := by
  induction messages generalizing expected s offsets with
  | nil =>
    obtain ⟨rfl, rfl⟩ := h
    exact ⟨fun _ ho => absurd ho List.not_mem_nil, rfl, rfl⟩
  | cons message messages ih =>
    obtain ⟨offset, s₁, happend, h⟩ := runs_node_bind.mp h
    obtain ⟨hoffset, rfl⟩ := alone_append happend
    obtain ⟨rest, s₂, hrest, rfl, rfl⟩ := Prog.runs_bind.mp h
    obtain ⟨hlt, hlength, rfl⟩ := ih hrest
    refine ⟨fun o ho => ?_, congrArg (· + 1) hlength, rfl⟩
    rcases List.mem_cons.mp ho with rfl | ho
    · exact hoffset
    · exact hlt o ho

/-- BATCH_PRODUCE is refused, or appends its records and refreshes. -/
theorem runs_handleBatchProduce (hleader : s.isLeader = true)
    (hcount : request.messages.length ≤ kMaxBatchMessages)
    (h : (handleBatchProduce config request).Runs (Node.alone τ) s response s') :
    response.Fits ∧ (s.Alike s' ∨ (0 ≤ request.partition ∧
      (s.afterProduce request.topic request.partition request.messages).Alike s')) := by
  unfold handleBatchProduce at h
  split at h
  · obtain ⟨rfl, rfl⟩ := h
    exact ⟨Response.failure_fits _ (by decide), .inl (.refl _)⟩
  · next first rest hmessages =>
    have h := runs_onLeader hleader h
    split at h
    · obtain ⟨rfl, rfl⟩ := h
      exact ⟨Response.failure_fits _ (by decide), .inl (.refl _)⟩
    · next hvalid =>
      have hpartition : 0 ≤ request.partition := by
        by_contra hneg
        exact hvalid (.inr (by omega))
      -- from here on the records are appended, whatever the answer will be
      obtain ⟨firstOffset, s₁, happend, h⟩ := runs_node_bind.mp h
      obtain ⟨hfirst, rfl⟩ := alone_append happend
      obtain ⟨offsets, s₂, hrest, h⟩ := Prog.runs_bind.mp h
      obtain ⟨hoffsets, hlength, rfl⟩ := runs_appendBatch hrest
      obtain ⟨_, s₃, hrefresh, h⟩ := Prog.runs_bind.mp h
      obtain rfl := runs_refreshTopic hrefresh
      -- the offset that is answered is the last of the batch
      have hlast : offsets.getLastD firstOffset < 2 ^ 64 := by
        rw [List.getLastD_eq_getLast?]
        cases hl : offsets.getLast? with
        | none => exact hfirst
        | some o => exact hoffsets o (List.mem_of_getLast? hl)
      rw [hmessages] at h hcount ⊢
      obtain ⟨replicated, s₄, hreplicate, h⟩ := Prog.runs_bind.mp h
      have hs₄ := alike_of_exchanges (exchanges_replicateBatch _ _ _ _) hreplicate
      split at h
      · obtain ⟨rfl, rfl⟩ := h
        exact ⟨Response.fits_single (by decide) hlast, .inr ⟨hpartition, hs₄⟩⟩
      · obtain ⟨reached, s₅, hwait, h⟩ := Prog.runs_bind.mp h
        have hs₅ := hs₄.trans (alike_of_exchanges (exchanges_waitForQuorum [] _ _ _) hwait)
        split at h
        · obtain ⟨rfl, rfl⟩ := h
          exact ⟨Response.fits_single (by decide) hlast, .inr ⟨hpartition, hs₅⟩⟩
        · obtain ⟨_, s₆, hcommit, rfl, rfl⟩ := Prog.runs_bind.mp h
          refine ⟨⟨Nat.zero_le _, hlast, ?_, fun o ho => ?_⟩, .inr ⟨hpartition, ?_⟩⟩
          · show offsets.length + 1 ≤ kMaxBatchMessages
            rw [hlength]
            exact hcount
          · rcases List.mem_cons.mp ho with rfl | ho
            · exact hfirst
            · exact hoffsets o ho
          · exact hs₅.trans (alike_of_quiet (quiet_commitBatch _ _ _ _) hcommit)

end Alone

/-! ### Computing runs -/

/-- What thread 0 gets when it acts: the peers of the broker all send the same reply, or
    cannot be reached. -/
def Node.answer (reply : Option Bytes) : (a : Act) → Node → Option (a.Result × Node)
  | .node a, s => a.step 0 s .succeeds
  | .net (.send ..), s => some (if reply.isSome then .sent 0 else .unreachable, s)
  | .net (.receive _), s => some (reply, s)
  | .net (.sendAck ..), s => some ((), s)
  | .net (.respond ..), s => some ((), s)

theorem Node.alone_of_answer {reply : Option Bytes} {a : Act} {s s' : Node} {r : a.Result}
    (h : Node.answer reply a s = some (r, s')) : s.alone 0 a r s' := by
  cases a with
  | node a => exact ⟨.succeeds, h⟩
  | net a => cases a <;> exact (Prod.mk.inj (Option.some.inj h)).2.symm

/-- A run that was computed is a run. -/
theorem runs_of_answer {reply : Option Bytes} {s s' : Node}
    (h : p.play (Node.answer reply) s = some (b, s')) : p.Runs (Node.alone 0) s b s' := by
  refine Prog.runs_of_play ?_ h
  exact fun hanswer => Node.alone_of_answer hanswer

end StreamingPlatform
