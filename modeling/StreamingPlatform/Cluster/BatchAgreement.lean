import StreamingPlatform.Cluster.Producing

namespace StreamingPlatform

open ByteString Interleave

/-!
# Cluster — a batch and its records one by one

A leader handles a BATCH_PRODUCE, or one PRODUCE for each of its messages, while nothing else
goes on in the cluster (`Brokers.step`).  Each of these requests has one outcome
(`runs_batchProduce`, `runs_produce`), and both do to the brokers what `Brokers.Produced` says;
so does a sequence of single produces (`runs_produceEach`).  Hence the logs, the commit
indexes, the leader's groups and the offsets that are reported are the same
(`batch_produce_agrees`), if the leader lists no peer twice.  A peer in sync that is listed
twice gets the first record a second time, after it alone or after the whole batch
(`batch_produce_differs`).
-/

variable {messages : List Bytes} {w₁ : Brokers}

section Handlers

variable {τ τ' : Nat} {b : Int} {reachable : Int → Bool} {w w' : Brokers} {topic : Bytes}
  {partition : Int} {α : Type} {x : α}

/-! ### Steps of the handlers -/

/-- The rest of a batch is appended. -/
theorem runs_appendBatch_iff {expected : Nat} {offsets : List Nat}
    (hroom : ((w.nodes b).contents (makeKey topic partition)).length + messages.length < 2 ^ 64) :
    (appendBatch topic partition messages expected).Runs (Brokers.step τ τ' b reachable) w
        offsets w' ↔
      offsets = List.range' ((w.nodes b).contents (makeKey topic partition)).length
          messages.length ∧
        w' = w.set b ((w.nodes b).appendRecords topic partition messages) := by
  induction messages generalizing w w' expected offsets with
  | nil =>
    have hself : w.set b ((w.nodes b).appendRecords topic partition []) = w := w.set_self
    rw [hself]
    exact Iff.rfl
  | cons message messages ih =>
    rw [List.length_cons] at hroom
    have hb := w.set_nodes_self (n := b) ((w.nodes b).appendRecords topic partition [message])
    have hlength : (((w.set b ((w.nodes b).appendRecords topic partition [message])).nodes
        b).contents (makeKey topic partition)).length
          = ((w.nodes b).contents (makeKey topic partition)).length + 1 := by
      rw [hb, Node.contents_appendRecords_self, List.length_append]
      rfl
    rw [appendBatch, runs_act (Node.step_append (by omega)),
      Prog.runs_bind_of_iff (ih (by rw [hlength]; omega)), hlength, hb, Brokers.set_set]
    exact Iff.rfl

/-- A refresh in the midst of a program. -/
theorem runs_refreshTopic_bind {f : Unit → Program α} :
    (refreshTopic topic >>= f).Runs (Brokers.step τ τ' b reachable) w x w' ↔
      (f ()).Runs (Brokers.step τ τ' b reachable) (w.set b { w.nodes b with
        groups := (w.nodes b).groups.refreshTopic topic
          ((w.nodes b).storage.partitionsForTopic topic) }) x w' := by
  have hread : ∀ c, NodeAct.step τ (w.nodes b) (.partitionsForTopic topic) c
      = some ((w.nodes b).storage.partitionsForTopic topic, w.nodes b) := fun _ => rfl
  have hwrite : ∀ partitions c, NodeAct.step τ (w.nodes b) (.refreshTopic topic partitions) c
      = some ((), { w.nodes b with
        groups := (w.nodes b).groups.refreshTopic topic partitions }) := fun _ _ => rfl
  refine Prog.runs_bind_of_iff (fun {u w₁} => ?_)
  unfold refreshTopic
  rw [runs_ask hread, runs_lastAct (hwrite _)]

/-- The wait ends with whether the quorum is there. -/
theorem runs_waitForQuorum {offset : Nat} {ok : Bool} (hfree : (w.nodes b).mutex = none) :
    (waitForQuorum topic partition offset).Runs (Brokers.step τ τ' b reachable) w ok w' ↔
      ok = (w.nodes b).replication.quorumReached (w.nodes b).config topic partition offset ∧
        w' = w := by
  have hask : ∀ c, NodeAct.step τ (w.nodes b) (.quorumReached topic partition offset) c
      = some ((w.nodes b).replication.quorumReached (w.nodes b).config topic partition offset,
          w.nodes b) := fun c => Node.locked_eq (.inl hfree) _
  -- however often it is asked, the answer is the same
  have hpoll : ∀ n, (pollQuorum topic partition offset n).Runs (Brokers.step τ τ' b reachable)
      w ok w' ↔ ok = (w.nodes b).replication.quorumReached (w.nodes b).config topic partition
        offset ∧ w' = w := by
    intro n
    induction n with
    | zero => exact runs_lastAsk hask
    | succ n ih =>
      rw [pollQuorum, runs_ask hask]
      split
      · next hreached =>
        rw [hreached]
        exact Iff.rfl
      · exact ih
  unfold waitForQuorum
  constructor
  · rintro ⟨n, w₁, ⟨s', ⟨c, hc⟩, rfl⟩, hrest⟩
    have hsame : s' = w.nodes b := by
      cases c <;> exact (Prod.mk.inj (Option.some.inj hc)).2.symm
    rw [hsame, Brokers.set_self] at hrest
    exact (hpoll n).mp hrest
  · intro h
    exact ⟨0, w, ⟨w.nodes b, ⟨.succeeds, rfl⟩, w.set_self.symm⟩, (hpoll 0).mpr h⟩

/-! ### Whole requests -/

/-- The peers have room for the records. -/
def Brokers.HasRoom (w : Brokers) (topic : Bytes) (partition : Int) (count : Nat) : Prop :=
  ∀ n, ((w.nodes n).contents (makeKey topic partition)).length + count < 2 ^ 64

variable {request : Request} {last : Nat}

/-- What a follower answers to the request. -/
theorem Replicates.answer {request : Request} {first last : Nat}
    {note : Int → Option Bytes → ReplicationManager → ReplicationManager}
    (h : Replicates request note topic partition first last messages)
    (hroom : w.HasRoom topic partition messages.length) :
    (w.appended b topic partition messages).Answer τ' b reachable (encodeRequest request)
      (Node.taken request) := by
  intro p _ hne _ s' frame
  rw [Brokers.appended, Brokers.set_nodes_of_ne _ hne]
  refine serves_replication h.type h.travels h.fits.fetchOffset ?_
  rw [Request.logKey, h.topic_eq, h.partition_eq, h.records]
  exact hroom p

/-- How both handlers end: the records are replicated, and committed if a majority has them. -/
theorem runs_finish {replicate : Program Bool} {commit : Program Unit} {w₂ : Brokers} {Q : Prop}
    [Decidable Q] {failure timeout success response : Response}
    (hreplicate : ∀ {ok w'}, replicate.Runs (Brokers.step τ τ' b reachable) w ok w'
      ↔ ok = decide Q ∧ w' = w₁) (hfree : (w₁.nodes b).mutex = none)
    (hquorum : (w₁.nodes b).replication.quorumReached (w₁.nodes b).config topic partition last
      = decide Q)
    (hcommit : ∀ {u w'}, commit.Runs (Brokers.step τ τ' b reachable) w₁ u w' ↔ w' = w₂) :
    (replicate >>= fun ok => if (!ok) = true then return failure
      else waitForQuorum topic partition last >>= fun reached =>
        if (!reached) = true then return timeout
        else commit >>= fun _ => return success).Runs (Brokers.step τ τ' b reachable) w
          response w' ↔
      response = (if Q then success else failure) ∧ w' = (if Q then w₂ else w₁) := by
  rw [Prog.runs_bind_of_iff hreplicate]
  by_cases hQ : Q
  · rw [decide_eq_true hQ, if_neg (by decide), Prog.runs_bind_of_iff (runs_waitForQuorum hfree),
      hquorum, decide_eq_true hQ, if_neg (by decide), Prog.runs_unit_bind_of_iff hcommit,
      if_pos hQ, if_pos hQ]
    exact Iff.rfl
  · rw [decide_eq_false hQ, if_pos (by decide), if_neg hQ, if_neg hQ]
    exact Iff.rfl

/-- Appending does not change the configuration. -/
theorem Brokers.appended_config (w : Brokers) (b : Int) (topic : Bytes) (partition : Int)
    (messages : List Bytes) :
    (w.nodes b).config = ((w.appended b topic partition messages).nodes b).config := by
  have hb : (w.appended b topic partition messages).nodes b
      = (w.nodes b).afterProduce topic partition messages := w.set_nodes_self _
  rw [hb]
  rfl

/-- **From the records in the leader's log on**, both handlers do the same: the peers get the
    records in their own way, and then the commits of all `messages`. -/
theorem Replicates.exists_produced (τ τ' : Nat) (reachable : Int → Bool) {first : Nat}
    {note : Int → Option Bytes → ReplicationManager → ReplicationManager}
    (hway : Replicates request note topic partition first last messages) (hidle : w.Idle b)
    (hfirst : ((w.nodes b).contents (makeKey topic partition)).length = first)
    (hnone : (w.nodes b).replication.ackFollowers (makeAckKey topic partition last) = [])
    (hlast : last < first + messages.length) (replicate : Program Bool) (commit : Program Unit)
    (hreplicate : ∀ {w₁ ok w'}, w₁ = (w.appended b topic partition messages).visitAll τ b reachable
        (Node.taken request) note (fun m => m.openAcks
          ((w.appended b topic partition messages).nodes b).config topic partition last) →
      (replicate.Runs (Brokers.step τ τ' b reachable) (w.appended b topic partition messages)
          ok w' ↔
        ok = (w₁.nodes b).replication.quorumReached
          ((w.appended b topic partition messages).nodes b).config topic partition last ∧
          w' = w₁)) (hcommit : ∀ {w₁ u w'}, w₁.Idle b → w₁.Settled b reachable →
      (w₁.nodes b).config = (w.nodes b).config →
      (commit.Runs (Brokers.step τ τ' b reachable) w₁ u w' ↔
        w' = (List.range' first messages.length).foldl
          (Brokers.committed τ b reachable topic partition) w₁)) :
    ∃ w₂, w.Produced b reachable topic partition messages w₂ ∧
      ∀ {failure timeout success response : Response} {w' : Brokers},
        (replicate >>= fun ok => if (!ok) = true then return failure
          else waitForQuorum topic partition last >>= fun reached =>
            if (!reached) = true then return timeout
            else commit >>= fun _ => return success).Runs (Brokers.step τ τ' b reachable)
              (w.appended b topic partition messages) response w' ↔
          response = (if w.Quorate b reachable (makeKey topic partition) then success
            else failure) ∧ w' = w₂ := by
  have hrep := hway.replicated τ reachable hidle hfirst hnone
  generalize hw₁ : (w.appended b topic partition messages).visitAll _ _ _ _ _ _ = w₁ at hrep
  rw [w.appended_config b topic partition messages] at hw₁
  have hidle₁ := hrep.idle hidle
  refine ⟨if w.Quorate b reachable (makeKey topic partition) then _ else w₁,
    hrep.produced (hfirst ▸ hlast) ?_, fun {failure timeout success response w'} =>
    runs_finish (fun {ok w'} => ?_) (hidle₁.free b) (hrep.config ▸ hrep.quorum)
      (hcommit hidle₁ hrep.settled hrep.config)⟩
  · rw [hfirst]
    split
    · exact hidle₁.committed_foldl hrep.settled _
    · rfl
  · rw [← hrep.quorum, w.appended_config b topic partition messages]
    exact hreplicate hw₁.symm

/-- The response to a PRODUCE whose record is at `offset`. -/
def Brokers.outcome (w : Brokers) (b : Int) (reachable : Int → Bool) (key : Bytes)
    (offset : Nat) : Response :=
  if w.Quorate b reachable key then ⟨true, [], offset, []⟩
  else ⟨false, ofString "replication_failed", offset, []⟩

/-- **PRODUCE.** -/
theorem runs_produce (τ τ' : Nat) (reachable : Int → Bool) (hidle : w.Idle b) (hfits : request.Fits)
    (htopic : request.topic ≠ []) (hpartition : 0 ≤ request.partition)
    (hmessage : request.message ≠ []) (hroom : w.HasRoom request.topic request.partition 1)
    (hnone : (w.nodes b).replication.ackFollowers (makeAckKey request.topic request.partition
      ((w.nodes b).contents (makeKey request.topic request.partition)).length) = []) :
    ∃ w₁, w.Produced b reachable request.topic request.partition [request.message] w₁ ∧
      ∀ {response w'}, (handleProduce (w.nodes b).config request).Runs
          (Brokers.step τ τ' b reachable) w response w' ↔
        response = w.outcome b reachable (makeKey request.topic request.partition)
            ((w.nodes b).contents (makeKey request.topic request.partition)).length ∧
          w' = w₁ := by
  have hlt := hroom b
  generalize hN : ((w.nodes b).contents (makeKey request.topic request.partition)).length = N
    at hnone hlt ⊢
  have hway : Replicates (replicationRequest request.topic request.partition N request.message)
      (noteReplication
        ((w.appended b request.topic request.partition [request.message]).nodes b).now
        request.topic request.partition N) request.topic request.partition N N [request.message] :=
    replicates_message hfits (by omega) htopic hpartition hmessage
  have hidle₀ := hidle.appended request.topic request.partition [request.message]
  obtain ⟨w₂, hproduced, hruns⟩ := hway.exists_produced τ τ' reachable hidle hN hnone
    (Nat.lt_succ_self N)
    (replicateMessage (w.nodes b).config request.topic request.partition N request.message)
    (node (.markCommitted request.topic request.partition N) >>= fun _ =>
      broadcastCommit (w.nodes b).config request.topic request.partition N)
    (fun hw₁ => by
      rw [w.appended_config b request.topic request.partition [request.message]]
      exact runs_replicateMessage (hidle₀.ids b) (hidle₀.free b) hidle₀.leader hidle₀.distinct
        (hway.answer hroom) hw₁)
    (fun hidle₁ _ hconfig => by
      rw [← hconfig]
      exact runs_commitOffset hidle₁ htopic hpartition (travels_derived hfits (by omega)).2.1)
  refine ⟨w₂, hproduced, fun {response w'} => ?_⟩
  unfold handleProduce
  rw [runs_ask (Node.step_isLeader hidle.leader), if_neg (by decide), if_neg htopic,
    if_neg (Int.not_lt.mpr hpartition), if_neg hmessage,
    runs_act (Node.step_append (hN.symm ▸ hlt)), runs_refreshTopic_bind, Brokers.set_nodes_self,
    Brokers.set_set, hN]
  exact hruns

/-- The last offset of a batch. -/
theorem getLastD_range' (first count : Nat) :
    (List.range' (first + 1) count).getLastD first = first + count := by
  cases count with
  | zero => rfl
  | succ count => simp [List.getLastD_eq_getLast?, List.getLast?_range']; omega

/-- **BATCH_PRODUCE.** -/
theorem runs_batchProduce (τ τ' : Nat) (reachable : Int → Bool) (hidle : w.Idle b)
    (hfits : request.Fits) (htopic : request.topic ≠ []) (hpartition : 0 ≤ request.partition)
    (hmessages : request.messages ≠ [])
    (hroom : w.HasRoom request.topic request.partition request.messages.length)
    (hframe : (encodeRequest (batchRequest request.topic request.partition
      ((w.nodes b).contents (makeKey request.topic request.partition)).length
      request.messages)).length < 2 ^ 32)
    (hnone : (w.nodes b).replication.ackFollowers (makeAckKey request.topic request.partition
      (((w.nodes b).contents (makeKey request.topic request.partition)).length +
        (request.messages.length - 1))) = []) :
    ∃ w₁, w.Produced b reachable request.topic request.partition request.messages w₁ ∧
      ∀ {response w'}, (handleBatchProduce (w.nodes b).config request).Runs
          (Brokers.step τ τ' b reachable) w response w' ↔
        response = (if w.Quorate b reachable (makeKey request.topic request.partition) then
            ⟨true, [], ((w.nodes b).contents (makeKey request.topic request.partition)).length +
                (request.messages.length - 1),
              List.range' ((w.nodes b).contents (makeKey request.topic
                request.partition)).length request.messages.length⟩
          else ⟨false, ofString "quorum_timeout",
            ((w.nodes b).contents (makeKey request.topic request.partition)).length +
              (request.messages.length - 1), []⟩) ∧
          w' = w₁ := by
  have hlt := hroom b
  have hcount : 0 < request.messages.length := List.length_pos_iff.mpr hmessages
  -- `N` is the offset of the first record of the batch
  generalize hN : ((w.nodes b).contents (makeKey request.topic request.partition)).length = N
    at hnone hlt hframe ⊢
  have hway : Replicates (batchRequest request.topic request.partition N request.messages)
      (noteBatch request.topic request.partition (N + (request.messages.length - 1)))
      request.topic request.partition N (N + (request.messages.length - 1)) request.messages :=
    replicates_batch hfits hlt htopic hpartition hmessages hframe
  have hlast : N + (request.messages.length - 1) = (N + request.messages.length - 1) % 2 ^ 64 := by
    rw [Nat.mod_eq_of_lt (by omega)]
    omega
  have hidle₀ := hidle.appended request.topic request.partition request.messages
  obtain ⟨w₂, hproduced, hruns⟩ := hway.exists_produced τ τ' reachable hidle hN hnone (by omega)
    (replicateBatch (w.nodes b).config request.topic request.partition N request.messages)
    (commitBatch (w.nodes b).config request.topic request.partition
      (List.range' N request.messages.length))
    (fun hw₁ => by
      rw [w.appended_config b request.topic request.partition request.messages]
      exact runs_replicateBatch (hidle₀.ids b) (hidle₀.free b) hidle₀.leader hmessages hlast
        hidle₀.distinct (hway.answer hroom) hw₁)
    (fun hidle₁ hsettled hconfig => by
      rw [← hconfig]
      refine runs_commitBatch hidle₁ hsettled htopic hpartition (fun o ho => ?_)
      have hmem := List.mem_range'_1.mp ho
      exact (travels_derived hfits (by omega)).2.1)
  refine ⟨w₂, hproduced, fun {response w'} => ?_⟩
  unfold handleBatchProduce
  split
  · next hnil => exact absurd hnil hmessages
  · next first rest hcons =>
    have hlast : request.messages.length - 1 = rest.length := by rw [hcons]; rfl
    have hrange : N :: List.range' (N + 1) rest.length
        = List.range' N request.messages.length := by rw [hcons]; rfl
    -- first record and rest are appended one by one, which is one append of all
    have hb := w.set_nodes_self (n := b)
      ((w.nodes b).appendRecords request.topic request.partition [first])
    have hnext : (((w.set b ((w.nodes b).appendRecords request.topic request.partition
        [first])).nodes b).contents (makeKey request.topic request.partition)).length
          = N + 1 := by
      rw [hb, Node.contents_appendRecords_self, List.length_append, hN]
      rfl
    rw [runs_ask (Node.step_isLeader hidle.leader), if_neg (by decide),
      if_neg (not_or.mpr ⟨htopic, Int.not_lt.mpr hpartition⟩),
      runs_act (Node.step_append (by omega)), hN,
      Prog.runs_bind_of_iff (runs_appendBatch_iff (by rw [hnext]; omega)), hnext, hb,
      Brokers.set_set, runs_refreshTopic_bind, Brokers.set_nodes_self, Brokers.set_set]
    dsimp only
    rw [getLastD_range', hrange, ← hlast]
    show Prog.Runs _ _ (w.appended b request.topic request.partition (first :: rest)) _ _ ↔ _
    rw [← hcons]
    exact hruns

/-! ### One request for each message -/

/-- The requests of a client that produces one message after the other. -/
def produceEach (config : BrokerConfig) (topic : Bytes) (partition : Int) :
    List Bytes → Program (List Response)
  | [] => return []
  | message :: messages => do
    let response ← handleRequest config { type := .produce, topic, partition, message }
    let responses ← produceEach config topic partition messages
    return response :: responses

/-- What is left of the room. -/
theorem Brokers.Produced.hasRoom {count : Nat}
    (h : w.Produced b reachable topic partition messages w₁)
    (hroom : w.HasRoom topic partition (messages.length + count)) :
    w₁.HasRoom topic partition count := by
  intro n
  have hn := hroom n
  by_cases hne : n = b
  · rw [hne] at hn
    rw [hne, h.contents_leader, List.length_append]
    omega
  · have hshare := w.length_share_le b reachable (makeKey topic partition) n messages
    rw [h.contents_peer hne, List.length_append]
    omega

/-- **One PRODUCE after another.** -/
theorem runs_produceEach (τ τ' : Nat) (reachable : Int → Bool) {message : Bytes} (hidle : w.Idle b)
    (hfits : ∀ m ∈ message :: messages,
      Request.Fits { type := .produce, topic := topic, partition := partition, message := m })
    (htopic : topic ≠ []) (hpartition : 0 ≤ partition)
    (hmessages : ∀ m ∈ message :: messages, m ≠ [])
    (hroom : w.HasRoom topic partition (messages.length + 1))
    (hnone : ∀ i, i < messages.length + 1 → (w.nodes b).replication.ackFollowers
      (makeAckKey topic partition
        (((w.nodes b).contents (makeKey topic partition)).length + i)) = []) :
    ∃ w₁, w.Produced b reachable topic partition (message :: messages) w₁ ∧
      ∀ {responses w'}, (produceEach (w.nodes b).config topic partition
          (message :: messages)).Runs (Brokers.step τ τ' b reachable) w responses w' ↔
        responses = (List.range' ((w.nodes b).contents (makeKey topic partition)).length
            (messages.length + 1)).map (w.outcome b reachable (makeKey topic partition)) ∧
          w' = w₁ := by
  induction messages generalizing w message with
  | nil =>
    obtain ⟨w₁, hproduced, hruns⟩ := runs_produce τ τ' reachable hidle
      (hfits message List.mem_cons_self) htopic hpartition
      (hmessages message List.mem_cons_self) hroom (hnone 0 (Nat.succ_pos _))
    refine ⟨w₁, hproduced, fun {responses w'} => ?_⟩
    exact Prog.runs_bind_of_iff hruns
  | cons next messages ih =>
    rw [List.length_cons] at hroom hnone
    have hone : w.HasRoom topic partition 1 := fun n => by
      have := hroom n
      omega
    obtain ⟨w₁, hproduced, hruns⟩ := runs_produce τ τ' reachable hidle
      (hfits message List.mem_cons_self) htopic hpartition
      (hmessages message List.mem_cons_self) hone (hnone 0 (Nat.succ_pos _))
    dsimp only at hproduced hruns
    -- the first PRODUCE leaves the conditions of the next one, one offset further
    have hlength : ((w₁.nodes b).contents (makeKey topic partition)).length
        = ((w.nodes b).contents (makeKey topic partition)).length + 1 := by
      rw [hproduced.contents_leader, List.length_append]
      rfl
    obtain ⟨w₂, hrest, hruns'⟩ := ih (hproduced.idle hidle)
      (fun m hm => hfits m (List.mem_cons_of_mem _ hm))
      (fun m hm => hmessages m (List.mem_cons_of_mem _ hm))
      (hproduced.hasRoom (by rw [List.length_singleton, Nat.add_comm 1]; exact hroom))
      (fun i hi => by
        rw [hlength, hproduced.acks _ (by rw [List.length_singleton]; omega), Nat.add_assoc,
          Nat.add_comm 1]
        exact hnone (i + 1) (by omega))
    refine ⟨w₂, hproduced.cons hrest, fun {responses w'} => ?_⟩
    rw [produceEach]
    refine (Prog.runs_bind_of_iff hruns).trans ?_
    rw [← hproduced.config]
    refine (Prog.runs_bind_of_iff hruns').trans ?_
    -- no PRODUCE changes who is in sync, so all have the same outcome
    have houtcome : w₁.outcome b reachable (makeKey topic partition)
        = w.outcome b reachable (makeKey topic partition) := by
      funext offset
      unfold Brokers.outcome
      simp only [hproduced.quorate_iff]
    rw [houtcome, hlength]
    exact Iff.rfl

end Handlers

/-! ### Concrete brokers -/

/-- What thread 0 of a broker gets when it handles a request of another broker. -/
def Node.replyingAnswer :
    (a : Act) → Node × List Request → Option (a.Result × (Node × List Request))
  | .node a, w => (a.step 0 w.1 .succeeds).map (fun r => (r.1, (r.2, w.2)))
  | .net (.send ..), w => some (.unreachable, w)
  | .net (.receive _), w => some (none, w)
  | .net (.sendAck _ ack), w => some ((), (w.1, w.2 ++ [ack]))
  | .net (.respond ..), w => some ((), w)

/-- What thread 0 of broker `b` gets when all brokers can be reached. -/
def Brokers.answer (b : Int) : (a : Act) → Brokers → Option (a.Result × Brokers)
  | .node a, w => (a.step 0 (w.nodes b) .succeeds).map (fun r => (r.1, w.set b r.2))
  | .net (.send dest payload), w =>
    ((processRequest (w.nodes dest).config (Frame.delivered payload) (some 0)).play
      Node.replyingAnswer (w.nodes dest, [])).map (fun r =>
        (.sent 0, w.deliver dest (r.2.1, Frame.delivered (firstFrame r.2.2 r.1))))
  | .net (.receive _), w => some (w.frame, w)
  | .net (.sendAck ..), w => some ((), w)
  | .net (.respond ..), w => some ((), w)

theorem Node.replying_of_answer {a : Act} {w w' : Node × List Request} {r : a.Result}
    (h : Node.replyingAnswer a w = some (r, w')) : Node.replying true 0 w a r w' := by
  cases a with
  | node a =>
    obtain ⟨⟨r', s'⟩, hstep, heq⟩ := Option.map_eq_some_iff.mp h
    obtain ⟨rfl, rfl⟩ := Prod.mk.inj heq
    exact ⟨s', ⟨.succeeds, hstep⟩, rfl⟩
  | net a => cases a <;> exact (Prod.mk.inj (Option.some.inj h)).2.symm

/-- A computed step is a step. -/
theorem Brokers.step_of_answer {b : Int} {a : Act} {w w' : Brokers} {r : a.Result}
    (h : Brokers.answer b a w = some (r, w')) :
    Brokers.step 0 0 b (fun _ => true) w a r w' := by
  cases a with
  | node a =>
    obtain ⟨⟨r', s'⟩, hstep, heq⟩ := Option.map_eq_some_iff.mp h
    obtain ⟨rfl, rfl⟩ := Prod.mk.inj heq
    exact ⟨s', ⟨.succeeds, hstep⟩, rfl⟩
  | net a =>
    cases a with
    | send dest payload =>
      obtain ⟨⟨response, s', acks⟩, hplay, heq⟩ := Option.map_eq_some_iff.mp h
      obtain ⟨rfl, rfl⟩ := Prod.mk.inj heq
      refine ⟨s', _, ⟨response, acks, ?_, rfl⟩, rfl, rfl⟩
      refine Prog.runs_of_play ?_ hplay
      exact fun hanswer => Node.replying_of_answer hanswer
    | receive conn =>
      obtain ⟨rfl, rfl⟩ := Prod.mk.inj (Option.some.inj h)
      exact ⟨rfl, rfl⟩
    | sendAck conn ack => exact (Prod.mk.inj (Option.some.inj h)).2.symm
    | respond conn response => exact (Prod.mk.inj (Option.some.inj h)).2.symm

/-- Brokers that have just been started; broker 1 is the leader and has `peers`. -/
def startedBrokers (peers : List Int) : Brokers where
  nodes := fun n =>
    { config := ⟨9000 + n, n, [], peers.map (fun p => ⟨p, [], 9000 + p⟩)⟩
      type := if n = 1 then .leader else .follower
      leaderBrokerId := 1
      disk := fun _ => []
      replication := {} }

/-- A computed run is a run. -/
theorem exists_runs_of_answer {α : Type} {p : Program α} {b : Int} {w : Brokers}
    {P : Brokers → Prop} [DecidablePred P]
    (h : (p.play (Brokers.answer b) w).any (fun r => decide (P r.2)) = true) :
    ∃ x w', p.Runs (Brokers.step 0 0 b (fun _ => true)) w x w' ∧ P w' := by
  cases hplay : p.play (Brokers.answer b) w with
  | none =>
    rw [hplay] at h
    exact absurd h Bool.false_ne_true
  | some r =>
    rw [hplay] at h
    refine ⟨r.1, r.2, ?_, of_decide_eq_true h⟩
    refine Prog.runs_of_play ?_ hplay
    exact fun hanswer => Brokers.step_of_answer hanswer

/-- Brokers that have just started are idle. -/
theorem idle_startedBrokers {peers : List Int} (hnodup : peers.Nodup)
    (hint : ∀ p ∈ peers, IsInt32 p) : (startedBrokers peers).Idle 1 := by
  have hids : ((startedBrokers peers).nodes 1).config.peers.map ClusterPeer.brokerId = peers := by
    show (peers.map (fun p => (⟨p, [], 9000 + p⟩ : ClusterPeer))).map ClusterPeer.brokerId = peers
    rw [List.map_map]
    exact List.map_id peers
  exact ⟨fun _ => rfl, fun _ => rfl, rfl, hids.symm ▸ hnodup, hids.symm ▸ hint⟩

section Agreement

variable {τ τ' : Nat} {b : Int} {reachable : Int → Bool} {w w' : Brokers} {topic : Bytes}
  {partition : Int}

/-! ### Agreement -/

/-- Two states of the cluster agree on a log, on its commit indexes and on the leader's
    groups, and the producer was told the same offsets. -/
structure Brokers.Agree (b : Int) (topic : Bytes) (partition : Int) (response : Response)
    (w : Brokers) (responses : List Response) (w' : Brokers) : Prop where
  logs : ∀ n, (w.nodes n).contents (makeKey topic partition)
    = (w'.nodes n).contents (makeKey topic partition)
  commits : ∀ n, (w.nodes n).replication.commitIndexByLog (makeKey topic partition)
    = (w'.nodes n).replication.commitIndexByLog (makeKey topic partition)
  groups : (w.nodes b).groups = (w'.nodes b).groups
  success : response.success = true ↔ ∀ r ∈ responses, r.success = true
  offsets : response.success = true →
    response.appendedOffsets = responses.map Response.appendedOffset

/-- Two ways to produce the same records end with the same contents. -/
theorem Brokers.Produced.agree {w₂ : Brokers}
    (h₁ : w.Produced b reachable topic partition messages w₁)
    (h₂ : w.Produced b reachable topic partition messages w₂) (n : Int) :
    (w₁.nodes n).contents (makeKey topic partition)
        = (w₂.nodes n).contents (makeKey topic partition) ∧
      (w₁.nodes n).replication.commitIndexByLog (makeKey topic partition)
        = (w₂.nodes n).replication.commitIndexByLog (makeKey topic partition) ∧
      (w₁.nodes b).groups = (w₂.nodes b).groups := by
  refine ⟨?_, (h₁.commits n).trans (h₂.commits n).symm, ?_⟩
  · by_cases hn : n = b
    · rw [hn, h₁.contents_leader, h₂.contents_leader]
    · rw [h₁.contents_peer hn, h₂.contents_peer hn]
  · rw [h₁.leader, h₂.leader]

/-- A message of a batch off the wire fits a request of its own. -/
theorem single_fits {message : Bytes}
    (hfits : Request.Fits { type := .batchProduce, topic, partition, messages })
    (hmem : message ∈ messages) : Request.Fits { type := .produce, topic, partition, message } where
  topic := hfits.topic
  partition := hfits.partition
  message := hfits.messages message hmem
  fetchOffset := hfits.fetchOffset
  brokerId := hfits.brokerId
  groupId := hfits.groupId
  memberId := hfits.memberId
  count := Nat.zero_le _
  messages := fun _ h => absurd h List.not_mem_nil
  type := (by decide : RequestType.produce ≠ .error)

theorem Brokers.appendedOffset_outcome (w : Brokers) (b : Int) (reachable : Int → Bool)
    (key : Bytes) (offset : Nat) :
    (w.outcome b reachable key offset).appendedOffset = offset := by
  unfold Brokers.outcome
  split <;> rfl

/-- A produce succeeds if and only if the log has its quorum. -/
theorem Brokers.success_outcome (w : Brokers) (b : Int) (reachable : Int → Bool) (key : Bytes)
    (offset : Nat) : (w.outcome b reachable key offset).success = true
      ↔ w.Quorate b reachable key := by
  unfold Brokers.outcome
  split
  · next hquorum => exact iff_of_true rfl hquorum
  · next hquorum => exact iff_of_false Bool.false_ne_true hquorum

/-- A request for a topic or a partition that cannot exist changes nothing, one by one. -/
theorem runs_produceEach_invalid (hleader : (w.nodes b).isLeader = true)
    (hinvalid : topic = [] ∨ partition < 0) {responses : List Response} :
    (produceEach (w.nodes b).config topic partition messages).Runs
        (Brokers.step τ τ' b reachable) w responses w' ↔
      responses = messages.map (fun _ => Response.failure
        (if topic = [] then "empty_topic" else "invalid_partition")) ∧ w' = w := by
  induction messages generalizing responses w' with
  | nil => exact Iff.rfl
  | cons message messages ih =>
    have hone : ∀ {response w₁}, (handleRequest (w.nodes b).config
        { type := .produce, topic, partition, message }).Runs (Brokers.step τ τ' b reachable) w
          response w₁ ↔ response = Response.failure
            (if topic = [] then "empty_topic" else "invalid_partition") ∧ w₁ = w := by
      intro response w₁
      show (handleProduce _ _).Runs _ _ _ _ ↔ _
      unfold handleProduce
      rw [runs_ask (Node.step_isLeader hleader), if_neg (by decide)]
      dsimp only
      by_cases htopic : topic = []
      · rw [if_pos htopic, if_pos htopic]
        exact Iff.rfl
      · rw [if_neg htopic, if_neg htopic, if_pos (hinvalid.resolve_left htopic)]
        exact Iff.rfl
    rw [produceEach, Prog.runs_bind_of_iff hone, Prog.runs_bind_of_iff ih]
    exact Iff.rfl

/-- An invalid batch is refused. -/
theorem runs_batchProduce_invalid (hleader : (w.nodes b).isLeader = true)
    (hinvalid : topic = [] ∨ partition < 0) (hne : messages ≠ []) {response : Response} :
    (handleRequest (w.nodes b).config { type := .batchProduce, topic, partition, messages }).Runs
        (Brokers.step τ τ' b reachable) w response w' ↔
      response = Response.failure "invalid_batch" ∧ w' = w := by
  cases messages with
  | nil => exact absurd rfl hne
  | cons message messages =>
    unfold handleRequest handleBatchProduce
    dsimp only
    rw [runs_ask (Node.step_isLeader hleader), if_neg (by decide), if_pos hinvalid]
    exact Iff.rfl

/-- **Batches and single produces agree.**  A leader whose peers are all different handles a
    BATCH_PRODUCE, or one PRODUCE for each message, while no other broker is busy. -/
theorem batch_produce_agrees {messages : List Bytes} (hidle : w.Idle b)
    (hfits : Request.Fits { type := .batchProduce, topic, partition, messages })
    (hframe : (encodeRequest (batchRequest topic partition
      ((w.nodes b).contents (makeKey topic partition)).length messages)).length < 2 ^ 32)
    (hroom : w.HasRoom topic partition messages.length)
    (hnone : ∀ i, i < messages.length → (w.nodes b).replication.ackFollowers
      (makeAckKey topic partition
        (((w.nodes b).contents (makeKey topic partition)).length + i)) = [])
    (hne : messages ≠ []) (hmessages : ∀ m ∈ messages, m ≠ []) :
    (∃ response w₁, (handleRequest (w.nodes b).config
        { type := .batchProduce, topic, partition, messages }).Runs
          (Brokers.step τ τ' b reachable) w response w₁) ∧
      (∃ responses w₂, (produceEach (w.nodes b).config topic partition messages).Runs
        (Brokers.step τ τ' b reachable) w responses w₂) ∧
      ∀ response w₁ responses w₂,
        (handleRequest (w.nodes b).config
          { type := .batchProduce, topic, partition, messages }).Runs
            (Brokers.step τ τ' b reachable) w response w₁ →
        (produceEach (w.nodes b).config topic partition messages).Runs
          (Brokers.step τ τ' b reachable) w responses w₂ →
        Brokers.Agree b topic partition response w₁ responses w₂ := by
  by_cases hvalid : topic = [] ∨ partition < 0
  · -- both are refused, and nothing has changed
    refine ⟨⟨_, _, (runs_batchProduce_invalid hidle.leader hvalid hne).mpr ⟨rfl, rfl⟩⟩,
      ⟨_, _, (runs_produceEach_invalid hidle.leader hvalid).mpr ⟨rfl, rfl⟩⟩, ?_⟩
    intro response w₁ responses w₂ hbatch heach
    obtain ⟨rfl, rfl⟩ := (runs_batchProduce_invalid hidle.leader hvalid hne).mp hbatch
    obtain ⟨rfl, rfl⟩ := (runs_produceEach_invalid hidle.leader hvalid).mp heach
    refine ⟨fun _ => rfl, fun _ => rfl, rfl, iff_of_false (by decide) (fun hall => ?_),
      fun h => absurd h (by decide)⟩
    obtain ⟨message, rest, rfl⟩ := List.exists_cons_of_ne_nil hne
    exact Bool.false_ne_true (hall _ (List.mem_map_of_mem List.mem_cons_self))
  · obtain ⟨htopic, hpartition⟩ := not_or.mp hvalid
    rw [Int.not_lt] at hpartition
    obtain ⟨message, rest, rfl⟩ := List.exists_cons_of_ne_nil hne
    obtain ⟨w₁, hbatch, hruns⟩ := runs_batchProduce τ τ' reachable hidle hfits htopic hpartition
      hne hroom hframe (hnone _ (by rw [List.length_cons]; omega))
    obtain ⟨w₂, heach, hruns'⟩ := runs_produceEach τ τ' reachable hidle
      (fun m hm => single_fits hfits hm) htopic hpartition hmessages hroom hnone
    refine ⟨⟨_, _, hruns.mpr ⟨rfl, rfl⟩⟩, ⟨_, _, hruns'.mpr ⟨rfl, rfl⟩⟩, ?_⟩
    intro response v₁ responses v₂ hv₁ hv₂
    obtain ⟨rfl, rfl⟩ := hruns.mp hv₁
    obtain ⟨rfl, rfl⟩ := hruns'.mp hv₂
    have hagree := hbatch.agree heach
    refine ⟨fun n => (hagree n).1, fun n => (hagree n).2.1, (hagree b).2.2, ?_, fun hsuccess => ?_⟩
    · by_cases hquorum : w.Quorate b reachable (makeKey topic partition)
      · rw [if_pos hquorum]
        refine iff_of_true rfl (fun r hr => ?_)
        obtain ⟨offset, -, rfl⟩ := List.mem_map.mp hr
        exact (w.success_outcome ..).mpr hquorum
      · rw [if_neg hquorum]
        refine iff_of_false Bool.false_ne_true (fun hall => hquorum ?_)
        exact (w.success_outcome ..).mp (hall _ (List.mem_map_of_mem
          (List.mem_range'_1.mpr ⟨Nat.le_refl _, Nat.lt_add_of_pos_right (Nat.succ_pos _)⟩)))
    · have hquorum : w.Quorate b reachable (makeKey topic partition) := by
        by_contra hno
        rw [if_neg hno] at hsuccess
        exact Bool.false_ne_true hsuccess
      have hsame : Response.appendedOffset ∘ w.outcome b reachable (makeKey topic partition)
          = id := funext (w.appendedOffset_outcome b reachable (makeKey topic partition))
      rw [if_pos hquorum, List.map_map, hsame, List.map_id]
      rfl

end Agreement

/-- Two messages, and two peers of which one cannot be reached. -/
theorem batch_produce_agrees_pair :
    (startedBrokers [2, 3]).Quorate 1 (fun n => n == 2) (makeKey (ofString "t") 0) ∧
    (∃ response w₁, (handleRequest ((startedBrokers [2, 3]).nodes 1).config
        { type := .batchProduce, topic := ofString "t", partition := 0,
          messages := [ofString "a", ofString "b"] }).Runs
          (Brokers.step 0 0 1 (fun n => n == 2)) (startedBrokers [2, 3]) response w₁) ∧
      (∃ responses w₂, (produceEach ((startedBrokers [2, 3]).nodes 1).config (ofString "t") 0
        [ofString "a", ofString "b"]).Runs
        (Brokers.step 0 0 1 (fun n => n == 2)) (startedBrokers [2, 3]) responses w₂) ∧
      ∀ response w₁ responses w₂,
        (handleRequest ((startedBrokers [2, 3]).nodes 1).config
          { type := .batchProduce, topic := ofString "t", partition := 0,
            messages := [ofString "a", ofString "b"] }).Runs
            (Brokers.step 0 0 1 (fun n => n == 2)) (startedBrokers [2, 3]) response w₁ →
        (produceEach ((startedBrokers [2, 3]).nodes 1).config (ofString "t") 0
          [ofString "a", ofString "b"]).Runs
          (Brokers.step 0 0 1 (fun n => n == 2)) (startedBrokers [2, 3]) responses w₂ →
        Brokers.Agree 1 (ofString "t") 0 response w₁ responses w₂ := by
  refine ⟨by decide +kernel, ?_⟩
  refine batch_produce_agrees (idle_startedBrokers (by decide) (by decide)) ?_ (by decide +kernel)
    (fun n => ?_) (fun i hi => rfl) (by decide) (by decide)
  · exact
      { topic := by decide, partition := by decide, message := by decide, fetchOffset := by decide
        brokerId := by decide, groupId := by decide, memberId := by decide, count := by decide
        messages := by decide, type := by decide }
  · show 0 + 2 < 2 ^ 64
    decide

/-- **A peer that is listed twice.**  Single produces leave it with the first message twice,
    the batch with the first message again after all others. -/
theorem batch_produce_differs :
    ((startedBrokers [2, 2]).nodes 1).isLeader = true ∧
    (∀ key, ((startedBrokers [2, 2]).nodes 1).replication.ackFollowers key = []) ∧
    ∃ response w₁ responses w₂,
      (handleRequest ((startedBrokers [2, 2]).nodes 1).config
        { type := .batchProduce, topic := ofString "t", partition := 0,
          messages := [ofString "a", ofString "b"] }).Runs
        (Brokers.step 0 0 1 (fun _ => true)) (startedBrokers [2, 2]) response w₁ ∧
      (produceEach ((startedBrokers [2, 2]).nodes 1).config (ofString "t") 0
        [ofString "a", ofString "b"]).Runs
        (Brokers.step 0 0 1 (fun _ => true)) (startedBrokers [2, 2]) responses w₂ ∧
      (w₁.nodes 2).contents (makeKey (ofString "t") 0)
        = [ofString "a", ofString "b", ofString "a"] ∧
      (w₂.nodes 2).contents (makeKey (ofString "t") 0) = [ofString "a", ofString "a"] := by
  have hbatch : ∃ response w₁, (handleRequest ((startedBrokers [2, 2]).nodes 1).config
      { type := .batchProduce, topic := ofString "t", partition := 0,
        messages := [ofString "a", ofString "b"] }).Runs
      (Brokers.step 0 0 1 (fun _ => true)) (startedBrokers [2, 2]) response w₁ ∧
        (w₁.nodes 2).contents (makeKey (ofString "t") 0)
          = [ofString "a", ofString "b", ofString "a"] :=
    exists_runs_of_answer (by decide +kernel)
  have heach : ∃ responses w₂, (produceEach ((startedBrokers [2, 2]).nodes 1).config
      (ofString "t") 0 [ofString "a", ofString "b"]).Runs
      (Brokers.step 0 0 1 (fun _ => true)) (startedBrokers [2, 2]) responses w₂ ∧
        (w₂.nodes 2).contents (makeKey (ofString "t") 0) = [ofString "a", ofString "a"] :=
    exists_runs_of_answer (by decide +kernel)
  obtain ⟨response, w₁, hbatch, hlog⟩ := hbatch
  obtain ⟨responses, w₂, heach, hlog'⟩ := heach
  exact ⟨rfl, fun _ => rfl, response, w₁, responses, w₂, hbatch, heach, hlog, hlog'⟩

end StreamingPlatform
