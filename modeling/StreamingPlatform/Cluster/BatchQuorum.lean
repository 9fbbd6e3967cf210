import StreamingPlatform.Cluster.Batches
import StreamingPlatform.Cluster.Limits

namespace StreamingPlatform

open ByteString Interleave World

/-!
# Cluster — acknowledged batches

What the brokers tell each other about batches, as an extension of the contract:

* an ACK to a BATCH_REPLICATE is from a broker that holds the records of the batch one after
  the other, from the offset that the request names (`HoldsBatch`);
* a successful answer to a BATCH_PRODUCE is from a broker that has appended the records, and
  a majority holds them one after the other (`BatchBacked`).

So far nothing is said of the offsets that the producer is told.  Where nobody comes in
between the appends of a batch, they are those of the request to the followers, and a
majority holds every record of the batch at its offset (`batch_on_majority`).
-/

variable {expected : Nat} {offsets : List Nat} {response : Response} {payload : Bytes} {a : Act}
  {conn : Option Nat}

namespace World

variable (w : World)

/-- Broker `n` holds the records of a replicated batch where the request puts them. -/
def HoldsBatch (n : Int) (request : Request) : Prop :=
  ∀ (i : Nat) (message : Bytes), request.messages[i]? = some message →
    w.Holds n request.topic request.partition ((request.fetchOffset + i) % 2 ^ 64) message

/-- Thread `τ` of broker `n` has appended the later records of a batch at `offsets`; they
    belong at `expected` and after it if the batch is contiguous. -/
structure BatchRest (τ : Nat) (n : Int) (topic : Bytes) (partition : Int) (expected : Nat)
    (messages : List Bytes) (offsets : List Nat) : Prop where
  length : offsets.length = messages.length
  bounded : ∀ o ∈ offsets, o < 2 ^ 64
  placed : ∀ (i o : Nat) (m : Bytes), offsets[i]? = some o → messages[i]? = some m →
    w.Holds n topic partition o m ∧
      w.Did τ (.node (.append topic partition m (.batch (expected + i)))) o

/-- What thread `τ` of broker `n` knows when it answers a BATCH_PRODUCE with a success. -/
def BatchBacked (cluster : Membership) (τ : Nat) (n : Int) (request : Request)
    (offsets : List Nat) : Prop :=
  ∃ message messages first rest, request.messages = message :: messages ∧
    offsets = first :: rest ∧
    (∃ served, w.Serves τ n served ∧ served.type = .batchProduce) ∧
    w.Holds n request.topic request.partition first message ∧
    w.BatchRest τ n request.topic request.partition (first + 1) messages rest ∧
    Majority cluster (fun id => id = n ∨
      w.HoldsBatch id (batchRequest request.topic request.partition first request.messages))

/-- What a response says about a batch. -/
def BatchOk (cluster : Membership) (request : Request) (response : Response) : Prop :=
  w.Honest → request.type = .batchProduce → response.Fits ∧
    (response.success = true → ∃ τ n, w.BatchBacked cluster τ n request response.appendedOffsets)

/-- What a frame that comes back says about a batch. -/
structure BatchFrameOk (cluster : Membership) (dest : Int) (payload frame : Bytes) : Prop where
  ack : w.Honest → (parseRequest payload).type = .batchReplicate →
    (parseRequest frame).type = .ack → w.HoldsBatch dest (parseRequest payload)
  response : w.BatchOk cluster (parseRequest payload) (parseResponse frame)

namespace Mono

variable {w} {w' : World} {cluster : Membership} {n : Int} {request : Request}

theorem holdsBatch (h : w.Mono w') (hw : w.HoldsBatch n request) : w'.HoldsBatch n request :=
  fun i message hi => h.holds (hw i message hi)

theorem batchRest (h : w.Mono w') {τ : Nat} {topic : Bytes} {partition : Int}
    {messages : List Bytes} (hw : w.BatchRest τ n topic partition expected messages offsets) :
    w'.BatchRest τ n topic partition expected messages offsets := by
  refine ⟨hw.length, hw.bounded, fun i o m ho hm => ?_⟩
  obtain ⟨hholds, hdid⟩ := hw.placed i o m ho hm
  exact ⟨h.holds hholds, h.did hdid⟩

/-- A batch that is backed stays so. -/
theorem batchBacked (h : w.Mono w') {τ : Nat} (hw : w.BatchBacked cluster τ n request offsets) :
    w'.BatchBacked cluster τ n request offsets := by
  obtain ⟨message, messages, first, rest, hmessages, hoffsets, ⟨served, hserves, htype⟩, hfirst,
    hrest, hmajority⟩ := hw
  refine ⟨message, messages, first, rest, hmessages, hoffsets, ⟨served, h.serves hserves, htype⟩,
    h.holds hfirst, h.batchRest hrest, majority (fun id hid => ?_) hmajority⟩
  exact hid.imp_right h.holdsBatch

/-- An answer about a batch stays justified. -/
theorem batchOk (h : w.Mono w') (hw : w.BatchOk cluster request response) :
    w'.BatchOk cluster request response := by
  intro hhonest htype
  obtain ⟨hfits, hbacked⟩ := hw (h.honest hhonest) htype
  refine ⟨hfits, fun hs => ?_⟩
  obtain ⟨τ, n, hn⟩ := hbacked hs
  exact ⟨τ, n, h.batchBacked hn⟩

theorem batchFrameOk (h : w.Mono w') {dest : Int} {frame : Bytes}
    (hw : w.BatchFrameOk cluster dest payload frame) : w'.BatchFrameOk cluster dest payload frame :=
  ⟨fun hhonest hbatch hack => h.holdsBatch (hw.ack (h.honest hhonest) hbatch hack),
    h.batchOk hw.response⟩

end Mono

end World

/-! ### The extension of the contract -/

/-- What a thread owes at an action, beyond the contract. -/
def BatchPre (cluster : Membership) (τ : Nat) (a : Act) (w : World) : Prop :=
  match a with
  | .net (.sendAck conn _) => w.Honest → ∀ id c, conn = some id → w.conns[id]? = some c →
      (parseRequest c.payload).type = .batchReplicate →
      w.HoldsBatch c.dest (parseRequest c.payload)
  | .net (.respond _ response) => ∀ n request, w.Serves τ n request →
      w.BatchOk cluster request response
  | _ => True

/-- What is true at any time, beyond the contract. -/
structure BatchInv (cluster : Membership) (w : World) : Prop where
  contract : Inv cluster w
  frames : ∀ (id : Nat) (c : Conn), w.conns[id]? = some c → ∀ frame ∈ c.frames,
    w.BatchFrameOk cluster c.dest c.payload frame

section Extension

variable {cluster : Membership} {τ : Nat} {w w' : World}

/-- A frame that is written is true: by the contract an ACK answers a replication request,
    and a response the request that is served. -/
theorem BatchInv.frames_exec {c : Choice} {r : a.Result} (hI : BatchInv cluster w)
    (hcontract : Pre cluster τ a w) (hpre : BatchPre cluster τ a w)
    (h : World.exec τ a c w = some (r, w')) {id : Nat} {conn : Conn} {frame : Bytes}
    (hconn : w'.conns[id]? = some conn) (hframe : frame ∈ conn.frames) :
    w.BatchFrameOk cluster conn.dest conn.payload frame := by
  rcases World.exec_conn h hconn with ⟨old, hold, hdest, hpayload, hwritten⟩ | ⟨-, hnone⟩
  swap
  · -- nothing has been written yet to a connection that was just opened
    rw [hnone] at hframe
    exact absurd hframe List.not_mem_nil
  rw [← hdest, ← hpayload]
  rcases hwritten frame hframe with hf | ⟨ack, rfl, rfl⟩ | ⟨response, rfl, rfl⟩
  · exact hI.frames id old hold frame hf
  · refine ⟨fun hhonest hbatch _ => hpre hhonest id old rfl hold hbatch, fun _ htype => ?_⟩
    obtain ⟨-, -, hkind, -⟩ := hcontract id old rfl hold
    rw [htype] at hkind
    exact absurd hkind (by decide)
  · obtain ⟨n, request, hserves, -, hrequest⟩ := hcontract
    have hok := hpre n request hserves
    rw [← hrequest id old rfl hold] at hok
    refine ⟨fun _ _ hack => ?_, fun hhonest htype => ?_⟩
    · exact absurd hack (type_parseRequest_serializeResponse response)
    · rw [parseResponse_serialize (hok hhonest htype).1]
      exact hok hhonest htype

/-- Actions within the contract keep the invariant of batches. -/
theorem BatchInv.exec {c : Choice} {r : a.Result} (hI : BatchInv cluster w)
    (hcontract : Pre cluster τ a w) (hpre : BatchPre cluster τ a w)
    (h : World.exec τ a c w = some (r, w')) : BatchInv cluster w' := by
  refine ⟨hI.contract.exec hcontract h, fun id conn hconn frame hframe => ?_⟩
  exact (World.exec_mono h).1.batchFrameOk (hI.frames_exec hcontract hpre h hconn hframe)

/-- So does the environment. -/
theorem BatchInv.env {k : Nat} {e : EnvStep} {started : Option (Program (Option Response))}
    (hI : BatchInv cluster w) (h : World.env k e w = some (w', started)) :
    BatchInv cluster w' := by
  refine ⟨hI.contract.env h, fun id conn hconn frame hframe => ?_⟩
  obtain ⟨old, hold, hdest, hpayload, hframes⟩ := (World.env_cases h).1.conn hconn
  rw [← hdest, ← hpayload]
  exact (World.env_mono h).1.batchFrameOk (hI.frames id old hold frame (hframes ▸ hframe))

end Extension

/-- **What brokers tell each other about batches**, on top of the contract. -/
def batchContract (cluster : Membership) : Protocol clusterMachine (contract cluster).above where
  Inv := BatchInv cluster
  Pre := BatchPre cluster
  exec_inv := fun hI hG hpre h => hI.exec hG.2 hpre h
  env_inv := fun hI _ h => hI.env h

/-- Thread `τ` meets the extension with the rest `p` of its program, and what it returns
    satisfies `Q`. -/
abbrev Vouches {α : Type} (cluster : Membership) (τ : Nat) (Q : α → World → Prop)
    (p : Program α) (w : World) : Prop :=
  Safe clusterRely (batchContract cluster) τ Q p w

/-- Its extension asks nothing of the routine actions either. -/
theorem batchContract_lenient (cluster : Membership) : Lenient (batchContract cluster) := by
  intro τ a w ha
  cases a with
  | node a => trivial
  | net a => cases a <;> first | exact ha.elim | trivial

/-- Every frame that answers a batch is in order. -/
theorem says_batchContract (cluster : Membership) :
    Says (batchContract cluster) (fun w => w.BatchFrameOk cluster) :=
  fun hI hmono id c hc frame hf => hmono.batchFrameOk (hI.frames id c hc frame hf)

/-! ### Programs that write no frame -/

/-- The actions that write no frame on the connection of a request. -/
def Act.Mute : Act → Prop
  | .net (.sendAck ..) | .net (.respond ..) => False
  | _ => True

theorem Act.Plain.mute (h : a.Plain payload) : a.Mute := by
  cases a with
  | node a => trivial
  | net a => cases a <;> first | exact h.elim | trivial

section Mute

variable {cluster : Membership} {τ : Nat} {w : World} {config : BrokerConfig}

/-- Whoever writes no frame needs no argument. -/
theorem vouches_mute {α : Type} {p : Program α} (hp : p.AllActs Act.Mute) :
    Vouches cluster τ (fun _ _ => True) p w := by
  refine Safe.of_allActs hp (fun a w' _ ha _ _ => ?_)
  cases a with
  | node a => trivial
  | net a => cases a <;> first | exact ha.elim | trivial

theorem mute_exchanges {α : Type} {p : Program α} (hp : p.AllActs (Act.Exchanges payload)) :
    p.AllActs Act.Mute :=
  hp.mono (fun _ h => h.plain.mute)

theorem mute_broadcastCommit (topic : Bytes) (partition : Int) (offset : Nat) :
    (broadcastCommit config topic partition offset).AllActs Act.Mute :=
  mute_exchanges (exchanges_broadcastCommit topic partition offset)

/-- **Handlers of clients' requests write no frame**: the server does. -/
theorem mute_handleRequest (request : Request) :
    (handleRequest config request).AllActs Act.Mute := by
  have hforward := mute_exchanges (exchanges_forwardToLeader request)
  have hwait : ∀ offset, (waitForQuorum request.topic request.partition offset).AllActs Act.Mute :=
    fun _ => acts_waitForQuorum trivial trivial
  unfold handleRequest
  split
  · exact acts_handleProduce trivial hforward trivial (acts_refreshTopic trivial (fun _ => trivial))
      (fun offset => mute_exchanges (exchanges_replicateMessage _ _ offset _)) hwait
      (fun _ => trivial) (mute_broadcastCommit _ _)
  · exact acts_handleBatchProduce trivial hforward (fun _ _ _ => trivial)
      (acts_refreshTopic trivial (fun _ => trivial))
      (fun offset => mute_exchanges (exchanges_replicateBatch _ _ offset _)) hwait
      (fun _ => trivial) (mute_broadcastCommit _ _)
  · exact acts_handleFetch trivial trivial
  · exact acts_handleMetadata trivial
  · exact plain_handleJoinGroup.mono (fun _ h => h.mute)
  · exact plain_handleLeaveGroup.mono (fun _ h => h.mute)
  · exact mute_exchanges (exchanges_handleGroupFetch request)
  · exact (onLeader_handleCommitOffset trivial).acts trivial hforward
  · exact mute_exchanges (exchanges_handleGroupAssignment request)
  · exact .pure _

end Mute

/-! ### Followers -/

section Followers

variable {cluster : Membership} {τ : Nat} {w : World} {n : Int} {topic : Bytes} {partition : Int}

/-- A replica that was taken has its offset. -/
theorem vouches_appendReplica {message : Bytes} (hat : w.RunsAt τ n) :
    Vouches cluster τ (fun r w' => r = true → w'.Holds n topic partition expected message)
      (appendReplica topic partition message expected) w := by
  unfold appendReplica
  refine safe_node hat (fun _ _ _ => trivial) (fun c r w₁ w₂ _ _ _ _ hstep => ?_)
  refine Safe.ret (fun w₃ hR₃ _ hr => ?_)
  rw [← of_decide_eq_true hr]
  exact hR₃.1.holds (World.Holds.of_append hstep)

/-- A batch that is appended to its end is in the log from its first offset on. -/
theorem vouches_appendReplicas {messages : List Bytes} {first : Nat} (hat : w.RunsAt τ n)
    (hI : BatchInv cluster w) :
    Vouches cluster τ (fun r w' => r = true → ∀ (i : Nat) (m : Bytes), messages[i]? = some m →
        w'.Holds n topic partition ((first + i) % 2 ^ 64) m)
      (appendReplicas topic partition messages first) w := by
  induction messages generalizing first w with
  | nil => exact Safe.ret (fun _ _ _ _ i m hi => absurd hi (by simp))
  | cons message messages ih =>
    unfold appendReplicas
    refine Safe.bind hI (vouches_appendReplica hat) (fun ok w₁ hmono₁ hI₁ hfirst => ?_)
    split
    · next hok =>
      refine Safe.mono (ih (hmono₁.runsAt hat) hI₁) (fun r w₂ hmono₂ _ hrest hr i m hi => ?_)
      cases i with
      | zero =>
        obtain rfl : message = m := by simpa using hi
        exact hmono₂.holds (hfirst hok)
      | succ i =>
        -- the rest of the batch starts one offset later
        have hheld := hrest hr i m (by simpa using hi)
        rwa [Nat.add_assoc, Nat.add_comm 1 i] at hheld
    · exact Safe.ret (fun _ _ _ hr => absurd hr (by simp))

/-- **Followers.** An ACK to a batch goes out when all of it is appended. -/
theorem vouches_handleReplicationRequest {config : BrokerConfig} {request : Request}
    (hat : w.RunsAt τ n) (hfrom : w.CameFrom conn n request) :
    Vouches cluster τ (fun _ _ => True) (handleReplicationRequest config request conn) w := by
  have hdone : ∀ {w' : World}, Vouches cluster τ (fun _ _ => True) (pure () : Program Unit) w' :=
    Safe.ret (fun _ _ _ => trivial)
  unfold handleReplicationRequest
  refine safe_act (fun _ _ _ => trivial) (fun leader w₁ hmono₁ hI₁ _ _ => ?_)
  split
  · exact hdone
  · split
    · exact hdone
    · -- whichever way the records were appended, the ACK that follows is true
      have hack : ∀ {appended : Bool} {w₂ : World} {ack : Request}, w₁.Mono w₂ →
          (appended = true → request.type = .batchReplicate → w₂.HoldsBatch n request) →
          Vouches cluster τ (fun _ _ => True)
            (if (!appended) = true then pure () else net (.sendAck conn ack)) w₂ := by
        intro appended w₂ ack hmono₂ happended
        split
        · exact hdone
        · next hok =>
          refine safe_last (fun w₃ hmono₃ _ => ?_) (fun _ _ _ _ _ _ => trivial)
          intro hhonest id c hid hc hbatch
          obtain ⟨c', hc', hdest, hrequest⟩ :=
            ((hmono₁.trans hmono₂).trans hmono₃).cameFrom hfrom id hid
          rw [hc, Option.some.injEq] at hc'
          subst hc'
          rw [hrequest] at hbatch ⊢
          rw [hdest]
          exact hmono₃.holdsBatch (happended (by simpa using hok) hbatch)
      dsimp only
      split
      · next htype =>
        refine Safe.bind hI₁ (vouches_appendReplica (hmono₁.runsAt hat)) ?_
        refine fun _ w₂ hmono₂ _ _ => hack hmono₂ (fun _ hbatch => ?_)
        rw [htype] at hbatch
        exact absurd hbatch (by decide)
      · exact Safe.bind hI₁ (vouches_appendReplicas (hmono₁.runsAt hat) hI₁)
          (fun _ w₂ hmono₂ _ hheld => hack hmono₂ (fun hok _ => hheld hok))

end Followers

/-! ### The leader -/

section Leader

variable {cluster : Membership} {τ : Nat} {w : World} {n : Int} {topic : Bytes} {partition : Int}
  {first : Nat} {messages : List Bytes}

/-- The leader knows, as far as messages can be trusted, where a batch is. -/
def BatchVouched (w : World) (n : Int) (request : Request) (id : Int) : Prop :=
  w.Honest → id = n ∨ w.HoldsBatch id request

/-- What a peer has vouched for stays. -/
theorem BatchVouched.mono {w' : World} {request : Request} {id : Int} (h : w.Mono w')
    (hw : BatchVouched w n request id) : BatchVouched w' n request id :=
  fun hhonest => (hw (h.honest hhonest)).imp_right h.holdsBatch

/-- One peer: the count stays, or it grows by one and the peer holds the batch. -/
theorem vouches_batchRound {config : BrokerConfig} {peer : ClusterPeer} {lastOffset : Nat}
    (hfits : (batchRequest topic partition first messages).Fits) :
    Vouches cluster τ (fun _ w' => Counted w w' τ n (makeAckKey topic partition lastOffset)
        (BatchVouched w' n (batchRequest topic partition first messages) peer.brokerId))
      (batchRound config (encodeRequest (batchRequest topic partition first messages)) topic
        partition lastOffset peer) w := by
  have hP : Lenient (batchContract cluster) := batchContract_lenient cluster
  have hparse : parseRequest (encodeRequest (batchRequest topic partition first messages))
      = batchRequest topic partition first messages := parseRequest_encode hfits
  unfold batchRound
  split
  · exact Safe.ret (fun w' hR _ k hk => .inl (hk.of_rel hR))
  · refine safe_act (fun _ _ _ => hP trivial) (fun available w₁ hmono₁ hI₁ _ hacks₁ => ?_)
    split
    · exact Safe.ret (fun w' hR _ k hk => .inl ((hacks₁ rfl n _ k hk).of_rel hR))
    · refine Safe.bind hI₁ (safe_exchangeWithPeer hP (says_batchContract cluster)
        (fun _ _ _ => trivial)) ?_
      intro r w₂ _ _ ⟨hacks₂, hframe⟩
      have hfailed : Vouches cluster τ
          (fun _ w' => Counted w w' τ n (makeAckKey topic partition lastOffset)
          (BatchVouched w' n (batchRequest topic partition first messages) peer.brokerId))
          (node (.markFollowerFailed peer.brokerId)) w₂ :=
        safe_last (fun _ _ _ => hP trivial)
          (fun _ _ _ _ _ hacks₃ k hk =>
            .inl (hacks₃ rfl n _ k (hacks₂ n _ k (hacks₁ rfl n _ k hk))))
      cases r with
      | none => exact hfailed
      | some frame =>
        dsimp only
        split
        · next hack =>
          -- the ACK is from the peer, which has appended the whole batch
          have hvouched : BatchVouched w₂ n (batchRequest topic partition first messages)
              peer.brokerId := by
            intro hhonest
            have hheld := (hframe frame rfl).ack hhonest (by rw [hparse]; rfl) hack.1
            rw [hparse] at hheld
            exact .inr hheld
          intro w₃ hR₃ _ _
          refine ⟨hP trivial, fun c r w₄ hexec => ?_⟩
          refine Safe.ret (fun w₅ hR₅ _ k hk => .inr ⟨?_, ?_⟩)
          · have hbefore := (hacks₂ n _ k (hacks₁ rfl n _ k hk)).of_rel hR₃
            exact (Acks.handleAck hexec hbefore).of_rel hR₅
          · exact hvouched.mono ((hR₃.1.trans (World.exec_mono hexec).1).trans hR₅.1)
        · exact hfailed

/-- **Replication.** When `replicate_batch` returns true, a majority holds the batch one
    record after the other. -/
theorem vouches_replicateBatch {config : BrokerConfig} (hat : w.RunsAt τ n)
    (hconfig : (w.nodes n).config = config) (hmember : config ∈ cluster.brokers)
    (hid : config.brokerId = n) (hfits : (batchRequest topic partition first messages).Fits) :
    Vouches cluster τ (fun r w' => r = true → Majority cluster
        (BatchVouched w' n (batchRequest topic partition first messages)))
      (replicateBatch config topic partition first messages) w := by
  have hP : Lenient (batchContract cluster) := batchContract_lenient cluster
  unfold replicateBatch
  refine safe_act (fun _ _ _ => hP trivial) (fun leader w₁ hmono₁ hI₁ _ _ => ?_)
  split
  · exact Safe.ret (fun _ _ _ hr => absurd hr (by simp))
  split
  · exact Safe.ret (fun _ _ _ hr => absurd hr (by simp))
  have hat₁ := hmono₁.runsAt hat
  refine safe_withLock hP hat₁
    (fun hmono h hr => World.Mono.majority (fun _ => BatchVouched.mono hmono) (h hr)) ?_
  intro w₂ hmono₂ hI₂ hmutex
  refine safe_node (hmono₂.runsAt hat₁) (fun _ _ _ => hP trivial) ?_
  intro c _ w₃ w₄ hR₃ hmono₄ hI₄ _ hstep
  -- from here on the thread knows how many acknowledgements have been counted
  have hacks₄ := acks_openAcks (hR₃.2 n hmutex).1 hstep
  have hmono : w.Mono w₄ := ((hmono₁.trans hmono₂).trans hR₃.1).trans hmono₄
  refine Safe.bind hI₄ (safe_rounds (n := n)
    (fun w id => BatchVouched w n (batchRequest topic partition first messages) id)
    (fun hm h => h.mono hm) (fun peer w₅ _ _ => vouches_batchRound hfits)
    config.peers (.refl w₄) hI₄) ?_
  intro _ w₅ hmono₅ hI₅ hrounds
  obtain ⟨ids, hsub, hids, hacks₅⟩ := hrounds 1 hacks₄
  exact safe_quorum_majority hP (fun hm h => h.mono hm) ((hmono.trans hmono₅).runsAt hat)
    ((((hmono.trans hmono₅).nodes n).config).trans hconfig) hmember (fun _ => .inl hid)
    hsub hids hacks₅

/-- The later records of a batch, each with the offset that its append returned. -/
theorem vouches_appendBatch (hI : BatchInv cluster w) (hat : w.RunsAt τ n) :
    Vouches cluster τ
      (fun offsets w' => w'.BatchRest τ n topic partition expected messages offsets)
      (appendBatch topic partition messages expected) w := by
  induction messages generalizing w expected with
  | nil =>
    refine Safe.ret (fun _ _ _ => ⟨rfl, fun o ho => ?_, fun i o m ho _ => ?_⟩)
    · exact absurd ho (by simp)
    · exact absurd ho (by simp)
  | cons message messages ih =>
    refine safe_node hat (fun _ _ _ => trivial) ?_
    intro c offset w₁ w₂ hR₁ hmono₂ hI₂ happended hstep
    obtain ⟨-, hroom, -, -⟩ := append_step hstep
    have hholds := World.Holds.of_append hstep
    refine Safe.bind hI₂ (ih hI₂ ((hR₁.1.trans hmono₂).runsAt hat)) ?_
    intro offsets w₃ hmono₃ _ hrest
    refine Safe.ret (fun w₄ hR₄ _ => hR₄.1.batchRest ⟨?_, fun o ho => ?_, fun i o m ho hm => ?_⟩)
    · exact congrArg (· + 1) hrest.length
    · rcases List.mem_cons.mp ho with rfl | ho
      · exact Nat.lt_of_succ_lt hroom
      · exact hrest.bounded o ho
    · cases i with
      | zero =>
        obtain rfl : offset = o := by simpa using ho
        obtain rfl : message = m := by simpa using hm
        exact ⟨hmono₃.holds hholds, hmono₃.did happended⟩
      | succ i =>
        have hplaced := hrest.placed i o m (by simpa using ho) (by simpa using hm)
        rwa [Nat.add_assoc, Nat.add_comm 1 i] at hplaced

end Leader

/-! ### Answers -/

section Answers

variable {cluster : Membership} {τ : Nat} {w : World} {n : Int} {request : Request}

/-- A failure that fits the wire promises nothing. -/
theorem vouches_failure (hs : response.success = false) (hfits : response.Fits) :
    Vouches cluster τ (fun r w' => w'.BatchOk cluster request r) (pure response) w := by
  refine Safe.ret (fun _ _ _ _ _ => ⟨hfits, fun h => ?_⟩)
  rw [hs] at h
  exact absurd h (by decide)

/-- A batch means the same after it has been forwarded. -/
theorem batchOk_carried (htype : request.type = .batchProduce)
    (h : w.BatchOk cluster request.carried response) : w.BatchOk cluster request response := by
  have hcarried : request.carried =
      { type := request.type, topic := request.topic, partition := request.partition,
        messages := request.messages } := by
    unfold Request.carried
    rw [htype]
  rw [hcarried] at h
  exact h

/-- **Forwarding.** The leader's answer is passed on and means the same. -/
theorem vouches_forwardToLeader (hfits : request.Fits) (htype : request.type = .batchProduce) :
    Vouches cluster τ (fun r w' => w'.BatchOk cluster request r) (forwardToLeader request) w := by
  have hP : Lenient (batchContract cluster) := batchContract_lenient cluster
  have hfail : ∀ {w : World} (text : String), (ofString text).length ≤ kMaxStringBytes →
      Vouches cluster τ (fun r w' => w'.BatchOk cluster request r)
        (pure (Response.failure text)) w :=
    fun text htext => vouches_failure rfl (Response.failure_fits text htext)
  unfold forwardToLeader
  refine safe_act (fun _ _ _ => hP trivial) (fun endpoint w₁ _ hI₁ _ _ => ?_)
  cases endpoint with
  | none => exact hfail _ (by decide)
  | some leader =>
    refine safe_send (fun _ _ _ => trivial) (fun r w₂ _ hI₂ _ hsent => ?_)
    cases r with
    | unreachable => exact hfail _ (by decide)
    | writeFailed => exact hfail _ (by decide)
    | sent conn =>
      refine Safe.bind hI₂ (safe_receive hP (says_batchContract cluster) (hsent conn rfl)) ?_
      intro frame? w₃ _ _ ⟨_, hframe⟩
      cases frame? with
      | none => exact hfail _ (by decide)
      | some frame =>
        have hresponse := (hframe frame rfl).response
        rw [parseRequest_encode hfits] at hresponse
        exact Safe.ret (fun w₄ hR₄ _ => hR₄.1.batchOk (batchOk_carried htype hresponse))

/-- **BATCH_PRODUCE.** -/
theorem vouches_handleBatchProduce {config : BrokerConfig} (hserves : w.Serves τ n request)
    (hconfig : (w.nodes n).config = config) (hmember : config ∈ cluster.brokers)
    (hid : config.brokerId = n) (hfits : request.Fits) (htype : request.type = .batchProduce) :
    Vouches cluster τ (fun r w' => w'.BatchOk cluster request r)
      (handleBatchProduce config request) w := by
  have hP : Lenient (batchContract cluster) := batchContract_lenient cluster
  have hat := hserves.runsAt
  unfold handleBatchProduce
  split
  · exact vouches_failure rfl (Response.failure_fits _ (by decide))
  next message messages hmessages =>
  refine safe_act (fun _ _ _ => hP trivial) (fun leader w₁ hmono₁ hI₁ _ _ => ?_)
  split
  · exact vouches_forwardToLeader hfits htype
  split
  · exact vouches_failure rfl (Response.failure_fits _ (by decide))
  refine safe_node (hmono₁.runsAt hat) (fun _ _ _ => trivial) ?_
  intro c first w₂ w₃ hR₂ hmono₃ hI₃ _ hstep
  obtain ⟨-, hroom, -, -⟩ := append_step hstep
  -- the first record, and then the rest of the batch behind it
  have hholds := World.Holds.of_append hstep
  have hfirst : first < 2 ^ 64 := Nat.lt_of_succ_lt hroom
  have hto₃ : w.Mono w₃ := (hmono₁.trans hR₂.1).trans hmono₃
  refine Safe.bind hI₃ (vouches_appendBatch hI₃ (hto₃.runsAt hat)) ?_
  intro offsets w₄ hmono₄ hI₄ hrest
  have hbounded : ∀ o ∈ first :: offsets, o < 2 ^ 64 :=
    List.forall_mem_cons.mpr ⟨hfirst, hrest.bounded⟩
  have hlast : offsets.getLastD first < 2 ^ 64 := by
    rcases List.eq_nil_or_concat offsets with rfl | ⟨front, last, rfl⟩
    · exact hfirst
    · rw [List.concat_eq_append, List.getLastD_concat]
      exact hrest.bounded last (by simp)
  -- both failures below name the last offset
  have hfail : ∀ {w : World}, Vouches cluster τ (fun r w' => w'.BatchOk cluster request r)
      (pure ⟨false, ofString "quorum_timeout", offsets.getLastD first, []⟩) w :=
    vouches_failure rfl ⟨(by decide : (ofString "quorum_timeout").length ≤ kMaxStringBytes),
      hlast, Nat.zero_le _, fun o ho => absurd ho (by simp)⟩
  refine Safe.bind hI₄ (vouches_mute (acts_refreshTopic trivial (fun _ => trivial))) ?_
  intro _ w₅ hmono₅ hI₅ _
  have hto₅ : w.Mono w₅ := (hto₃.trans hmono₄).trans hmono₅
  refine Safe.bind hI₅ (vouches_replicateBatch (hto₅.runsAt hat)
    (((hto₅.nodes n).config).trans hconfig) hmember hid (derived_fits hfits hfirst).2.2) ?_
  intro ok w₆ hmono₆ hI₆ hmajority
  split
  · exact hfail
  next hok =>
  have hmajority := hmajority (by simpa using hok)
  refine Safe.bind hI₆ (vouches_mute (mute_exchanges (exchanges_waitForQuorum [] _ _ _))) ?_
  intro reached w₇ hmono₇ hI₇ _
  split
  · exact hfail
  refine Safe.bind hI₇ (vouches_mute (acts_commitBatch (fun _ => trivial)
    (mute_broadcastCommit _ _) _)) (fun _ w₈ hmono₈ _ _ => ?_)
  -- the records are still where they were when the quorum was counted
  refine Safe.ret (fun w₉ hR₉ _ hhonest _ => ⟨?_, fun _ => ⟨τ, n, ?_⟩⟩)
  · refine ⟨Nat.zero_le _, hlast, ?_, hbounded⟩
    rw [List.length_cons, hrest.length, ← List.length_cons, ← hmessages]
    exact hfits.count
  · have hto₉ : w₆.Mono w₉ := (hmono₇.trans hmono₈).trans hR₉.1
    have hlater : w₄.Mono w₉ := (hmono₅.trans hmono₆).trans hto₉
    refine ⟨message, messages, first, offsets, hmessages, rfl,
      ⟨request, ((hto₃.trans hmono₄).trans hlater).serves hserves, htype⟩,
      (hmono₄.trans hlater).holds hholds, hlater.batchRest hrest, ?_⟩
    exact World.Mono.majority (fun _ hid => hid.mono hto₉ hhonest) hmajority

/-- Every request. -/
theorem vouches_processRequest {config : BrokerConfig} (hI : BatchInv cluster w)
    (hserves : w.Serves τ n (parseRequest payload)) (hconfig : (w.nodes n).config = config)
    (hmember : config ∈ cluster.brokers) (hid : config.brokerId = n)
    (hfrom : w.CameFrom conn n (parseRequest payload)) :
    Vouches cluster τ (fun r w' => w'.BatchOk cluster (parseRequest payload) r)
      (processRequest config payload conn) w := by
  by_cases htype : (parseRequest payload).type = .batchProduce
  · have hprocess : processRequest config payload conn
        = handleBatchProduce config (parseRequest payload) := by
      unfold processRequest handleRequest
      dsimp only
      rw [htype]
      rfl
    rw [hprocess]
    exact vouches_handleBatchProduce hserves hconfig hmember hid
      (parseRequest_fits (by rw [htype]; decide)) htype
  · -- the answer to any other request says nothing about a batch
    have hother : Vouches cluster τ (fun _ _ => True) (processRequest config payload conn) w := by
      unfold processRequest
      dsimp only
      split
      · have hreplicate : Vouches cluster τ (fun _ _ => True)
            (do
              handleReplicationRequest config (parseRequest payload) conn
              return (⟨true, [], 0, []⟩ : Response)) w :=
          Safe.bind hI (vouches_handleReplicationRequest hserves.runsAt hfrom)
            (fun _ _ _ _ _ => Safe.ret (fun _ _ _ => trivial))
        unfold handleInterBrokerRequest
        split
        · exact hreplicate
        · exact hreplicate
        · exact vouches_mute (.bind (.perform trivial) (fun _ => .pure _))
        · exact vouches_mute (.bind (.perform trivial) (fun _ => .pure _))
        · exact vouches_mute (.bind (acts_handleCommitRequest trivial) (fun _ => .pure _))
        · exact vouches_mute (.pure _)
      · exact vouches_mute (mute_handleRequest _)
    exact Safe.mono hother (fun _ _ _ _ _ _ h => absurd h htype)

end Answers

/-! ### The whole cluster -/

section Cluster

variable {cluster : Membership} {τ : Nat} {w w' : World}

/-- What a thread that serves a request returns, beyond the contract. -/
def BatchAnswers (cluster : Membership) (τ : Nat) (result : Option Response) (w : World) : Prop :=
  ∀ n request, w.Serves τ n request →
    ∃ response, result = some response ∧ w.BatchOk cluster request response

/-- Whatever the request, the frame that answers it is in order. -/
theorem vouches_serve {n : Int} {config : BrokerConfig} (hI : BatchInv cluster w)
    (hserves : w.Serves τ n (parseRequest payload)) (hconfig : (w.nodes n).config = config)
    (hmember : config ∈ cluster.brokers) (hid : config.brokerId = n)
    (hfrom : w.CameFrom conn n (parseRequest payload)) :
    Vouches cluster τ (BatchAnswers cluster τ) (serve config payload conn) w := by
  refine Safe.bind hI (vouches_processRequest hI hserves hconfig hmember hid hfrom) ?_
  intro response w₁ hmono₁ _ hok
  -- a thread serves one request
  have hanswers : ∀ {w₂ : World}, w₁.Mono w₂ → ∀ n' request', w₂.Serves τ n' request' →
      w₂.BatchOk cluster request' response := by
    intro w₂ hmono₂ n' request' hserves'
    obtain ⟨rfl, rfl⟩ := ((hmono₁.trans hmono₂).serves hserves).unique hserves'
    exact hmono₂.batchOk hok
  refine safe_act (fun w₂ hmono₂ _ => hanswers hmono₂) (fun _ w₂ hmono₂ _ _ _ => ?_)
  refine Safe.ret (fun w₃ hR₃ _ n' request' hserves' => ⟨response, rfl, ?_⟩)
  exact hanswers (hmono₂.trans hR₃.1) n' request' hserves'

/-- A new thread starts within the contract. -/
theorem vouches_start {k : Nat} {e : EnvStep} {program : Program (Option Response)}
    (hI : BatchInv cluster w) (h : clusterMachine.env k e w = some (w', some program)) :
    Vouches cluster k (BatchAnswers cluster k) program w' := by
  obtain ⟨config, hmember, ⟨n, payload, conn, rfl, hserves, hconfig, hid, -, hfrom⟩ |
    ⟨rfl, hnone⟩⟩ := hI.contract.started h
  · exact vouches_serve (hI.env h) hserves hconfig hmember hid hfrom
  · refine Safe.mono (vouches_mute ?_) (fun _ w₁ hmono₁ _ _ n request hserves => ?_)
    · exact .bind (mute_exchanges exchanges_broadcastHeartbeat) (fun _ => .pure _)
    · exact absurd hserves (hnone w₁ hmono₁ n request)

/-- **Soundness of the extension.** -/
theorem batch_sound {G : Guard Act World EnvStep} {setup : Setup} {p : ClusterPool}
    (h : Reachable clusterMachine G setup.pool p) :
    BatchInv setup.cluster p.world ∧ AllSafe clusterRely
      ((contract setup.cluster).extend (batchContract setup.cluster))
      (fun τ r w => Answers setup.cluster τ r w ∧ BatchAnswers setup.cluster τ r w) p := by
  have hstart : BatchInv setup.cluster setup.pool.world :=
    ⟨setup.inv, fun id c hc => absurd hc (by simp [Setup.pool])⟩
  have hsound := ((contract setup.cluster).extend (batchContract setup.cluster)).invariant
    (J := fun _ => True) clusterRely
    (fun hI _ henv => Safe.extend (fun _ (hI : BatchInv setup.cluster _) => hI.contract)
      (honours_start hI.contract henv) (vouches_start hI henv))
    ⟨fun _ => trivial, fun _ => trivial⟩ (fun _ _ _ _ _ => trivial) (fun _ _ _ _ => trivial)
    hstart (fun τ program hprog => absurd hprog (by simp [Setup.pool])) trivial h
  exact ⟨hsound.1, hsound.2.1⟩

/-- Whatever a handler has returned is true of batches. -/
theorem batchOk_of_returned {G : Guard Act World EnvStep} {setup : Setup} {p : ClusterPool}
    (h : Reachable clusterMachine G setup.pool p) {n : Int} {request : Request}
    (hserves : p.world.Serves τ n request) (hreturned : Returned p τ response) :
    p.world.BatchOk setup.cluster request response := by
  obtain ⟨hI, hS⟩ := batch_sound h
  rcases hreturned with ⟨conn, k, hprog⟩ | hprog
  · exact (hS τ _ hprog p.world (clusterRely.refl τ _) hI trivial).1.2 n request hserves
  · obtain ⟨response', heq, hok⟩ := (hS.result hI hprog).2 n request hserves
    rw [Option.some.inj heq]
    exact hok

end Cluster

/-! ### Undisturbed batches -/

/-- Runs with inter-broker requests from brokers only, in which nobody comes in between the
    appends of a batch, on any broker. -/
def undisturbedTraffic : Guard Act World EnvStep where
  act w τ a := ∀ n, (undisturbedBatches n).act w τ a
  env := brokerTraffic.env

/-- Undisturbed traffic is traffic of brokers and clients. -/
theorem undisturbedTraffic_refines : undisturbedTraffic.Refines brokerTraffic :=
  ⟨fun _ => trivial, fun h => h⟩

/-- Where a batch is contiguous, the followers that hold it have every record at the offset
    that the leader's append returned. -/
theorem BatchBacked.majority {cluster : Membership} {τ : Nat} {w : World} {n : Int}
    {request : Request} {g : Nat → Option BatchWatch} (hplace : InPlace n w g)
    (hbounded : ∀ o ∈ offsets, o < 2 ^ 64) (h : w.BatchBacked cluster τ n request offsets) :
    offsets.length = request.messages.length ∧
      Majority cluster (fun id => ∀ (i o : Nat) (m : Bytes), offsets[i]? = some o →
        request.messages[i]? = some m → w.Holds id request.topic request.partition o m) := by
  obtain ⟨message, messages, first, rest, hmessages, rfl, ⟨served, hserves, htype⟩, hfirst,
    hrest, hmajority⟩ := h
  obtain ⟨b, hb, -⟩ := hplace.watched τ served hserves htype
  -- the offset of every record is the one at which the followers put it
  have hoffset : ∀ (i o : Nat) (m : Bytes), (first :: rest)[i]? = some o →
      request.messages[i]? = some m →
      o = (first + i) % 2 ^ 64 ∧ w.Holds n request.topic request.partition o m := by
    intro i o m ho hm
    have hlt := hbounded o (List.mem_of_getElem? ho)
    rw [hmessages] at hm
    cases i with
    | zero =>
      obtain rfl : first = o := by simpa using ho
      obtain rfl : message = m := by simpa using hm
      exact ⟨(Nat.mod_eq_of_lt hlt).symm, hfirst⟩
    | succ i =>
      obtain ⟨hholds, hdid⟩ := hrest.placed i o m (by simpa using ho) (by simpa using hm)
      have hexpected := hplace.expected τ b _ _ _ _ _ hb hserves.runsAt hdid
      refine ⟨?_, hholds⟩
      rw [← Nat.add_comm 1 i, ← Nat.add_assoc, ← hexpected, Nat.mod_eq_of_lt hlt]
  refine ⟨by rw [hmessages, List.length_cons, List.length_cons, hrest.length], ?_⟩
  refine World.Mono.majority (fun id hid i o m ho hm => ?_) hmajority
  obtain ⟨heq, hholds⟩ := hoffset i o m ho hm
  rcases hid with rfl | hbatch
  · exact hholds
  · rw [heq]
    exact hbatch i m hm

/-- **Acknowledged batches are on a majority.**  Where nobody comes in between the appends
    of a batch, a BATCH_PRODUCE that has been answered with success has as many offsets as
    messages, and a majority of the brokers holds every message at its offset. -/
theorem batch_on_majority {setup : Setup} {p : ClusterPool}
    (h : Reachable clusterMachine (inScope undisturbedTraffic) setup.pool p) {τ : Nat} {n : Int}
    {request : Request} {response : Response} (hserves : p.world.Serves τ n request)
    (htype : request.type = .batchProduce) (hreturned : Returned p τ response)
    (hs : response.success = true) :
    response.appendedOffsets.length = request.messages.length ∧
      Majority setup.cluster (fun id => ∀ (i o : Nat) (m : Bytes),
        response.appendedOffsets[i]? = some o → request.messages[i]? = some m →
        p.world.Holds id request.topic request.partition o m) := by
  have h := h.of_within
  have hhonest := honest_of_reachable undisturbedTraffic_refines h
  obtain ⟨hfits, hbacked⟩ := batchOk_of_returned h hserves hreturned hhonest htype
  -- the broker that has appended the batch need not be the one that was asked
  obtain ⟨leader, n', hbacked⟩ := hbacked hs
  obtain ⟨g, hg⟩ := inPlace_of_reachable (G := undisturbedTraffic) (fun hact => hact n') h
  exact BatchBacked.majority hg hfits.appendedOffsets hbacked

/-- The check for `undisturbedTraffic`. -/
def undisturbedTraffic? (p : ClusterPool) : Label Choice EnvStep → Bool
  | .run τ c => (p.world.tasks[τ]?).any (fun task => undisturbedBatches? task.node p (.run τ c))
  | .env e => clientTraffic p (.env e)

/-- The check decides it. -/
theorem undisturbedTraffic_allows (p : ClusterPool) (l : Label Choice EnvStep)
    (h : undisturbedTraffic? p l = true) : undisturbedTraffic.Allows p l := by
  cases l with
  | run τ c =>
    obtain ⟨task, htask, hcheck⟩ := (Option.any_eq_true _ _).mp h
    intro a k hprog n topic partition message expected ha hat
    -- a thread runs on one broker
    obtain rfl := RunsAt.unique ⟨task, htask, rfl⟩ hat
    exact undisturbedBatches_allows _ p _ hcheck a k hprog topic partition message expected ha hat
  | env e => exact clientTraffic_allows p (.env e) h

/-- A batch of two records on two brokers. -/
theorem batch_on_majority_two : ∃ p,
    Reachable clusterMachine (inScope undisturbedTraffic) twoBrokers.pool p ∧
      Returned p 0 ⟨true, [], 1, [0, 1]⟩ ∧
      Majority twoBrokers.cluster (fun id => p.world.Holds id (ofString "t") 0 0 [66] ∧
        p.world.Holds id (ofString "t") 0 1 [67]) := by
  obtain ⟨p, hreach, htask, hfinished⟩ := clusterMachine.exists_reachable
    (inScope_allows undisturbedTraffic_allows)
    (fun p => p.world.tasks[0]? = some ⟨1, .client batchOfTwo⟩ ∧
      finished p 0 = some ⟨true, [], 1, [0, 1]⟩)
    twoBrokers.pool
    ([.env (.client 1 batchOfTwo)] ++ go 0 10 ++ [.env (.accept 0)] ++ go 1 5 ++ go 0 21)
    (by decide +kernel)
  have hreturned := returned_of_finished hfinished
  obtain ⟨-, hmajority⟩ := batch_on_majority hreach (serves_batchOfTwo htask) rfl hreturned rfl
  exact ⟨p, hreach, hreturned, World.Mono.majority
    (fun id hid => ⟨hid 0 0 [66] rfl rfl, hid 1 1 [67] rfl rfl⟩) hmajority⟩

/-- Two batches and a produce whose appends take turns.  The batch of `B` and `C` gets the
    offsets 0 and 3 and the batch of `X` and `Y` the offsets 2 and 4, while the follower has
    `B`, `C`, `X`, `Y` at 0 to 3.  It acknowledges offsets 1 and 3, and the second
    acknowledgement, which is for `Y`, lets the first batch succeed: no majority holds `C`
    at offset 3. -/
theorem batch_not_on_majority : ∃ p,
    Reachable clusterMachine (inScope brokerTraffic) twoBrokers.pool p ∧
      p.world.Serves 0 1
        { type := .batchProduce, topic := ofString "t", messages := [[66], [67]] } ∧
      Returned p 0 ⟨true, [], 3, [0, 3]⟩ ∧
      ¬ Majority twoBrokers.cluster (fun id => p.world.Holds id (ofString "t") 0 3 [67]) := by
  obtain ⟨p, hreach, htask, hfinished, hcontents⟩ := clusterMachine.exists_reachable
    (inScope_allows clientTraffic_allows)
    (fun p => p.world.tasks[0]? = some ⟨1, .client batchOfTwo⟩ ∧
      finished p 0 = some ⟨true, [], 3, [0, 3]⟩ ∧
      (p.world.nodes 2).contents (makeKey (ofString "t") 0) = [[66], [67], [88], [89]])
    twoBrokers.pool
    ([.env (.client 1 batchOfTwo)] ++ go 0 2 ++ [.env (.client 1 (produceOf [65]))] ++ go 1 2 ++
      [.env (.client 1 (encodeRequest
        { type := .batchProduce, topic := ofString "t", messages := [[88], [89]] }))] ++
      go 2 2 ++ go 0 1 ++ go 2 1 ++ go 0 7 ++ [.env (.accept 0)] ++ go 3 5 ++ go 0 4 ++ go 2 7 ++
      [.env (.accept 1)] ++ go 4 5 ++ go 2 4 ++ go 0 17)
    (by decide +kernel)
  refine ⟨p, hreach, serves_batchOfTwo htask, returned_of_finished hfinished, ?_⟩
  rintro ⟨ids, hnodup, hids, hlength⟩
  -- broker 2 has another record there, so broker 1 is alone
  have honly : ids ⊆ [1] := by
    intro id hid
    obtain ⟨hmember, hholds⟩ := hids id hid
    have hmember : id ∈ [1, 2] := hmember
    rcases List.mem_cons.mp hmember with rfl | hmember
    · exact List.mem_cons_self
    · obtain rfl := List.mem_singleton.mp hmember
      unfold World.Holds at hholds
      rw [hcontents] at hholds
      exact absurd hholds (by decide)
  have hle := (List.subperm_of_subset hnodup honly).length_le
  have htwo : twoBrokers.cluster.brokers.length = 2 := rfl
  rw [htwo] at hlength
  rw [List.length_singleton] at hle
  omega

end StreamingPlatform
