import StreamingPlatform.Cluster.Replicating

namespace StreamingPlatform

open ByteString Interleave World

/-!
# Cluster — the handlers honour the contract

Every handler of `Broker/Handlers` meets what the contract asks of it, and its answer is
true in the sense of `World.Served`.  The result is `cluster_sound`: in every state that a
cluster can reach, the invariant holds and every thread honours the contract.
-/

variable {config : BrokerConfig} {w' : World}

section Serving

variable {cluster : Membership} {τ : Nat} {w : World} {n : Int} {request : Request}

/-! ### Failures and forwarding -/

variable {response : Response} {topic payload : Bytes} {partition : Int}
  {first start offset expected : Nat} {messages : List Bytes} {offsets : List Nat}

/-- A failure that fits the wire promises nothing. -/
theorem responseOk_failure (hs : response.success = false) (hfits : response.Fits) :
    w.ResponseOk cluster request response :=
  fun _ _ => ⟨hfits, fun h => absurd h (by rw [hs]; decide)⟩

/-- A failure promises nothing. -/
theorem served_failure (htype : request.type ≠ .fetch) (hs : response.success = false)
    (hfits : response.Fits) : w.Served cluster τ n request response :=
  ⟨responseOk_failure hs hfits, fun h => absurd h htype, fun h => absurd h (by rw [hs]; decide)⟩

/-- Hence it may always be answered. -/
theorem honours_failure (htype : request.type ≠ .fetch) (hs : response.success = false)
    (hfits : response.Fits) :
    Honours cluster τ (fun r w' => w'.Served cluster τ n request r) (pure response) w :=
  Honours.ret (fun _ _ _ => served_failure htype hs hfits)

/-- The requests whose answer says something about logs or cursors. -/
def RequestType.promises : RequestType → Bool
  | .produce | .batchProduce | .fetch | .groupFetch => true
  | _ => false

/-- An answer to any other request promises nothing. -/
theorem served_of_not_promises (h : request.type.promises = false) :
    w.Served cluster τ n request response := by
  refine ⟨fun _ htype => ?_, fun htype => ?_, fun _ => ?_⟩
  · rw [htype] at h
    exact absurd h (by decide)
  · rw [htype] at h
    exact absurd h (by decide)
  · split <;> first | trivial | simp_all [RequestType.promises]

/-- The encoding keeps the type. -/
theorem carried_type (request : Request) : request.carried.type = request.type := by
  unfold Request.carried
  split <;> rfl

/-- What is not an inter-broker request says nothing. -/
theorem payloadOk_of_client (h : (parseRequest payload).type.isInterBroker = false) :
    w.PayloadOk payload := by
  intro _
  dsimp only
  split <;> first | trivial | simp_all [RequestType.isInterBroker]

/-- A client's request may be forwarded. -/
theorem payloadOk_forward (hfits : request.Fits) (hclient : request.type.isInterBroker = false) :
    w.PayloadOk (encodeRequest request) := by
  apply payloadOk_of_client
  rw [parseRequest_encode hfits, carried_type]
  exact hclient

/-- **Forwarding.** The leader's answer to a produce is passed on and means the same. -/
theorem honours_forwardToLeader (hfits : request.Fits)
    (hclient : request.type.isInterBroker = false) :
    Honours cluster τ (fun r w' => w'.ResponseOk cluster request r)
      (forwardToLeader request) w := by
  have hfail : ∀ {w : World} (text : String), (ofString text).length ≤ kMaxStringBytes →
      Honours cluster τ (fun r w' => w'.ResponseOk cluster request r)
        (pure (Response.failure text)) w := by
    intro w text htext
    exact Honours.ret (fun w' _ _ => responseOk_failure rfl (Response.failure_fits text htext))
  unfold forwardToLeader
  refine Honours.act (fun _ _ _ => trivial) (fun endpoint w₁ _ hI₁ _ _ => ?_)
  cases endpoint with
  | none => exact hfail _ (by decide)
  | some leader =>
    refine Honours.send (payloadOk_forward hfits hclient) (fun r w₂ _ hI₂ _ hsent => ?_)
    cases r with
    | unreachable => exact hfail _ (by decide)
    | writeFailed => exact hfail _ (by decide)
    | sent conn =>
      refine Safe.bind hI₂ (honours_receive (hsent conn rfl)) ?_
      intro frame? w₃ _ _ ⟨_, hframe⟩
      cases frame? with
      | none => exact hfail _ (by decide)
      | some frame =>
        refine Honours.ret (fun w₄ hR₄ _ hhonest htype => ?_)
        have hhonest₃ := hR₄.1.honest hhonest
        have hparse : parseRequest (encodeRequest request) = request.carried :=
          parseRequest_encode hfits
        have hcarried : request.carried.type = .produce := (carried_type request).trans htype
        -- on this connection there is no ACK
        rcases hframe frame rfl hhonest₃ with ⟨ack, -, -, -, hkind, -⟩ | ⟨response, rfl, hresponse⟩
        · rw [hparse, hcarried] at hkind
          exact absurd hkind (by decide)
        · rw [hparse] at hresponse
          obtain ⟨hrfits, hmajority⟩ := hresponse hhonest₃ hcarried
          rw [parseResponse_serialize hrfits]
          refine ⟨hrfits, fun hs => ?_⟩
          obtain ⟨τ', n', hbacks⟩ := hmajority hs
          refine ⟨τ', n', World.Mono.majority (fun id hid => hR₄.1.backs ?_) hbacks⟩
          have hfields : request.carried.topic = request.topic ∧
              request.carried.partition = request.partition ∧
              request.carried.message = request.message := by
            unfold Request.carried
            rw [htype]
            exact ⟨rfl, rfl, rfl⟩
          rwa [hfields.1, hfields.2.1, hfields.2.2] at hid

/-- A response to anything but a PRODUCE tells whoever forwarded it nothing. -/
theorem responseOk_of_ne_produce (h : request.type ≠ .produce) :
    w.ResponseOk cluster request response := fun _ htype => absurd htype h

/-- A broker that does not take itself for the leader forwards the request and is done. -/
theorem honours_forwarded (hfits : request.Fits) (hclient : request.type.isInterBroker = false)
    (htype : request.type ≠ .fetch) (hleader : w.Did τ (.node .isLeader) false) :
    Honours cluster τ (fun r w' => w'.Served cluster τ n request r)
      (forwardToLeader request) w := by
  refine Safe.mono (honours_forwardToLeader hfits hclient) (fun r w' hmono _ hresponse => ?_)
  refine ⟨hresponse, fun h => absurd h htype, fun _ => ?_⟩
  split
  · exact .inl (hmono.did hleader)
  · exact .inl (hmono.did hleader)
  · exact .inl (hmono.did hleader)
  · trivial

/-- The handlers begin by asking for the role; who is not the leader forwards the request. -/
theorem honours_onLeader {handle : Program Response} (hfits : request.Fits)
    (hclient : request.type.isInterBroker = false) (htype : request.type ≠ .fetch)
    (h : ∀ w₁, w.Mono w₁ → Inv cluster w₁ → w₁.Did τ (.node .isLeader) true →
      Honours cluster τ (fun r w' => w'.Served cluster τ n request r) handle w₁) :
    Honours cluster τ (fun r w' => w'.Served cluster τ n request r)
      (StreamingPlatform.node .isLeader >>= fun leader =>
        if (!leader) = true then forwardToLeader request else handle) w := by
  refine Honours.act (fun _ _ _ => trivial) (fun leader w₁ hmono₁ hI₁ hleader _ => ?_)
  cases leader with
  | false => exact honours_forwarded hfits hclient htype hleader
  | true => exact h w₁ hmono₁ hI₁ hleader

/-! ### Fetching -/

/-- FETCH answers with a record that is committed, or with a failure. -/
theorem honours_handleFetch (hat : w.RunsAt τ n) :
    Honours cluster τ (fun r w' => w'.FetchOk τ n request r) (handleFetch request) w := by
  unfold handleFetch
  split
  · next htopic => exact Honours.ret (fun _ _ _ => .inr ⟨rfl, .inl htopic⟩)
  split
  · next hp => exact Honours.ret (fun _ _ _ => .inr ⟨rfl, .inr (.inl hp)⟩)
  refine Honours.act (fun _ _ _ => trivial) (fun committed w₁ hmono₁ _ hcommitted _ => ?_)
  split
  · next hnot =>
    obtain rfl : committed = false := by simpa using hnot
    exact Honours.ret (fun w₂ hR₂ _ => .inr ⟨rfl, .inr (.inr (.inl (hR₂.1.did hcommitted)))⟩)
  refine Honours.node (hmono₁.runsAt hat) (fun _ _ _ => trivial) ?_
  intro c fetched w₂ w₃ _ hmono₃ _ hdid hstep
  -- whatever the log has returned that is no record to return
  have hnone : (∀ message, fetched = .ok message → message = []) →
      Honours cluster τ (fun r w' => w'.FetchOk τ n request r)
        (pure (.failure "offset_not_found")) w₃ := fun h =>
    Honours.ret (fun w₄ hR₄ _ =>
      .inr ⟨rfl, .inr (.inr (.inr ⟨fetched, hR₄.1.did hdid, h⟩))⟩)
  cases fetched with
  | error e => exact hnone (fun message h => absurd h (by simp))
  | ok message =>
    dsimp only
    split
    · next hempty => exact hnone (fun m h => (Except.ok.inj h) ▸ hempty)
    · next hne =>
      refine Honours.ret (fun w₄ hR₄ _ => .inl ⟨message, hne, rfl, hR₄.1.did hdid, ?_⟩)
      refine hR₄.1.holds (hmono₃.holds ?_)
      exact StorageEngine.getElem?_of_fetch (Prod.mk.inj (Option.some.inj hstep)).1

/-- GROUP_FETCH does so at the group's cursor. -/
theorem honours_handleGroupFetch (hat : w.RunsAt τ n) (hfits : request.Fits)
    (htype : request.type = .groupFetch) :
    Honours cluster τ (fun r w' => w'.Served cluster τ n request r)
      (handleGroupFetch request) w := by
  have hnofetch : request.type ≠ .fetch := by rw [htype]; decide
  unfold handleGroupFetch
  refine honours_onLeader hfits (by rw [htype]; rfl) hnofetch (fun w₁ hmono₁ hI₁ _ => ?_)
  split
  · exact honours_failure hnofetch rfl (Response.failure_fits _ (by decide))
  refine Honours.act (fun _ _ _ => trivial) (fun assigned w₂ hmono₂ hI₂ _ _ => ?_)
  split
  · exact honours_failure hnofetch rfl (Response.failure_fits _ (by decide))
  refine Honours.act (fun _ _ _ => trivial) (fun offset w₃ hmono₃ hI₃ hnext _ => ?_)
  refine Safe.mono (honours_handleFetch (((hmono₁.trans hmono₂).trans hmono₃).runsAt hat)) ?_
  intro r w₄ hmono₄ _ hfetch
  -- `handle_fetch` was called for the group's cursor
  refine ⟨responseOk_of_ne_produce (by rw [htype]; decide), fun h => absurd h hnofetch,
    fun hs => ?_⟩
  simp only [htype]
  rcases hfetch with ⟨message, -, rfl, -, hholds⟩ | ⟨hfailed, -⟩
  · exact .inr ⟨hholds, hmono₄.did hnext⟩
  · rw [hfailed] at hs
    exact absurd hs (by decide)

/-! ### Group membership and metadata -/

theorem plain_forwardToLeader :
    (forwardToLeader request).AllActs (Act.Plain (encodeRequest request)) :=
  (exchanges_forwardToLeader request).mono (fun _ h => h.plain)

/-- Only members of named topics are let in. -/
theorem plain_handleJoinGroup :
    (handleJoinGroup request).AllActs (Act.Plain (encodeRequest request)) :=
  (onLeader_handleJoinGroup trivial (fun htopic _ => htopic)).acts trivial plain_forwardToLeader

theorem plain_handleLeaveGroup :
    (handleLeaveGroup request).AllActs (Act.Plain (encodeRequest request)) :=
  (onLeader_handleLeaveGroup trivial (fun _ => trivial)).acts trivial plain_forwardToLeader

/-- A handler that owes nothing but what it forwards, for a request whose answer promises
    nothing. -/
theorem honours_plainHandler {handler : Program Response} (hfits : request.Fits)
    (hplain : handler.AllActs (Act.Plain (encodeRequest request)))
    (hclient : request.type.isInterBroker = false) (hpromises : request.type.promises = false) :
    Honours cluster τ (fun r w' => w'.Served cluster τ n request r) handler w :=
  Safe.mono (honours_plain hplain (payloadOk_forward hfits hclient))
    (fun _ _ _ _ _ => served_of_not_promises hpromises)

/-- COMMIT_OFFSET moves the cursor of its group. -/
theorem honours_handleCommitOffset (hserves : w.Serves τ n request) (hfits : request.Fits)
    (htype : request.type = .commitOffset) :
    Honours cluster τ (fun r w' => w'.Served cluster τ n request r)
      (handleCommitOffset request) w := by
  have hserved : ∀ {w : World} {r : Response}, w.Served cluster τ n request r :=
    served_of_not_promises (by rw [htype]; rfl)
  have hdone : ∀ {w : World} {r : Response}, Honours cluster τ
      (fun r w' => w'.Served cluster τ n request r) (pure r) w :=
    Honours.ret (fun _ _ _ => hserved)
  unfold handleCommitOffset
  refine Honours.act (fun _ _ _ => trivial) (fun leader w₁ hmono₁ hI₁ _ _ => ?_)
  split
  · refine Safe.mono (honours_forwardToLeader hfits (by rw [htype]; rfl)) ?_
    exact fun _ _ _ _ _ => hserved
  · split
    · exact hdone
    · refine Honours.act (fun w' hmono _ => ?_) (fun committed w₂ _ _ _ _ => ?_)
      · exact ⟨n, request, (hmono₁.trans hmono).serves hserves, htype, rfl, rfl, rfl, rfl⟩
      · split <;> exact hdone

/-! ### Producing -/

theorem payloadOk_nil : w.PayloadOk [] := payloadOk_of_client rfl

/-- A refresh needs no argument. -/
theorem honours_refreshTopic (topic : Bytes) :
    Honours cluster τ (fun _ _ => True) (refreshTopic topic) w :=
  honours_plain (acts_refreshTopic trivial (fun _ => trivial)) payloadOk_nil

/-- Waiting for a quorum ends with having seen one, or with `false`. -/
theorem honours_waitForQuorum :
    Honours cluster τ (fun r w' => r = true →
        w'.Did τ (.node (.quorumReached topic partition offset)) true)
      (waitForQuorum topic partition offset) w := by
  have hpoll : ∀ (rounds : Nat) (w : World), Honours cluster τ (fun r w' => r = true →
      w'.Did τ (.node (.quorumReached topic partition offset)) true)
      (pollQuorum topic partition offset rounds) w := by
    intro rounds
    induction rounds with
    | zero =>
      refine fun w => Honours.last (fun _ _ _ => trivial) (fun r w' _ _ hdid _ hr => ?_)
      exact hr ▸ hdid
    | succ rounds ih =>
      refine fun w => Honours.act (fun _ _ _ => trivial) (fun r w₁ _ _ hdid _ => ?_)
      split
      · next hr => exact Honours.ret (fun w₂ hR₂ _ _ => hR₂.1.did (hr ▸ hdid))
      · exact ih w₁
  exact Honours.act (fun _ _ _ => trivial) (fun rounds w₁ _ _ _ _ => hpoll rounds w₁)

/-- Committing an offset that a quorum has acknowledged. -/
theorem Honours.markCommitted {α : Type} {Q : α → World → Prop} {f : Unit → Program α}
    (hat : w.RunsAt τ n) (hp : 0 ≤ partition) (hquorate : w.Quorate topic partition offset)
    (h : ∀ w', w.Mono w' → Inv cluster w' → w'.Committed n topic partition offset →
      Honours cluster τ Q (f ()) w') :
    Honours cluster τ Q
      (StreamingPlatform.node (.markCommitted topic partition offset) >>= f) w := by
  refine Honours.node hat (fun w' hmono _ => ⟨hp, fun _ => hmono.quorate hquorate⟩) ?_
  intro c _ w₁ w₂ hR hmono hI₂ _ hstep
  refine h w₂ (hR.1.trans hmono) hI₂ ?_
  obtain ⟨-, heq⟩ := Node.locked_eq_some hstep
  unfold World.Committed
  rw [(Prod.mk.inj heq).2]
  dsimp only
  rw [ReplicationManager.commitIndexByLog_markCommitted, if_pos rfl]
  exact ⟨_, le_max_right _ _, rfl⟩

/-- What has its quorum may be announced. -/
theorem honours_broadcastCommit (hfits : (commitRequest topic partition offset).Fits)
    (hquorate : w.Quorate topic partition offset) :
    Honours cluster τ (fun _ _ => True) (broadcastCommit config topic partition offset) w := by
  refine honours_exchanges (exchanges_broadcastCommit topic partition offset) ?_
  intro _
  rw [parseRequest_encode hfits]
  exact hquorate

/-- The requests that a leader derives from a produce fit the wire like it. -/
theorem derived_fits (hfits : request.Fits) (hoffset : offset < 2 ^ 64) :
    (replicationRequest request.topic request.partition offset request.message).Fits ∧
      (commitRequest request.topic request.partition offset).Fits ∧
      (batchRequest request.topic request.partition offset request.messages).Fits := by
  have hzero : IsInt32 0 := by unfold IsInt32; omega
  have hempty : ∀ m ∈ ([] : List Bytes), m.length ≤ kMaxStringBytes :=
    fun m hm => absurd hm (by simp)
  refine ⟨?_, ?_, ?_⟩
  · exact
      { topic := hfits.topic, partition := hfits.partition, message := hfits.message,
        fetchOffset := hoffset, brokerId := hzero, groupId := Nat.zero_le _,
        memberId := Nat.zero_le _, count := Nat.zero_le _, messages := hempty,
        type := (by decide : RequestType.replicate ≠ .error) }
  · exact
      { topic := hfits.topic, partition := hfits.partition, message := Nat.zero_le _,
        fetchOffset := hoffset, brokerId := hzero, groupId := Nat.zero_le _,
        memberId := Nat.zero_le _, count := Nat.zero_le _, messages := hempty,
        type := (by decide : RequestType.commit ≠ .error) }
  · exact
      { topic := hfits.topic, partition := hfits.partition, message := Nat.zero_le _,
        fetchOffset := hoffset, brokerId := hzero, groupId := Nat.zero_le _,
        memberId := Nat.zero_le _, count := hfits.count, messages := hfits.messages,
        type := (by decide : RequestType.batchReplicate ≠ .error) }

/-- **PRODUCE.** -/
theorem honours_handleProduce (hserves : w.Serves τ n request)
    (hconfig : (w.nodes n).config = config) (hmember : config ∈ cluster.brokers)
    (hid : config.brokerId = n) (hfits : request.Fits) (htype : request.type = .produce) :
    Honours cluster τ (fun r w' => w'.Served cluster τ n request r)
      (handleProduce config request) w := by
  have hat := hserves.runsAt
  have hnofetch : request.type ≠ .fetch := by rw [htype]; decide
  unfold handleProduce
  refine honours_onLeader hfits (by rw [htype]; rfl) hnofetch (fun w₁ hmono₁ hI₁ hleader => ?_)
  split
  · exact honours_failure hnofetch rfl (Response.failure_fits _ (by decide))
  next htopic =>
  split
  · exact honours_failure hnofetch rfl (Response.failure_fits _ (by decide))
  next hp =>
  split
  · exact honours_failure hnofetch rfl (Response.failure_fits _ (by decide))
  refine Honours.node (hmono₁.runsAt hat) (fun w' hmono _ => hmono.did hleader) ?_
  intro c offset w₂ w₃ hR₂ hmono₃ hI₃ happended hstep
  obtain ⟨-, hroom, -, hopened⟩ := append_step hstep
  have hholds := World.Holds.of_append hstep
  have hto₃ : w.Mono w₃ := (hmono₁.trans hR₂.1).trans hmono₃
  have hsourced : w₃.Sourced request.topic request.partition offset request.message :=
    ⟨τ, (hR₂.1.trans hmono₃).did hleader, .inl happended⟩
  have hoffset : offset < 2 ^ 64 := Nat.lt_of_succ_lt hroom
  obtain ⟨hrep, hcom, -⟩ := derived_fits hfits hoffset
  have hfail : ∀ {w : World} (text : String), (ofString text).length ≤ kMaxStringBytes →
      Honours cluster τ (fun r w' => w'.Served cluster τ n request r)
        (pure ⟨false, ofString text, offset, []⟩) w := by
    intro w text htext
    exact honours_failure hnofetch rfl
      ⟨htext, hoffset, Nat.zero_le _, fun o ho => absurd ho (by simp)⟩
  refine Safe.bind hI₃ (honours_refreshTopic request.topic) (fun _ w₄ hmono₄ hI₄ _ => ?_)
  -- the heart of the call: a majority for the record, or `replication_failed`
  refine Safe.bind hI₄ (honours_replicateMessage ((hto₃.trans hmono₄).runsAt hat)
    ((((hto₃.trans hmono₄).nodes n).config).trans hconfig) hmember hid hrep
    (hmono₄.sourced hsourced) (hmono₄.holds hholds)) (fun ok w₅ hmono₅ hI₅ hmajority => ?_)
  split
  · exact hfail _ (by decide)
  next hok =>
  have hmajority := hmajority (by simpa using hok)
  refine Safe.bind hI₅ honours_waitForQuorum (fun reached w₆ hmono₆ hI₆ hquorum => ?_)
  split
  · exact hfail _ (by decide)
  next hreached =>
  have hto₆ : w₃.Mono w₆ := (hmono₄.trans hmono₅).trans hmono₆
  -- from here on the offset counts as committed
  have hquorate : w₆.Quorate request.topic request.partition offset :=
    ⟨τ, offset, request.message, .client, le_rfl,
      ⟨n, request, (hto₃.trans hto₆).serves hserves, .inl htype, rfl, rfl⟩,
      hto₆.did happended, hquorum (by simpa using hreached)⟩
  refine Honours.markCommitted ((hto₃.trans hto₆).runsAt hat) (by omega) hquorate ?_
  intro w₇ hmono₇ hI₇ hcommitted
  refine Safe.bind hI₇ (honours_broadcastCommit hcom (hmono₇.quorate hquorate)) ?_
  intro _ w₈ hmono₈ _ _
  refine Honours.ret (fun w₉ hR₉ _ => ⟨fun hhonest _ => ⟨?_, fun _ => ?_⟩,
    fun h => absurd h hnofetch, fun _ => ?_⟩)
  · exact ⟨Nat.zero_le _, hoffset, Nat.zero_le _, fun o ho => absurd ho (by simp)⟩
  · have hlater : w₅.Mono w₉ := (hmono₆.trans hmono₇).trans (hmono₈.trans hR₉.1)
    exact ⟨τ, n, World.Mono.majority (fun _ hvouched => hlater.vouched hvouched hhonest) hmajority⟩
  · have hlater : w₃.Mono w₉ := (hto₆.trans hmono₇).trans (hmono₈.trans hR₉.1)
    simp only [htype]
    exact .inr ⟨htopic, by omega, hlater.holds hholds, (hlater.nodes n).opened _ hopened,
      (hmono₈.trans hR₉.1).committed hcommitted⟩

/-! ### Batches -/

/-- What is known when the later records of a batch have been appended: they are at the
    offsets returned, which increase, though not always by one. -/
structure BatchAppended (w : World) (τ : Nat) (n : Int) (topic : Bytes) (partition : Int)
    (start expected : Nat) (messages : List Bytes) (offsets : List Nat) : Prop where
  held : List.Forall₂ (w.Holds n topic partition) offsets messages
  later : ∀ o ∈ offsets, start ≤ o ∧ o < 2 ^ 64 ∧
    ∃ m e, w.Did τ (.node (.append topic partition m (.batch e))) o
  ordered : offsets.Pairwise (· < ·)
  sourced : ∀ (i : Nat) (m : Bytes), messages[i]? = some m →
    ∃ actual, w.Did τ (.node (.append topic partition m (.batch (expected + i)))) actual

/-- Appended records stay. -/
theorem BatchAppended.mono (hmono : w.Mono w')
    (h : BatchAppended w τ n topic partition start expected messages offsets) :
    BatchAppended w' τ n topic partition start expected messages offsets := by
  refine ⟨h.held.imp (fun _ _ hh => hmono.holds hh), fun o ho => ?_, h.ordered, fun i m hi => ?_⟩
  · obtain ⟨hstart, hlt, m, e, hdid⟩ := h.later o ho
    exact ⟨hstart, hlt, m, e, hmono.did hdid⟩
  · obtain ⟨actual, hdid⟩ := h.sourced i m hi
    exact ⟨actual, hmono.did hdid⟩

/-- What goes to the followers are the records of the batch. -/
theorem BatchAppended.sourced_messages {message : Bytes}
    (h : BatchAppended w τ n topic partition start (first + 1) messages offsets)
    (hleader : w.Did τ (.node .isLeader) true)
    (hfirst : w.Did τ (.node (.append topic partition message .client)) first) :
    ∀ (i : Nat) (m : Bytes), (message :: messages)[i]? = some m →
      w.Sourced topic partition (first + i) m := by
  intro i m hi
  cases i with
  | zero =>
    obtain rfl : message = m := by simpa using hi
    exact ⟨τ, hleader, .inl hfirst⟩
  | succ i =>
    obtain ⟨actual, hdid⟩ := h.sourced i m (by simpa using hi)
    refine ⟨τ, hleader, .inr ⟨actual, ?_⟩⟩
    rw [Nat.add_comm i 1, ← Nat.add_assoc]
    exact hdid

/-- The last offset of a batch is where a record of it was appended. -/
theorem BatchAppended.appended_last {message : Bytes}
    (h : BatchAppended w τ n topic partition start expected messages offsets)
    (hfirst : w.Did τ (.node (.append topic partition message .client)) first) :
    ∃ m origin, w.Did τ (.node (.append topic partition m origin)) (offsets.getLastD first) := by
  rcases List.eq_nil_or_concat offsets with rfl | ⟨front, last, rfl⟩
  · exact ⟨message, .client, hfirst⟩
  · rw [List.concat_eq_append, List.getLastD_concat]
    obtain ⟨-, -, m, e, hdid⟩ := h.later last (by simp)
    exact ⟨m, .batch e, hdid⟩

/-- The rest of a batch lands behind its first record. -/
theorem honours_appendBatch (hI : Inv cluster w) (hat : w.RunsAt τ n)
    (hleader : w.Did τ (.node .isLeader) true)
    (hstart : start ≤ ((w.nodes n).contents (makeKey topic partition)).length) :
    Honours cluster τ
      (fun offsets w' =>
        BatchAppended w' τ n topic partition start expected messages offsets)
      (appendBatch topic partition messages expected) w := by
  -- on the batch; other threads may append in between, so only the order is known
  induction messages generalizing w start expected with
  | nil =>
    refine Honours.ret (fun w' _ _ => ⟨.nil, fun o ho => absurd ho (by simp), .nil, ?_⟩)
    exact fun i m hi => absurd hi (by simp)
  | cons message messages ih =>
    refine Honours.node hat (fun w' hmono _ => hmono.did hleader) ?_
    intro c offset w₁ w₂ hR₁ hmono₂ hI₂ happended hstep
    obtain ⟨hoffset, hroom, hcontents, -⟩ := append_step hstep
    have hholds := World.Holds.of_append hstep
    have hto₂ : w.Mono w₂ := hR₁.1.trans hmono₂
    have hge : start ≤ offset := by
      have := ((hR₁.1.nodes n).contents (makeKey topic partition)).length_le
      omega
    have hlen : offset + 1 ≤ ((w₂.nodes n).contents (makeKey topic partition)).length := by
      rw [hcontents, List.length_append, ← hoffset]
      exact le_rfl
    refine Safe.bind hI₂ (ih hI₂ (hto₂.runsAt hat) (hto₂.did hleader) hlen) ?_
    intro offsets w₃ hmono₃ _ hrest
    refine Honours.ret (fun w₄ hR₄ _ => BatchAppended.mono hR₄.1 ⟨?_, ?_, ?_, ?_⟩)
    · exact .cons (hmono₃.holds hholds) hrest.held
    · intro o ho
      rcases List.mem_cons.mp ho with rfl | ho
      · exact ⟨hge, Nat.lt_of_succ_lt hroom, message, expected, hmono₃.did happended⟩
      · obtain ⟨hafter, hlt, hdid⟩ := hrest.later o ho
        exact ⟨hge.trans (Nat.le_of_succ_le hafter), hlt, hdid⟩
    · exact List.pairwise_cons.mpr ⟨fun o ho => (hrest.later o ho).1, hrest.ordered⟩
    · intro i m hi
      cases i with
      | zero =>
        obtain rfl : message = m := by simpa using hi
        exact ⟨offset, hmono₃.did happended⟩
      | succ i =>
        obtain ⟨actual, hdid⟩ := hrest.sourced i m (by simpa using hi)
        refine ⟨actual, ?_⟩
        rw [Nat.add_comm i 1, ← Nat.add_assoc]
        exact hdid

/-- Every offset of a batch has its quorum when it is committed. -/
theorem honours_commitBatch (hfits : request.Fits) (hp : 0 ≤ request.partition) (hI : Inv cluster w)
    (hat : w.RunsAt τ n)
    (hquorate : ∀ o ∈ offsets, w.Quorate request.topic request.partition o ∧ o < 2 ^ 64) :
    Honours cluster τ
      (fun _ w' => ∀ o ∈ offsets, w'.Committed n request.topic request.partition o)
      (commitBatch config request.topic request.partition offsets) w := by
  induction offsets generalizing w with
  | nil => exact Honours.ret (fun _ _ _ o ho => absurd ho (by simp))
  | cons offset offsets ih =>
    obtain ⟨hq, hlt⟩ := hquorate offset List.mem_cons_self
    show Honours cluster τ _ ((node (.markCommitted request.topic request.partition offset) >>=
      fun _ => broadcastCommit config request.topic request.partition offset) >>= fun _ =>
        commitBatch config request.topic request.partition offsets) w
    have hone : Honours cluster τ
        (fun _ w' => w'.Committed n request.topic request.partition offset)
        (node (.markCommitted request.topic request.partition offset) >>=
          fun _ => broadcastCommit config request.topic request.partition offset) w := by
      refine Honours.markCommitted hat hp hq (fun w₁ hmono₁ hI₁ hcommitted => ?_)
      refine Safe.mono (honours_broadcastCommit (derived_fits hfits hlt).2.1
        (hmono₁.quorate hq)) ?_
      exact fun _ w₂ hmono₂ _ _ => hmono₂.committed hcommitted
    refine Safe.bind hI hone (fun _ w₁ hmono₁ hI₁ hcommitted => ?_)
    refine Safe.mono (ih hI₁ (hmono₁.runsAt hat) (fun o ho => ?_)) ?_
    · obtain ⟨hq', hlt'⟩ := hquorate o (List.mem_cons_of_mem _ ho)
      exact ⟨hmono₁.quorate hq', hlt'⟩
    · intro _ w₂ hmono₂ _ hrest o ho
      rcases List.mem_cons.mp ho with rfl | ho
      · exact hmono₂.committed hcommitted
      · exact hrest o ho

/-- The last offset of a batch is the largest one. -/
theorem le_getLastD (hfirst : ∀ o ∈ offsets, first < o) (hordered : offsets.Pairwise (· < ·)) :
    ∀ o ∈ first :: offsets, o ≤ offsets.getLastD first := by
  induction offsets generalizing first with
  | nil =>
    intro o ho
    rw [List.mem_singleton.mp ho]
    exact le_rfl
  | cons second offsets ih =>
    obtain ⟨hsecond, hrest⟩ := List.pairwise_cons.mp hordered
    have hle := ih hsecond hrest
    rw [List.getLastD_cons]
    intro o ho
    rcases List.mem_cons.mp ho with rfl | ho
    · exact (hfirst second List.mem_cons_self).le.trans (hle second List.mem_cons_self)
    · exact hle o ho

/-- **BATCH_PRODUCE.** -/
theorem honours_handleBatchProduce (hserves : w.Serves τ n request) (hfits : request.Fits)
    (htype : request.type = .batchProduce) :
    Honours cluster τ (fun r w' => w'.Served cluster τ n request r)
      (handleBatchProduce config request) w := by
  have hat := hserves.runsAt
  have hnofetch : request.type ≠ .fetch := by rw [htype]; decide
  have hok : ∀ {w : World} {r : Response}, w.ResponseOk cluster request r :=
    responseOk_of_ne_produce (by rw [htype]; decide)
  have hfail : ∀ {w : World} {r : Response}, r.success = false →
      Honours cluster τ (fun r w' => w'.Served cluster τ n request r) (pure r) w := by
    refine fun hs => Honours.ret (fun _ _ _ => ⟨hok, fun h => absurd h hnofetch, fun h => ?_⟩)
    rw [hs] at h
    exact absurd h (by decide)
  unfold handleBatchProduce
  split
  · exact hfail rfl
  next first rest hmessages =>
  refine honours_onLeader hfits (by rw [htype]; rfl) hnofetch (fun w₁ hmono₁ hI₁ hleader => ?_)
  split
  · exact hfail rfl
  next hvalid =>
  refine Honours.node (hmono₁.runsAt hat) (fun w' hmono _ => hmono.did hleader) ?_
  intro c firstOffset w₂ w₃ hR₂ hmono₃ hI₃ happended hstep
  obtain ⟨hfirst, hroom, hcontents, hopened⟩ := append_step hstep
  have hholds := World.Holds.of_append hstep
  have hto₃ : w₁.Mono w₃ := hR₂.1.trans hmono₃
  have hlen : firstOffset + 1 ≤
      ((w₃.nodes n).contents (makeKey request.topic request.partition)).length := by
    rw [hcontents, List.length_append, ← hfirst]
    exact le_rfl
  refine Safe.bind hI₃ (honours_appendBatch hI₃ ((hmono₁.trans hto₃).runsAt hat)
    (hto₃.did hleader) hlen) (fun offsets w₄ hmono₄ hI₄ hbatch => ?_)
  have hle := le_getLastD (fun o ho => (hbatch.later o ho).1) hbatch.ordered
  refine Safe.bind hI₄ (honours_refreshTopic request.topic) (fun _ w₅ hmono₅ hI₅ _ => ?_)
  have hfirstlt : firstOffset < 2 ^ 64 := Nat.lt_of_succ_lt hroom
  have hpayload : w₅.PayloadOk (encodeRequest
      (batchRequest request.topic request.partition firstOffset request.messages)) := by
    intro _
    rw [parseRequest_encode (derived_fits hfits hfirstlt).2.2]
    exact hmessages ▸ (hbatch.mono hmono₅).sourced_messages
      (((hto₃.trans hmono₄).trans hmono₅).did hleader) ((hmono₄.trans hmono₅).did happended)
  refine Safe.bind hI₅ (honours_exchanges (exchanges_replicateBatch request.topic request.partition
    firstOffset request.messages) hpayload) (fun ok w₆ hmono₆ hI₆ _ => ?_)
  split
  · exact hfail rfl
  refine Safe.bind hI₆ honours_waitForQuorum (fun reached w₇ hmono₇ hI₇ hquorum => ?_)
  split
  · exact hfail rfl
  next hreached =>
  have hto₇ : w₄.Mono w₇ := (hmono₅.trans hmono₆).trans hmono₇
  -- the quorum is the last record's; it stands for all offsets up to there
  have hquorate : ∀ o ∈ firstOffset :: offsets,
      w₇.Quorate request.topic request.partition o ∧ o < 2 ^ 64 := by
    obtain ⟨m, origin, hdid⟩ := (hbatch.mono hto₇).appended_last ((hmono₄.trans hto₇).did happended)
    have hproduces : w₇.Produces τ request.topic request.partition :=
      ⟨n, request, ((hmono₁.trans hto₃).trans (hmono₄.trans hto₇)).serves hserves, .inr htype,
        rfl, rfl⟩
    intro o ho
    refine ⟨⟨τ, _, m, origin, hle o ho, hproduces, hdid, hquorum (by simpa using hreached)⟩, ?_⟩
    rcases List.mem_cons.mp ho with rfl | ho
    · exact hfirstlt
    · exact (hbatch.later o ho).2.1
  refine Safe.bind hI₇ (honours_commitBatch hfits (by omega) hI₇
    (((hmono₁.trans hto₃).trans (hmono₄.trans hto₇)).runsAt hat) hquorate) ?_
  intro _ w₈ hmono₈ _ hcommitted
  refine Honours.ret (fun w₉ hR₉ _ => ⟨hok, fun h => absurd h hnofetch, fun _ => ?_⟩)
  simp only [htype]
  rw [hmessages]
  have hto₉ : w₄.Mono w₉ := (hto₇.trans hmono₈).trans hR₉.1
  have hheld : List.Forall₂ (w₉.Holds n request.topic request.partition)
      (firstOffset :: offsets) (first :: rest) :=
    .cons ((hmono₄.trans hto₉).holds hholds) (hbatch.held.imp (fun _ _ h => hto₉.holds h))
  have hall := (List.forall₂_and_left _ _).mpr ⟨hcommitted, hheld⟩
  rw [not_or] at hvalid
  refine .inr (hall.imp (fun o m ⟨hcom, hh⟩ =>
    ⟨hvalid.1, by omega, hh, ?_, hR₉.1.committed hcom⟩))
  exact ((hmono₄.trans hto₉).nodes n).opened _ hopened

/-! ### Dispatch -/

/-- Every request of a client, handler by handler. -/
theorem honours_handleRequest (hserves : w.Serves τ n request)
    (hconfig : (w.nodes n).config = config) (hmember : config ∈ cluster.brokers)
    (hid : config.brokerId = n) (hfits : request.type ≠ .error → request.Fits) :
    Honours cluster τ (fun r w' => w'.Served cluster τ n request r)
      (handleRequest config request) w := by
  have hat := hserves.runsAt
  unfold handleRequest
  split
  case h_1 htype =>
    exact honours_handleProduce hserves hconfig hmember hid (hfits (by rw [htype]; decide)) htype
  case h_2 htype => exact honours_handleBatchProduce hserves (hfits (by rw [htype]; decide)) htype
  case h_3 htype =>
    refine Safe.mono (honours_handleFetch hat)
      (fun r w' _ _ hfetch => ⟨fun _ h => ?_, fun _ => hfetch, fun _ => ?_⟩)
    · rw [htype] at h
      exact absurd h (by decide)
    · simp only [htype]
  case h_4 htype =>
    exact honours_plainHandler (hfits (by rw [htype]; decide))
      ((exchanges_handleMetadata _).mono (fun _ h => h.plain))
      (by rw [htype]; rfl) (by rw [htype]; rfl)
  case h_5 htype =>
    exact honours_plainHandler (hfits (by rw [htype]; decide)) plain_handleJoinGroup
      (by rw [htype]; rfl) (by rw [htype]; rfl)
  case h_6 htype =>
    exact honours_plainHandler (hfits (by rw [htype]; decide)) plain_handleLeaveGroup
      (by rw [htype]; rfl) (by rw [htype]; rfl)
  case h_7 htype => exact honours_handleGroupFetch hat (hfits (by rw [htype]; decide)) htype
  case h_8 htype => exact honours_handleCommitOffset hserves (hfits (by rw [htype]; decide)) htype
  case h_9 htype =>
    exact honours_plainHandler (hfits (by rw [htype]; decide))
      ((exchanges_handleGroupAssignment request).mono (fun _ h => h.plain))
      (by rw [htype]; rfl) (by rw [htype]; rfl)
  case h_10 _ _ hnofetch _ _ _ _ _ _ =>
    exact honours_failure hnofetch rfl (Response.failure_fits _ (by decide))

/-- Every request of a broker. -/
theorem honours_handleInterBrokerRequest {conn : Option Nat} (hI : Inv cluster w)
    (hat : w.RunsAt τ n) (hmember : config ∈ cluster.brokers) (hid : config.brokerId = n)
    (hrequest : parseRequest payload = request) (hpayload : w.PayloadOk payload)
    (hfrom : w.CameFrom conn n request) (hfits : request.type ≠ .error → request.Fits)
    (hinter : request.type.isInterBroker = true) :
    Honours cluster τ (fun r w' => w'.Served cluster τ n request r)
      (handleInterBrokerRequest config request conn) w := by
  -- the answer to such a request promises nothing
  have hserved : ∀ {w : World} {r : Response}, w.Served cluster τ n request r := by
    intro w r
    apply served_of_not_promises
    cases htype : request.type <;> rw [htype] at hinter <;>
      first | rfl | exact absurd hinter (by decide)
  have hdone : ∀ {w : World} {r : Response}, Honours cluster τ
      (fun r w' => w'.Served cluster τ n request r) (pure r) w :=
    Honours.ret (fun _ _ _ => hserved)
  unfold handleInterBrokerRequest
  split
  case h_1 htype =>
    exact Safe.bind hI (honours_handleReplicationRequest hat hmember hid hrequest hpayload hfrom
      (hfits (by rw [htype]; decide))) (fun _ _ _ _ _ => hdone)
  case h_2 htype =>
    exact Safe.bind hI (honours_handleReplicationRequest hat hmember hid hrequest hpayload hfrom
      (hfits (by rw [htype]; decide))) (fun _ _ _ _ _ => hdone)
  case h_3 => exact Honours.act (fun _ _ _ => trivial) (fun _ _ _ _ _ _ => hdone)
  case h_4 => exact Honours.act (fun _ _ _ => trivial) (fun _ _ _ _ _ _ => hdone)
  case h_5 =>
    exact Safe.bind hI (honours_handleCommitRequest hrequest hpayload) (fun _ _ _ _ _ => hdone)
  case h_6 => exact hdone

/-- What a thread that serves a request returns. -/
def Answers (cluster : Membership) (τ : Nat) (result : Option Response) (w : World) : Prop :=
  ∀ n request, w.Serves τ n request →
    ∃ response, result = some response ∧ w.Served cluster τ n request response

/-- What a worker does with a request is in order. -/
theorem honours_serve {conn : Option Nat} (hI : Inv cluster w)
    (hserves : w.Serves τ n (parseRequest payload)) (hconfig : (w.nodes n).config = config)
    (hmember : config ∈ cluster.brokers) (hid : config.brokerId = n)
    (hpayload : w.PayloadOk payload) (hfrom : w.CameFrom conn n (parseRequest payload)) :
    Honours cluster τ (Answers cluster τ) (serve config payload conn) w := by
  have hfits : (parseRequest payload).type ≠ .error → (parseRequest payload).Fits :=
    parseRequest_fits
  have hprocess : Honours cluster τ
      (fun r w' => w'.Served cluster τ n (parseRequest payload) r)
      (processRequest config payload conn) w := by
    unfold processRequest
    dsimp only
    split
    · next hinter =>
      exact honours_handleInterBrokerRequest hI hserves.runsAt hmember hid rfl hpayload hfrom
        hfits hinter
    · exact honours_handleRequest hserves hconfig hmember hid hfits
  refine Safe.bind hI hprocess (fun response w₁ hmono₁ _ hserved => ?_)
  refine Honours.act (fun w' hmono _ => ?_) (fun _ w₂ hmono₂ _ _ _ => ?_)
  · -- the response that is written is the one to the request that came in
    refine ⟨n, _, (hmono₁.trans hmono).serves hserves, hmono.served hserved, ?_⟩
    intro id c hconn hc
    obtain ⟨c', hc', -, hreq⟩ := (hmono₁.trans hmono).cameFrom hfrom id hconn
    rw [hc, Option.some.injEq] at hc'
    exact hc' ▸ hreq
  · refine Honours.ret (fun w₃ hR₃ _ n' request' hserves' => ⟨response, rfl, ?_⟩)
    -- a thread serves one request
    obtain ⟨rfl, rfl⟩ := (((hmono₁.trans hmono₂).trans hR₃.1).serves hserves).unique hserves'
    exact (hmono₂.trans hR₃.1).served hserved

end Serving

/-! ### The whole cluster -/

section Cluster

variable {cluster : Membership}

/-- A heartbeat round only talks. -/
theorem honours_heartbeat {τ : Nat} {w : World} (hI : Inv cluster w)
    (hmember : config ∈ cluster.brokers)
    (hserves : ∀ w', w.Mono w' → ∀ n request, ¬ w'.Serves τ n request) :
    Honours cluster τ (Answers cluster τ) (heartbeat config) w := by
  have hfits : Request.Fits { type := .heartbeat, brokerId := config.brokerId } := by
    have hzero : IsInt32 0 := by unfold IsInt32; omega
    exact
      { topic := Nat.zero_le _, partition := hzero, message := Nat.zero_le _,
        fetchOffset := Nat.two_pow_pos 64, brokerId := cluster.isInt32 config hmember,
        groupId := Nat.zero_le _, memberId := Nat.zero_le _, count := Nat.zero_le _,
        messages := fun m hm => absurd hm (by simp),
        type := (by decide : RequestType.heartbeat ≠ .error) }
  have hpayload : w.PayloadOk
      (encodeRequest { type := .heartbeat, brokerId := config.brokerId }) := by
    intro _
    rw [parseRequest_encode hfits]
    trivial
  refine Safe.bind hI (honours_exchanges exchanges_broadcastHeartbeat hpayload)
    (fun _ w₁ hmono₁ _ _ => ?_)
  exact Honours.ret (fun w₂ hR₂ _ n request h =>
    absurd h (hserves w₂ (hmono₁.trans hR₂.1) n request))

variable {k : Nat} {e : EnvStep} {G : Guard Act World EnvStep} {p : ClusterPool}

/-- **What is started**: a thread that serves a request, of a client or from the connection
    of another broker, or a round of heartbeats. -/
theorem Inv.started {w : World} {program : Program (Option Response)} (hI : Inv cluster w)
    (h : clusterMachine.env k e w = some (w', some program)) :
    ∃ config ∈ cluster.brokers,
      (∃ n payload conn, program = serve config payload conn ∧
        w'.Serves k n (parseRequest payload) ∧ (w'.nodes n).config = config ∧
        config.brokerId = n ∧ w'.PayloadOk payload ∧
        w'.CameFrom conn n (parseRequest payload)) ∨
      (program = heartbeat config ∧
        ∀ w'', w'.Mono w'' → ∀ n request, ¬ w''.Serves k n request) := by
  have hI' : Inv cluster w' := hI.env h
  obtain ⟨-, ⟨hnone, -⟩ | ⟨task, hk, hstarts, -, htasks, hprogram⟩⟩ := World.env_cases h
  · exact absurd hnone (by simp)
  have htask : w'.tasks[k]? = some task := by
    rw [htasks, hk, List.getElem?_append_right le_rfl, Nat.sub_self]
    rfl
  have hconfig : (w'.nodes task.node).config = (w.nodes task.node).config :=
    ((World.env_mono h).1.nodes task.node).config
  -- a thread starts on a live broker, and live brokers are members
  obtain ⟨hmember, hid⟩ := hI'.tasks k task htask
  rw [hconfig] at hmember hid
  obtain rfl := Option.some.inj hprogram
  refine ⟨_, hmember, ?_⟩
  cases hstarts with
  | client n payload =>
    refine .inl ⟨n, payload, none, rfl, ⟨_, htask, rfl, rfl⟩, hconfig, hid, ?_, ?_⟩
    · exact fun hhonest => payloadOk_of_client (hhonest k n payload htask) hhonest
    · exact fun id hid => absurd hid (by simp)
  | accept id c hc =>
    obtain ⟨c', hc', hdest, hpayload⟩ := hI'.sources k _ id _ htask
    refine .inl ⟨_, _, _, rfl, ⟨_, htask, rfl, rfl⟩, hconfig, hid,
      hpayload ▸ hI'.payloads id c' hc', ?_⟩
    rintro id' hid'
    obtain rfl := Option.some.inj hid'
    exact ⟨c', hc', hdest, congrArg parseRequest hpayload⟩
  | heartbeat n =>
    refine .inr ⟨rfl, fun w'' hmono n' request hserves => ?_⟩
    obtain ⟨task', htask', -, hrequest⟩ := hserves
    rw [hmono.task htask, Option.some.injEq] at htask'
    subst htask'
    exact absurd hrequest (by simp [Task.request?])

/-- Every thread that is started honours the contract. -/
theorem honours_start {w : World} {program : Program (Option Response)} (hI : Inv cluster w)
    (h : clusterMachine.env k e w = some (w', some program)) :
    Honours cluster k (Answers cluster k) program w' := by
  obtain ⟨config, hmember, ⟨n, payload, conn, rfl, hserves, hconfig, hid, hpayload, hfrom⟩ |
    ⟨rfl, hnone⟩⟩ := hI.started h
  · exact honours_serve (hI.env h) hserves hconfig hmember hid hpayload hfrom
  · exact honours_heartbeat (hI.env h) hmember hnone

/-- Before anything has happened the invariant holds. -/
theorem Setup.inv (setup : Setup) : Inv setup.cluster setup.pool.world := by
  have hnode : ∀ n, (setup.node n).replication.commitIndexByLog = fun _ => none := by
    intro n
    unfold Setup.node
    split <;> rfl
  refine ⟨fun n hn => ?_, ?_, ?_, ?_, ?_, ?_, fun _ n key c hc => ?_⟩
  · change (setup.node n).alive = true at hn
    show (setup.node n).config ∈ _ ∧ (setup.node n).config.brokerId = n
    unfold Setup.node at hn ⊢
    split
    · next config hconfig => exact Membership.mem_of_broker? hconfig
    · next hnone => rw [hnone] at hn; exact absurd hn (by simp)
  · exact fun τ task h => absurd h (by simp [Setup.pool])
  · exact fun τ n id payload h => absurd h (by simp [Setup.pool])
  · exact fun e he => absurd he (by simp [Setup.pool])
  · exact fun id c h => absurd h (by simp [Setup.pool])
  · exact fun id c h => absurd h (by simp [Setup.pool])
  · change (setup.node n).replication.commitIndexByLog key = some c at hc
    rw [hnode] at hc
    exact absurd hc (by simp)

/-- At the start nothing is under way. -/
theorem Setup.allSafe (setup : Setup) :
    AllSafe clusterRely (contract setup.cluster) (Answers setup.cluster) setup.pool :=
  fun τ program h => absurd h (by simp [Setup.pool])

/-- **Invariants of guarded runs.** In every state that a cluster reaches the contract's
    invariant holds, every thread honours the contract, and so does every property that
    the steps keep under it. -/
theorem cluster_invariant {J : World → Prop}
    (hexec : ∀ {τ a c w r w'}, Inv cluster w → J w → G.act w τ a →
      Pre cluster τ a w → World.exec τ a c w = some (r, w') → J w')
    (henv : ∀ {k e w w' started}, Inv cluster w → J w → G.env w e →
      World.env k e w = some (w', started) → J w') {p' : ClusterPool} (hI : Inv cluster p.world)
    (hS : AllSafe clusterRely (contract cluster) (Answers cluster) p) (hJ : J p.world)
    (h : Reachable clusterMachine G p p') :
    Inv cluster p'.world ∧
      AllSafe clusterRely (contract cluster) (Answers cluster) p' ∧ J p'.world :=
  (contract cluster).invariant clusterRely (fun hI _ h => honours_start hI h)
    ⟨fun _ => trivial, fun _ => trivial⟩ hexec henv hI hS hJ h

/-- **Soundness of the contract.** -/
theorem cluster_sound {setup : Setup} (h : Reachable clusterMachine G setup.pool p) :
    Inv setup.cluster p.world ∧
      AllSafe clusterRely (contract setup.cluster) (Answers setup.cluster) p := by
  have hsound := cluster_invariant (J := fun _ => True) (fun _ _ _ _ _ => trivial)
    (fun _ _ _ _ => trivial) setup.inv setup.allSafe trivial h
  exact ⟨hsound.1, hsound.2.1⟩

/-! ### Traffic between brokers only -/

/-- Inter-broker requests come from brokers only: no client sends one. -/
def brokerTraffic : Guard Act World EnvStep where
  act _ _ _ := True
  env _ e := ∀ n payload, e = .client n payload →
    (parseRequest payload).type.isInterBroker = false

theorem Setup.honest (setup : Setup) : setup.pool.world.Honest :=
  fun τ n payload h => absurd h (by simp [Setup.pool])

/-- Brokers stay honest. -/
theorem World.Honest.exec {τ : Nat} {a : Act} {c : Choice} {r : a.Result} {w : World}
    (hw : w.Honest) (h : World.exec τ a c w = some (r, w')) : w'.Honest := by
  unfold World.Honest
  rw [(World.exec_history h).2]
  exact hw

/-- So do clients that send no inter-broker requests. -/
theorem World.Honest.env {w : World} {started : Option (Program (Option Response))} (hw : w.Honest)
    (hG : brokerTraffic.env w e) (h : World.env k e w = some (w', started)) : w'.Honest := by
  intro τ n payload hτ
  rcases World.env_task h hτ with hold | ⟨-, -, hstarts, -, -⟩
  · exact hw τ n payload hold
  · -- a client's request has passed the guard
    cases hstarts with
    | client => exact hG n payload rfl

/-- The same for runs in which messages can be trusted. -/
theorem honest_invariant (hG : G.Refines brokerTraffic) {J : World → Prop}
    (hexec : ∀ {τ a c w r w'}, Inv cluster w → w.Honest → J w → G.act w τ a →
      Pre cluster τ a w → World.exec τ a c w = some (r, w') → J w')
    (henv : ∀ {k e w w' started}, Inv cluster w → w.Honest → J w → G.env w e →
      World.env k e w = some (w', started) → J w') {p' : ClusterPool} (hI : Inv cluster p.world)
    (hS : AllSafe clusterRely (contract cluster) (Answers cluster) p) (hhonest : p.world.Honest)
    (hJ : J p.world) (h : Reachable clusterMachine G p p') :
    Inv cluster p'.world ∧
      AllSafe clusterRely (contract cluster) (Answers cluster) p' ∧
      p'.world.Honest ∧ J p'.world := by
  refine cluster_invariant (J := fun w => w.Honest ∧ J w) ?_ ?_ hI hS ⟨hhonest, hJ⟩ h
  · intro τ a c w r w' hI hJ hact hpre hexec'
    exact ⟨hJ.1.exec hexec', hexec hI hJ.1 hJ.2 hact hpre hexec'⟩
  · intro k e w w' started hI hJ henv' h
    exact ⟨hJ.1.env (hG.env henv') h, henv hI hJ.1 hJ.2 henv' h⟩

/-- Where inter-broker requests come from brokers only, messages can be trusted. -/
theorem honest_of_reachable (hG : G.Refines brokerTraffic) {setup : Setup}
    (h : Reachable clusterMachine G setup.pool p) : p.world.Honest :=
  (honest_invariant hG (J := fun _ => True) (fun _ _ _ _ _ _ => trivial)
    (fun _ _ _ _ _ => trivial) setup.inv setup.allSafe setup.honest trivial h).2.2.1

end Cluster

end StreamingPlatform
