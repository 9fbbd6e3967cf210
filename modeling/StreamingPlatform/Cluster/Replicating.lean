import StreamingPlatform.Broker.Quiet
import StreamingPlatform.Cluster.Contract

namespace StreamingPlatform

open ByteString Interleave

/-!
# Cluster — replication honours the contract

The programs of `Broker/Replication` meet what the contract asks of them.  The heart is
`honours_replicateMessage`: while a leader holds its replication mutex, every
acknowledgement it counts comes from another broker that holds the record, so that a
reached quorum is a majority of the cluster.
-/

/-- Thread `τ` honours the contract with the rest `p` of its program, and what it returns
    satisfies `Q`. -/
abbrev Honours {α : Type} (cluster : Membership) (τ : Nat) (Q : α → World → Prop) (p : Program α)
    (w : World) : Prop :=
  Safe clusterRely (contract cluster) τ Q p w

/-! ### The acknowledgement counts under the mutex -/

/-- Thread `τ` holds the mutex of broker `n`, where at most `k` acknowledgements are
    counted under `key`. -/
def Acks (w : World) (τ : Nat) (n : Int) (key : Bytes) (k : Nat) : Prop :=
  (w.nodes n).mutex = some τ ∧
    ∀ count, (w.nodes n).replication.ackCounts key = some count → count ≤ k

/-- The actions that leave mutex and counts alone. -/
def Act.calm : Act → Bool
  | .node .lock | .node .unlock | .node (.openAcks ..) | .node (.handleAck ..) => false
  | _ => true

variable {a : Act} {c : Choice} {peer : ClusterPeer}

section Counts

variable {τ : Nat} {n : Int} {key : Bytes} {k : Nat} {w w' : World}

/-- Other threads leave the count alone while the mutex is held. -/
theorem Acks.of_rel (h : clusterRely.Rel τ w w') (hw : Acks w τ n key k) : Acks w' τ n key k := by
  -- the rely: no other thread touches the counts while `τ` holds the mutex
  obtain ⟨hmutex, hcounts⟩ := h.2 n hw.1
  refine ⟨hmutex, fun count hcount => hw.2 count ?_⟩
  rwa [hcounts] at hcount

/-- A calm action keeps the mutex and the counts. -/
theorem NodeAct.Effect.calm {s s' : Node} {a : NodeAct} (h : NodeAct.Effect τ s a s')
    (ha : (Act.node a).calm = true) :
    s'.mutex = s.mutex ∧ s'.replication.ackCounts = s.replication.ackCounts := by
  cases h with
  | lock => exact absurd ha (by decide)
  | unlock => exact absurd ha (by decide)
  | acks a replication hkind _ _ =>
    rcases hkind with
      ⟨topic, partition, offset, rfl, -⟩ | ⟨id, topic, partition, offset, rfl, -⟩ <;>
      exact absurd ha (by simp [Act.calm])
  | liveness _ replication type leaderBrokerId _ _ hcounts _ => exact ⟨rfl, hcounts⟩
  | none | append | join | leave | commitOffset | refreshTopic | markCommitted => exact ⟨rfl, rfl⟩

/-- The thread's own calm actions leave it alone as well. -/
theorem Acks.of_calm {r : a.Result} (ha : a.calm = true) (h : World.exec τ a c w = some (r, w'))
    (hw : Acks w τ n key k) : Acks w' τ n key k := by
  cases a with
  | net a =>
    obtain ⟨task, conns, -, -, rfl⟩ := World.exec_net h
    exact hw
  | node a =>
    obtain ⟨task, s', -, hstep, rfl⟩ := World.exec_node h
    obtain ⟨hmutex, hcounts⟩ := (NodeAct.step_effect hstep).calm ha
    unfold Acks
    dsimp only
    by_cases hn : n = task.node
    · subst hn
      rw [Function.update_self, hmutex, hcounts]
      exact hw
    · rw [Function.update_of_ne hn]
      exact hw

end Counts

/-! ### Rules for actions

The rules hold for any protocol of the cluster that asks nothing of the routine actions; the
contract is the one in use here. -/

/-- The actions that a protocol of the cluster need not look at. -/
def Act.Routine : Act → Prop
  | .node (.append ..) | .node (.markCommitted ..) | .node (.commit ..) | .node (.join ..) => False
  | .net (.send ..) | .net (.sendAck ..) | .net (.respond ..) => False
  | _ => True

/-- A protocol that asks nothing of the routine actions. -/
def Lenient {G : Guard Act World EnvStep} (P : Protocol clusterMachine G) : Prop :=
  ∀ {τ : Nat} {a : Act} {w : World}, a.Routine → P.Pre τ a w

/-- The contract asks nothing of the routine actions. -/
theorem contract_lenient (cluster : Membership) : Lenient (contract cluster) := by
  intro τ a w ha
  cases a with
  | node a => cases a <;> first | exact ha.elim | trivial
  | net a => cases a <;> first | exact ha.elim | trivial

section Rules

variable {G : Guard Act World EnvStep} {P : Protocol clusterMachine G} {τ : Nat} {α : Type}
  {Q : α → World → Prop} {w : World}

/-- An action whose result is all that matters. -/
theorem safe_act {f : a.Result → Program α} (hpre : ∀ w', w.Mono w' → P.Inv w' → P.Pre τ a w')
    (h : ∀ r w', w.Mono w' → P.Inv w' → w'.Did τ a r →
      (a.calm = true → ∀ n key k, Acks w τ n key k → Acks w' τ n key k) →
      Safe clusterRely P τ Q (f r) w') : Safe clusterRely P τ Q (Prog.perform a >>= f) w := by
  apply Safe.perform
  intro w' hR hI _
  refine ⟨hpre w' hR.1 hI, fun c r w'' hexec hI'' => ?_⟩
  refine h r w'' (hR.1.trans (World.exec_mono hexec).1) hI'' (World.did_exec hexec) ?_
  exact fun hcalm n key k hacks => (hacks.of_rel hR).of_calm hcalm hexec

/-- The last action of a program. -/
theorem safe_last {Q : a.Result → World → Prop} (hpre : ∀ w', w.Mono w' → P.Inv w' → P.Pre τ a w')
    (h : ∀ r w', w.Mono w' → P.Inv w' → w'.Did τ a r →
      (a.calm = true → ∀ n key k, Acks w τ n key k → Acks w' τ n key k) → Q r w') :
    Safe clusterRely P τ Q (Prog.perform a) w := by
  refine safe_act hpre (fun r w' hmono _ hdid hacks => ?_)
  intro w'' hR hI''
  exact h r w'' (hmono.trans hR.1) hI'' (hR.1.did hdid)
    (fun hcalm n key k hk => (hacks hcalm n key k hk).of_rel hR)

/-- An action on the state of the broker, where the effect matters. -/
theorem safe_node {a : NodeAct} {f : a.Result → Program α} {n : Int} (hat : w.RunsAt τ n)
    (hpre : ∀ w', w.Mono w' → P.Inv w' → P.Pre τ (.node a) w')
    (h : ∀ c r w₁ w₂, clusterRely.Rel τ w w₁ → w₁.Mono w₂ → P.Inv w₂ →
      w₂.Did τ (.node a) r → a.step τ (w₁.nodes n) c = some (r, w₂.nodes n) →
      Safe clusterRely P τ Q (f r) w₂) :
    Safe clusterRely P τ Q (StreamingPlatform.node a >>= f) w := by
  apply Safe.perform
  intro w₁ hR hI _
  refine ⟨hpre w₁ hR.1 hI, fun c r w₂ hexec hI₂ => ?_⟩
  exact h c r w₁ w₂ hR (World.exec_mono hexec).1 hI₂ (World.did_exec hexec)
    (World.exec_node_at hexec (hR.1.runsAt hat))

end Rules

section Honours

variable {cluster : Membership} {τ : Nat} {α : Type} {Q : α → World → Prop} {w : World}

@[inherit_doc safe_act]
theorem Honours.act {f : a.Result → Program α}
    (hpre : ∀ w', w.Mono w' → Inv cluster w' → Pre cluster τ a w')
    (h : ∀ r w', w.Mono w' → Inv cluster w' → w'.Did τ a r →
      (a.calm = true → ∀ n key k, Acks w τ n key k → Acks w' τ n key k) →
      Honours cluster τ Q (f r) w') : Honours cluster τ Q (Prog.perform a >>= f) w :=
  safe_act hpre h

@[inherit_doc safe_last]
theorem Honours.last {Q : a.Result → World → Prop}
    (hpre : ∀ w', w.Mono w' → Inv cluster w' → Pre cluster τ a w')
    (h : ∀ r w', w.Mono w' → Inv cluster w' → w'.Did τ a r →
      (a.calm = true → ∀ n key k, Acks w τ n key k → Acks w' τ n key k) → Q r w') :
    Honours cluster τ Q (Prog.perform a) w :=
  safe_last hpre h

@[inherit_doc safe_node]
theorem Honours.node {a : NodeAct} {f : a.Result → Program α} {n : Int} (hat : w.RunsAt τ n)
    (hpre : ∀ w', w.Mono w' → Inv cluster w' → Pre cluster τ (.node a) w')
    (h : ∀ c r w₁ w₂, clusterRely.Rel τ w w₁ → w₁.Mono w₂ → Inv cluster w₂ →
      w₂.Did τ (.node a) r → a.step τ (w₁.nodes n) c = some (r, w₂.nodes n) →
      Honours cluster τ Q (f r) w₂) :
    Honours cluster τ Q (StreamingPlatform.node a >>= f) w :=
  safe_node hat hpre h

/-- The end of a program. -/
theorem Honours.ret {a : α}
    (h : ∀ w', clusterRely.Rel τ w w' → Inv cluster w' → Q a w') :
    Honours cluster τ Q (pure a) w := h

end Honours

/-! ### Exchanges with a peer -/

/-- Under the protocol, `F` is true of every frame that is on a connection. -/
def Says {G : Guard Act World EnvStep} (P : Protocol clusterMachine G)
    (F : World → Int → Bytes → Bytes → Prop) : Prop :=
  ∀ {w w' : World}, P.Inv w → w.Mono w' → ∀ (id : Nat) (c : Conn), w.conns[id]? = some c →
    ∀ frame ∈ c.frames, F w' c.dest c.payload frame

section Exchange

variable {G : Guard Act World EnvStep} {P : Protocol clusterMachine G} {τ : Nat} {w : World}
  {F : World → Int → Bytes → Bytes → Prop} {dest : Int}

/-- What comes back on a connection is a frame, and what frames say under the protocol is
    true of it. -/
theorem safe_receive (hP : Lenient P) (hF : Says P F) {conn : Nat} {payload : Bytes}
    (hconn : ∃ c, w.conns[conn]? = some c ∧ c.dest = dest ∧ c.payload = payload) :
    Safe clusterRely P τ (fun r w' => (∀ n key k, Acks w τ n key k → Acks w' τ n key k) ∧
      ∀ frame, r = some frame → F w' dest payload frame) (net (.receive conn)) w := by
  intro w' hR hI _
  refine ⟨hP trivial, fun c r w'' hexec => ?_⟩
  intro w₃ hR₃ hI₃
  refine ⟨fun n key k hacks => ((hacks.of_rel hR).of_calm rfl hexec).of_rel hR₃, ?_⟩
  rintro frame rfl
  obtain ⟨c₀, hc₀, rfl, rfl⟩ := hconn
  -- the others may have written to the connection meanwhile, but it is the same one
  obtain ⟨c₁, hc₁, hdest, hpayload⟩ := hR.1.conns conn c₀ hc₀
  have hmono := (World.exec_mono hexec).1.trans hR₃.1
  obtain ⟨task, conns, -, hstep, rfl⟩ := World.exec_net hexec
  cases c with
  | succeeds =>
    simp only [NetAct.step, hc₁, Option.bind_some] at hstep
    split at hstep
    · next f hf =>
      obtain ⟨hframe, -⟩ := Prod.mk.inj (Option.some.inj hstep)
      rw [← Option.some.inj hframe, ← hdest, ← hpayload]
      exact hF hI hmono conn c₁ hc₁ f (List.mem_of_mem_head? hf)
    · exact absurd hstep (by simp)
  | fails | writeFails | times => exact absurd hstep (by simp [NetAct.step])

/-- A request is sent, and the connection it went out on is known. -/
theorem safe_send {α : Type} {Q : α → World → Prop} {payload : Bytes} {f : SendResult → Program α}
    (hpre : ∀ w', w.Mono w' → P.Inv w' → P.Pre τ (.net (.send dest payload)) w')
    (h : ∀ r w', w.Mono w' → P.Inv w' →
      (∀ n key k, Acks w τ n key k → Acks w' τ n key k) →
      (∀ conn, r = .sent conn →
        ∃ c, w'.conns[conn]? = some c ∧ c.dest = dest ∧ c.payload = payload) →
      Safe clusterRely P τ Q (f r) w') :
    Safe clusterRely P τ Q (net (.send dest payload) >>= f) w := by
  apply Safe.perform
  intro w' hR hI _
  refine ⟨hpre w' hR.1 hI, fun c r w'' hexec hI'' => ?_⟩
  refine h r w'' (hR.1.trans (World.exec_mono hexec).1) hI''
    (fun n key k hacks => (hacks.of_rel hR).of_calm rfl hexec) ?_
  rintro conn rfl
  obtain ⟨task, conns, -, hstep, rfl⟩ := World.exec_net hexec
  cases c with
  | succeeds =>
    obtain ⟨hconn, rfl⟩ := Prod.mk.inj (Option.some.inj hstep)
    obtain rfl := SendResult.sent.inj hconn
    refine ⟨{ dest := dest, payload := payload }, ?_, rfl, rfl⟩
    show (w'.conns ++ [_])[w'.conns.length]? = _
    rw [List.getElem?_append_right le_rfl, Nat.sub_self]
    rfl
  | fails | writeFails | times => exact absurd hstep (by simp [NetAct.step])

/-- An exchange keeps the count and brings a frame that the contract vouches for. -/
theorem safe_exchangeWithPeer (hP : Lenient P) (hF : Says P F) {payload : Bytes}
    (hpre : ∀ w', w.Mono w' → P.Inv w' → P.Pre τ (.net (.send peer.brokerId payload)) w') :
    Safe clusterRely P τ (fun r w' => (∀ n key k, Acks w τ n key k → Acks w' τ n key k) ∧
      ∀ frame, r = some frame → F w' peer.brokerId payload frame)
      (exchangeWithPeer peer payload) w := by
  unfold exchangeWithPeer
  refine safe_send hpre (fun r w₁ _ hI₁ hacks hsent => ?_)
  cases r with
  | sent conn =>
    refine Safe.mono (safe_receive hP hF (hsent conn rfl)) ?_
    intro r w₂ _ _ ⟨hacks₂, hframe⟩
    exact ⟨fun n key k h => hacks₂ n key k (hacks n key k h), hframe⟩
  | unreachable =>
    refine Safe.ret (fun w₂ hR _ => ⟨fun n key k h => (hacks n key k h).of_rel hR, ?_⟩)
    exact fun frame h => absurd h (by simp)
  | writeFailed =>
    refine Safe.ret (fun w₂ hR _ => ⟨fun n key k h => (hacks n key k h).of_rel hR, ?_⟩)
    exact fun frame h => absurd h (by simp)

/-- Noting its outcome keeps the count. -/
theorem safe_recordExchange (hP : Lenient P) {ok : Bool} :
    Safe clusterRely P τ (fun _ w' => ∀ n key k, Acks w τ n key k → Acks w' τ n key k)
      (recordExchange peer ok) w := by
  unfold recordExchange
  split
  · exact safe_last (fun _ _ _ => hP trivial) (fun _ _ _ _ _ hacks => hacks rfl)
  · exact safe_last (fun _ _ _ => hP trivial) (fun _ _ _ _ _ hacks => hacks rfl)

variable {cluster : Membership}

/-- Every frame on a connection is in order. -/
theorem says_contract (cluster : Membership) :
    Says (contract cluster) (fun w => w.FrameOk cluster) :=
  fun hI hmono id c hc frame hf => hmono.frameOk (hI.frames id c hc frame hf)

/-- What is received is in order. -/
theorem honours_receive {conn : Nat} {payload : Bytes}
    (hconn : ∃ c, w.conns[conn]? = some c ∧ c.dest = dest ∧ c.payload = payload) :
    Honours cluster τ (fun r w' => (∀ n key k, Acks w τ n key k → Acks w' τ n key k) ∧
      ∀ frame, r = some frame → w'.FrameOk cluster dest payload frame) (net (.receive conn)) w :=
  safe_receive (contract_lenient cluster) (says_contract cluster) hconn

/-- A payload in order may be sent. -/
theorem Honours.send {α : Type} {Q : α → World → Prop} {payload : Bytes}
    {f : SendResult → Program α} (hpayload : w.PayloadOk payload)
    (h : ∀ r w', w.Mono w' → Inv cluster w' →
      (∀ n key k, Acks w τ n key k → Acks w' τ n key k) →
      (∀ conn, r = .sent conn →
        ∃ c, w'.conns[conn]? = some c ∧ c.dest = dest ∧ c.payload = payload) →
      Honours cluster τ Q (f r) w') : Honours cluster τ Q (net (.send dest payload) >>= f) w :=
  safe_send (fun _ hmono _ => hmono.payloadOk hpayload) h

/-- The two together. -/
theorem honours_exchangeWithPeer {payload : Bytes} (hpayload : w.PayloadOk payload) :
    Honours cluster τ (fun r w' => (∀ n key k, Acks w τ n key k → Acks w' τ n key k) ∧
      ∀ frame, r = some frame → w'.FrameOk cluster peer.brokerId payload frame)
      (exchangeWithPeer peer payload) w :=
  safe_exchangeWithPeer (contract_lenient cluster) (says_contract cluster)
    (fun _ hmono _ => hmono.payloadOk hpayload)

/-- A frame that parses as an ACK is one: a response never does. -/
theorem ack_of_frameOk {payload frame : Bytes} (hhonest : w.Honest)
    (h : w.FrameOk cluster dest payload frame) (htype : (parseRequest frame).type = .ack) :
    w.AckOk dest (parseRequest payload) (parseRequest frame) := by
  rcases h hhonest with ⟨ack, rfl, hack⟩ | ⟨response, rfl, -⟩
  · obtain ⟨hfits, hacktype, hkind, hrep⟩ := hack
    have hparse : parseRequest (encodeRequest ack) = ack.carried := parseRequest_encode hfits
    refine ⟨?_, htype, hkind, fun hr => ⟨?_, (hrep hr).2⟩⟩
    · exact parseRequest_fits (by rw [htype]; decide)
    · rw [hparse, (hrep hr).1]
      rfl
  · exact absurd htype (type_parseRequest_serializeResponse response)

end Exchange

/-! ### Replicating a message -/

section Replicate

variable {G : Guard Act World EnvStep} {P : Protocol clusterMachine G} {cluster : Membership}
  {τ : Nat} {w : World} {n : Int} {topic : Bytes} {partition : Int} {offset : Nat}
  {message : Bytes}

/-- An acknowledgement adds at most one. -/
theorem ReplicationManager.ackCounts_handleAck_le {manager : ReplicationManager} {key : Bytes}
    {k : Nat} (h : ∀ count, manager.ackCounts key = some count → count ≤ k) (id : Int)
    {count : Nat}
    (hcount : (manager.handleAck id topic partition offset).ackCounts key = some count) :
    count ≤ k + 1 := by
  unfold ReplicationManager.handleAck at hcount
  dsimp only at hcount
  split at hcount
  · exact (h count hcount).trans (Nat.le_succ k)
  · dsimp only at hcount
    by_cases hkey : key = makeAckKey topic partition offset
    · subst hkey
      rw [Function.update_self, Option.some.injEq] at hcount
      cases hbefore : manager.ackCounts (makeAckKey topic partition offset) with
      | none => rw [hbefore, Option.getD_none] at hcount; omega
      | some before =>
        rw [hbefore, Option.getD_some] at hcount
        have := h before hbefore
        omega
    · rw [Function.update_of_ne hkey] at hcount
      exact (h count hcount).trans (Nat.le_succ k)

/-- An acknowledgement raises a count by one at most. -/
theorem Acks.handleAck {id : Int} {r : Unit} {w' : World} {key : Bytes} {k : Nat}
    (h : World.exec τ (.node (.handleAck id topic partition offset)) c w = some (r, w'))
    (hacks : Acks w τ n key k) : Acks w' τ n key (k + 1) := by
  obtain ⟨task, s', -, hstep, rfl⟩ := World.exec_node h
  obtain ⟨-, heq⟩ := Node.locked_eq_some hstep
  obtain ⟨-, rfl⟩ := Prod.mk.inj heq
  unfold Acks
  dsimp only
  by_cases hn : n = task.node
  · subst hn
    rw [Function.update_self]
    split
    · refine ⟨hacks.1, fun count hcount => ?_⟩
      exact ReplicationManager.ackCounts_handleAck_le hacks.2 id hcount
    · exact ⟨hacks.1, fun count hcount => (hacks.2 count hcount).trans (Nat.le_succ k)⟩
  · rw [Function.update_of_ne hn]
    exact ⟨hacks.1, fun count hcount => (hacks.2 count hcount).trans (Nat.le_succ k)⟩

/-- As far as messages can be trusted, broker `id` backs a record. -/
def World.Vouched (w : World) (τ : Nat) (n : Int) (topic : Bytes) (partition : Int) (offset : Nat)
    (message : Bytes) (id : Int) : Prop :=
  w.Honest → w.Backs τ n topic partition offset message id

/-- What was vouched for stays so. -/
theorem World.Mono.vouched {w' : World} (h : w.Mono w') {id : Int}
    (hw : w.Vouched τ n topic partition offset message id) :
    w'.Vouched τ n topic partition offset message id :=
  fun hhonest => h.backs (hw (h.honest hhonest))

/-- What an exchange with one peer does to the count: it stays, or it grows by one and the
    peer holds the record. -/
def Counted (w w' : World) (τ : Nat) (n : Int) (key : Bytes) (held : Prop) : Prop :=
  ∀ k, Acks w τ n key k → Acks w' τ n key k ∨ (Acks w' τ n key (k + 1) ∧ held)

/-- One peer more has the record, or the count stays. -/
theorem honours_replicateToPeer (hI : Inv cluster w)
    (hfits : (replicationRequest topic partition offset message).Fits)
    (hsourced : w.Sourced topic partition offset message) :
    Honours cluster τ (fun _ w' => Counted w w' τ n (makeAckKey topic partition offset)
        (w'.Vouched τ n topic partition offset message peer.brokerId))
      (replicateToPeer peer (encodeRequest (replicationRequest topic partition offset message))
        topic partition offset) w := by
  have hparse : parseRequest (encodeRequest (replicationRequest topic partition offset message))
      = replicationRequest topic partition offset message := parseRequest_encode hfits
  have hpayload : w.PayloadOk
      (encodeRequest (replicationRequest topic partition offset message)) := by
    intro _
    rw [hparse]
    exact hsourced
  unfold replicateToPeer
  refine Safe.bind hI (honours_exchangeWithPeer hpayload) ?_
  intro r w₁ _ hI₁ ⟨hacks, hframe⟩
  have hstay : ∀ {α : Type} {a : α}, Honours cluster τ
      (fun _ w' => Counted w w' τ n (makeAckKey topic partition offset)
        (w'.Vouched τ n topic partition offset message peer.brokerId)) (pure a) w₁ :=
    Honours.ret (fun w₂ hR _ k hk => .inl ((hacks n _ k hk).of_rel hR))
  cases r with
  | none => exact hstay
  | some frame =>
    dsimp only
    split
    · exact hstay
    · split
      · exact hstay
      · next htype =>
        -- the ACK names the record and is from the peer
        have hack : w₁.Honest →
            parseRequest frame = { type := .ack, topic, partition, fetchOffset := offset,
                                   brokerId := peer.brokerId } ∧
            w₁.Holds peer.brokerId topic partition offset message := by
          intro hhonest
          have hack := ack_of_frameOk hhonest (hframe frame rfl) (not_not.mp htype)
          rw [hparse] at hack
          exact hack.2.2.2 rfl
        apply Safe.perform
        intro w₂ hR₂ hI₂ _
        refine ⟨trivial, fun c r w₃ hexec hI₃ => ?_⟩
        refine Honours.ret (fun w₄ hR₄ _ k hk => .inr ⟨?_, ?_⟩)
        · exact (Acks.handleAck hexec ((hacks n _ k hk).of_rel hR₂)).of_rel hR₄
        · intro hhonest
          have hmono := (hR₂.1.trans (World.exec_mono hexec).1).trans hR₄.1
          obtain ⟨hframe, hholds⟩ := hack (hmono.honest hhonest)
          have hdid := hR₄.1.did (World.did_exec hexec)
          rw [hframe] at hdid
          dsimp only at hdid
          rw [ite_self, ite_self] at hdid
          exact ⟨hmono.holds hholds, .inr hdid⟩

/-- The same for a round, which may skip the peer. -/
theorem honours_replicateRound {config : BrokerConfig}
    (hfits : (replicationRequest topic partition offset message).Fits)
    (hsourced : w.Sourced topic partition offset message) :
    Honours cluster τ (fun _ w' => Counted w w' τ n (makeAckKey topic partition offset)
        (w'.Vouched τ n topic partition offset message peer.brokerId))
      (replicateRound config
        (encodeRequest (replicationRequest topic partition offset message))
        topic partition offset peer) w := by
  unfold replicateRound
  split
  · exact Honours.ret (fun w' hR _ k hk => .inl (hk.of_rel hR))
  · refine Honours.act (fun _ _ _ => trivial) (fun available w₁ hmono₁ hI₁ _ hacks₁ => ?_)
    split
    · exact Honours.ret (fun w' hR _ k hk => .inl ((hacks₁ rfl n _ k hk).of_rel hR))
    · refine Safe.bind hI₁ (honours_replicateToPeer (n := n) hI₁ hfits (hmono₁.sourced hsourced)) ?_
      intro ok w₂ _ _ hcounted
      refine Safe.mono (safe_recordExchange (contract_lenient cluster))
        (fun _ w₃ hmono₃ _ hacks₃ k hk => ?_)
      rcases hcounted k (hacks₁ rfl n _ k hk) with hsame | ⟨hmore, hvouched⟩
      · exact .inl (hacks₃ n _ k hsame)
      · exact .inr ⟨hacks₃ n _ _ hmore, hmono₃.vouched hvouched⟩

/-- **The loop over the peers.** The count grows by no more than the number of peers that
    hold the record. -/
theorem safe_rounds {round : ClusterPeer → Program Unit} {key : Bytes} (held : World → Int → Prop)
    (hheld : ∀ {w w' : World} {id : Int}, w.Mono w' → held w id → held w' id) {w₀ : World}
    (hround : ∀ (peer : ClusterPeer) (w : World), w₀.Mono w → P.Inv w →
      Safe clusterRely P τ (fun _ w' => Counted w w' τ n key (held w' peer.brokerId))
        (round peer) w) (peers : List ClusterPeer) (h₀ : w₀.Mono w) (hI : P.Inv w) :
    Safe clusterRely P τ (fun _ w' => ∀ k, Acks w τ n key k →
        ∃ ids : List Int, ids.Sublist (peers.map ClusterPeer.brokerId) ∧
          (∀ id ∈ ids, held w' id) ∧ Acks w' τ n key (k + ids.length))
      (peers.forM round) w := by
  -- on the peers: a round adds its peer to `ids`, or leaves the count as it was
  induction peers generalizing w with
  | nil =>
    refine Safe.ret (fun w' hR _ k hk => ⟨[], List.Sublist.refl _, ?_, hk.of_rel hR⟩)
    exact fun id hid => absurd hid (by simp)
  | cons peer peers ih =>
    refine Safe.bind hI (hround peer w h₀ hI) ?_
    intro _ w₁ hmono₁ hI₁ hcounted
    refine Safe.mono (ih (h₀.trans hmono₁) hI₁) (fun _ w₂ hmono₂ _ hrest k hk => ?_)
    rcases hcounted k hk with hsame | ⟨hmore, hpeer⟩
    · obtain ⟨ids, hsub, hids, hacks⟩ := hrest k hsame
      exact ⟨ids, hsub.cons _, hids, hacks⟩
    · obtain ⟨ids, hsub, hids, hacks⟩ := hrest (k + 1) hmore
      refine ⟨peer.brokerId :: ids, hsub.cons_cons _, fun id hid => ?_, ?_⟩
      · rcases List.mem_cons.mp hid with rfl | hid
        · exact hheld hmono₂ hpeer
        · exact hids id hid
      · rw [List.length_cons, Nat.add_comm ids.length 1, ← Nat.add_assoc]
        exact hacks

/-- The broker itself and enough distinct peers are a majority. -/
theorem majority_of_quorum {config : BrokerConfig} {P : Int → Prop} {ids : List Int}
    (hconfig : config ∈ cluster.brokers)
    (hsub : ids.Sublist (config.peers.map ClusterPeer.brokerId))
    (hquorum : ReplicationManager.quorum config ≤ 1 + ids.length) (hself : P config.brokerId)
    (hids : ∀ id ∈ ids, P id) : World.Majority cluster P := by
  obtain ⟨hnodup, hpeers⟩ := Membership.peers_ids hconfig
  -- the peers' ids are distinct, and none is the broker's own
  have hmem : ∀ id ∈ ids, id ≠ config.brokerId ∧
      id ∈ cluster.brokers.map BrokerConfig.brokerId := by
    intro id hid
    obtain ⟨peer, hpeer, rfl⟩ := List.mem_map.mp (hsub.subset hid)
    obtain ⟨hne, b, hb, hbid⟩ := hpeers peer hpeer
    exact ⟨hne, List.mem_map.mpr ⟨b, hb, hbid⟩⟩
  refine ⟨config.brokerId :: ids, ?_, fun id hid => ?_, ?_⟩
  · exact List.nodup_cons.mpr ⟨fun h => (hmem _ h).1 rfl, hnodup.sublist hsub⟩
  · rcases List.mem_cons.mp hid with rfl | hid
    · exact ⟨List.mem_map.mpr ⟨config, hconfig, rfl⟩, hself⟩
    · exact ⟨(hmem id hid).2, hids id hid⟩
  · have hlen := Membership.length_peers hconfig
    unfold ReplicationManager.quorum at hquorum
    rw [List.length_cons]
    omega

/-- **A call under the mutex.** In between, the thread holds it; what the call returns is
    known for good. -/
theorem safe_withLock (hP : Lenient P) {α : Type} {body : Program α} {Q : α → World → Prop}
    (hat : w.RunsAt τ n) (hQ : ∀ {a w w'}, w.Mono w' → Q a w → Q a w')
    (hbody : ∀ w', w.Mono w' → P.Inv w' → (w'.nodes n).mutex = some τ →
      Safe clusterRely P τ Q body w') :
    Safe clusterRely P τ Q (withLock body) w := by
  unfold withLock
  refine safe_node hat (fun _ _ _ => hP trivial) (fun c _ w₁ w₂ hR hmono hI₂ _ hstep => ?_)
  have hmutex : (w₂.nodes n).mutex = some τ := by
    rw [NodeAct.step] at hstep
    split at hstep
    · rw [← (Prod.mk.inj (Option.some.inj hstep)).2]
    · exact absurd hstep (by simp)
  refine Safe.bind hI₂ (hbody w₂ (hR.1.trans hmono) hI₂ hmutex) (fun a w₃ _ _ ha => ?_)
  refine safe_act (fun _ _ _ => hP trivial) (fun _ w₄ hmono₄ _ _ _ => ?_)
  exact Safe.ret (fun w₅ hR₅ _ => hQ (hmono₄.trans hR₅.1) ha)

/-- Opening the acknowledgements of a record resets its count. -/
theorem acks_openAcks {w₁ w₂ : World} {r : Unit} (hmutex : (w₁.nodes n).mutex = some τ)
    (hstep : (NodeAct.openAcks topic partition offset).step τ (w₁.nodes n) c
      = some (r, w₂.nodes n)) :
    Acks w₂ τ n (makeAckKey topic partition offset) 1 := by
  obtain ⟨-, heq⟩ := Node.locked_eq_some hstep
  have hnode := (Prod.mk.inj heq).2
  unfold Acks
  rw [hnode]
  refine ⟨hmutex, fun count hcount => ?_⟩
  simp only [ReplicationManager.openAcks, Function.update_self, Option.some.injEq] at hcount
  exact hcount.ge

/-- Whoever holds the mutex knows some bound. -/
theorem acks_of_mutex (hmutex : (w.nodes n).mutex = some τ) (key : Bytes) :
    ∃ k, Acks w τ n key k := by
  refine ⟨((w.nodes n).replication.ackCounts key).getD 0, hmutex, fun count hcount => ?_⟩
  rw [hcount, Option.getD_some]

/-- A reached quorum is no more than what has been counted. -/
theorem safe_quorumReached (hP : Lenient P) {k : Nat} (hat : w.RunsAt τ n)
    (hacks : Acks w τ n (makeAckKey topic partition offset) k) :
    Safe clusterRely P τ (fun r _ => r = true → ReplicationManager.quorum (w.nodes n).config ≤ k)
      (node (.quorumReached topic partition offset)) w := by
  refine safe_node hat (fun _ _ _ => hP trivial) (fun c r w₁ w₂ hR hmono _ _ hstep => ?_)
  refine Safe.ret (fun w₃ hR₃ _ hr => ?_)
  subst hr
  obtain ⟨-, heq⟩ := Node.locked_eq_some hstep
  have hreached := (Prod.mk.inj heq).1
  unfold ReplicationManager.quorumReached at hreached
  -- the quorum is computed from the configuration, which never changes
  rw [(hR.1.nodes n).config] at hreached
  split at hreached
  · exact absurd hreached (by simp)
  · next count hcount =>
    exact (of_decide_eq_true hreached.symm).trans ((hacks.of_rel hR).2 count hcount)

/-- What a reached quorum says, whichever peers have answered. -/
theorem safe_quorum_majority (hP : Lenient P) {config : BrokerConfig} {held : World → Int → Prop}
    (hheld : ∀ {w w' : World} {id : Int}, w.Mono w' → held w id → held w' id)
    (hat : w.RunsAt τ n) (hconfig : (w.nodes n).config = config)
    (hmember : config ∈ cluster.brokers) (hself : held w config.brokerId) {ids : List Int}
    (hsub : ids.Sublist (config.peers.map ClusterPeer.brokerId)) (hids : ∀ id ∈ ids, held w id)
    (hacks : Acks w τ n (makeAckKey topic partition offset) (1 + ids.length)) :
    Safe clusterRely P τ (fun r w' => r = true → World.Majority cluster (held w'))
      (node (.quorumReached topic partition offset)) w := by
  refine Safe.mono (safe_quorumReached hP hat hacks) (fun r w' hmono _ hquorum hr => ?_)
  have hle := hquorum hr
  rw [hconfig] at hle
  exact majority_of_quorum hmember hsub hle (hheld hmono hself)
    (fun id hmem => hheld hmono (hids id hmem))

/-- **Replication.** When `replicate_message` returns true, a majority vouches for the
    record. -/
theorem honours_replicateMessage {config : BrokerConfig} (hat : w.RunsAt τ n)
    (hconfig : (w.nodes n).config = config) (hmember : config ∈ cluster.brokers)
    (hid : config.brokerId = n)
    (hfits : (replicationRequest topic partition offset message).Fits)
    (hsourced : w.Sourced topic partition offset message)
    (hholds : w.Holds n topic partition offset message) :
    Honours cluster τ (fun r w' => r = true → World.Majority cluster
        (w'.Vouched τ n topic partition offset message))
      (replicateMessage config topic partition offset message) w := by
  have hP : Lenient (contract cluster) := contract_lenient cluster
  refine safe_withLock hP hat
    (fun hmono h hr => World.Mono.majority (fun _ => hmono.vouched) (h hr))
    (fun w₁ hmono₁ hI₁ hmutex => ?_)
  obtain ⟨k₁, hacks₁⟩ := acks_of_mutex hmutex (makeAckKey topic partition offset)
  refine Honours.act (fun _ _ _ => trivial) (fun leader w₂ hmono₂ hI₂ _ hcalm₂ => ?_)
  split
  · exact Honours.ret (fun _ _ _ hr => absurd hr (by simp))
  · refine Honours.node ((hmono₁.trans hmono₂).runsAt hat) (fun _ _ _ => trivial) ?_
    intro c _ w₃ w₄ hR₃ hmono₄ hI₄ _ hstep
    have hacks₄ : Acks w₄ τ n (makeAckKey topic partition offset) 1 :=
      acks_openAcks ((hcalm₂ rfl n _ k₁ hacks₁).of_rel hR₃).1 hstep
    have hmono : w.Mono w₄ := ((hmono₁.trans hmono₂).trans hR₃.1).trans hmono₄
    -- what the count says at the end, whichever peers have answered
    have hfinal : ∀ (w₅ : World) (ids : List Int), w.Mono w₅ →
        ids.Sublist (config.peers.map ClusterPeer.brokerId) →
        (∀ id ∈ ids, w₅.Vouched τ n topic partition offset message id) →
        Acks w₅ τ n (makeAckKey topic partition offset) (1 + ids.length) →
        Honours cluster τ (fun r w' => r = true → World.Majority cluster
          (w'.Vouched τ n topic partition offset message))
          (node (.quorumReached topic partition offset)) w₅ := by
      intro w₅ ids hmono₅ hsub hids hacks₅
      refine safe_quorum_majority hP (fun hm h => hm.vouched h) (hmono₅.runsAt hat)
        (((hmono₅.nodes n).config).trans hconfig) hmember ?_ hsub hids hacks₅
      rw [hid]
      exact fun _ => ⟨hmono₅.holds hholds, .inl rfl⟩
    split
    · refine Safe.bind hI₄ (hfinal w₄ [] hmono (List.nil_sublist _) (by simp) hacks₄) ?_
      intro r w₅ _ _ hr
      exact Honours.ret (fun w₆ hR₆ _ h => World.Mono.majority (fun _ => hR₆.1.vouched) (hr h))
    · refine Safe.bind hI₄ (safe_rounds (n := n)
        (fun w id => w.Vouched τ n topic partition offset message id) (fun hm h => hm.vouched h)
        (fun peer w₅ hmono₅ _ => honours_replicateRound hfits
          ((hmono.trans hmono₅).sourced hsourced)) config.peers (.refl w₄) hI₄) ?_
      intro _ w₅ hmono₅ hI₅ hrounds
      obtain ⟨ids, hsub, hids, hacks₅⟩ := hrounds 1 hacks₄
      exact hfinal w₅ ids (hmono.trans hmono₅) hsub hids hacks₅

end Replicate

/-! ### Programs that owe nothing but their payload -/

/-- The actions whose precondition is about nothing but their arguments, where the request
    sent is `payload`. -/
def Act.Plain (payload : Bytes) : Act → Prop
  | .node (.append ..) | .node (.markCommitted ..) | .node (.commit ..) => False
  | .net (.sendAck ..) | .net (.respond ..) => False
  | .node (.join _ _ topic _) => topic ≠ []
  | .net (.send _ sent) => sent = payload
  | _ => True

section Plain

variable {cluster : Membership} {τ : Nat} {w : World} {payload : Bytes} {config : BrokerConfig}

/-- Plain programs need no argument of their own. -/
theorem honours_plain {α : Type} {p : Program α} (hp : p.AllActs (Act.Plain payload))
    (hpayload : w.PayloadOk payload) : Honours cluster τ (fun _ _ => True) p w := by
  refine Safe.of_allActs hp (fun a w' hmono ha hI _ => ?_)
  have hsent := World.Mono.payloadOk hmono hpayload
  cases a with
  | node a => cases a <;> trivial
  | net a =>
    cases a with
    | send dest sent =>
      obtain rfl : sent = payload := ha
      exact hsent
    | receive conn => trivial
    | sendAck conn ack => exact ha.elim
    | respond conn response => exact ha.elim

theorem Act.Exchanges.plain (h : a.Exchanges payload) : a.Plain payload := by
  cases a with
  | node a => cases a <;> first | exact h.elim | trivial
  | net a => cases a <;> exact h

/-- A program that talks to other brokers owes them an honest payload. -/
theorem honours_exchanges {α : Type} {p : Program α} (hp : p.AllActs (Act.Exchanges payload))
    (hpayload : w.PayloadOk payload) : Honours cluster τ (fun _ _ => True) p w :=
  honours_plain (hp.mono (fun _ h => h.plain)) hpayload

end Plain

/-! ### Taking up requests of other brokers -/

/-- The connection that a request came in on, if it was another broker's. -/
def World.CameFrom (w : World) (conn : Option Nat) (n : Int) (request : Request) : Prop :=
  ∀ id, conn = some id →
    ∃ c, w.conns[id]? = some c ∧ c.dest = n ∧ parseRequest c.payload = request

section TakingUp

variable {cluster : Membership} {τ : Nat} {w : World} {n : Int} {topic : Bytes} {partition : Int}
  {conn : Option Nat} {request : Request}

/-- Where a request came from does not change. -/
theorem World.Mono.cameFrom {w' : World} (h : w.Mono w') (hw : w.CameFrom conn n request) :
    w'.CameFrom conn n request := by
  intro id hid
  obtain ⟨c, hc, hdest, hrequest⟩ := hw id hid
  obtain ⟨c', hc', hdest', hpayload'⟩ := h.conns id c hc
  exact ⟨c', hc', hdest'.trans hdest, hpayload' ▸ hrequest⟩

/-- What an append does: the record is at the offset that is returned. -/
theorem append_step {message : Bytes} {origin : AppendOrigin} {s s' : Node} {r : Nat}
    (h : (NodeAct.append topic partition message origin).step τ s c = some (r, s')) :
    r = (s.contents (makeKey topic partition)).length ∧ r + 1 < 2 ^ 64 ∧
      s'.contents (makeKey topic partition)
        = s.contents (makeKey topic partition) ++ [message] ∧
      (s'.storage.find? (makeKey topic partition)).isSome := by
  rw [NodeAct.step] at h
  split at h
  · next hroom =>
    obtain ⟨hr, rfl⟩ := Prod.mk.inj (Option.some.inj h)
    have hlen := StorageEngine.append_fst s.disk s.storage topic partition message
    rw [hr] at hlen
    refine ⟨hlen, hlen ▸ hroom, ?_, ?_⟩
    · refine (StorageEngine.contents_append s.disk s.storage topic partition message _).trans ?_
      rw [if_pos rfl]
      rfl
    · show ((s.storage.append (messageLogs s.disk) topic partition message).2.find? _).isSome
      rw [StorageEngine.find?_append, if_pos rfl]
      rfl
  · exact absurd h (by simp)

/-- What was appended is there. -/
theorem World.Holds.of_append {message : Bytes} {origin : AppendOrigin} {w₁ w₂ : World} {r : Nat}
    (h : (NodeAct.append topic partition message origin).step τ (w₁.nodes n) c
      = some (r, w₂.nodes n)) : w₂.Holds n topic partition r message := by
  obtain ⟨hr, -, hcontents, -⟩ := append_step h
  unfold World.Holds
  rw [hcontents, hr, List.getElem?_append_right le_rfl, Nat.sub_self]
  rfl

/-- A follower appends what the leader has sent. -/
theorem honours_appendReplica {message : Bytes} {offset : Nat} (hat : w.RunsAt τ n)
    (hfollower : w.Did τ (.node .isLeader) false)
    (hsourced : w.Honest → w.Sourced topic partition offset message) :
    Honours cluster τ
      (fun r w' => r = true → w'.Holds n topic partition (offset % 2 ^ 64) message)
      (appendReplica topic partition message (offset % 2 ^ 64)) w := by
  unfold appendReplica
  refine Honours.node hat (fun w' hmono _ => ?_) (fun c r w₁ w₂ hR hmono _ _ hstep => ?_)
  · refine ⟨hmono.did hfollower, fun hhonest => ⟨offset, rfl, ?_⟩⟩
    exact hmono.sourced (hsourced (hmono.honest hhonest))
  · refine Honours.ret (fun w₃ hR₃ _ hr => ?_)
    rw [← of_decide_eq_true hr]
    exact hR₃.1.holds (World.Holds.of_append hstep)

/-- All records of a batch, by induction. -/
theorem honours_appendReplicas {messages : List Bytes} {first : Nat} (hat : w.RunsAt τ n)
    (hI : Inv cluster w) (hfollower : w.Did τ (.node .isLeader) false)
    (hsourced : w.Honest → ∀ (i : Nat) (message : Bytes), messages[i]? = some message →
      w.Sourced topic partition (first + i) message) :
    Honours cluster τ (fun _ _ => True) (appendReplicas topic partition messages first) w := by
  induction messages generalizing first w with
  | nil => exact Honours.ret (fun _ _ _ => trivial)
  | cons message messages ih =>
    unfold appendReplicas
    refine Safe.bind hI (honours_appendReplica hat hfollower
      (fun hhonest => hsourced hhonest 0 message rfl)) ?_
    intro ok w₁ hmono hI₁ _
    split
    · refine ih (hmono.runsAt hat) hI₁ (hmono.did hfollower) (fun hhonest i m hi => ?_)
      -- the rest of the batch starts one offset later
      have := hsourced (hmono.honest hhonest) (i + 1) m hi
      rw [Nat.add_comm i 1, ← Nat.add_assoc] at this
      exact hmono.sourced this
    · exact Honours.ret (fun _ _ _ => trivial)

/-- The ACK to a request that fits the wire fits it too. -/
theorem ack_fits {config : BrokerConfig} (hfits : request.Fits) (hid : IsInt32 config.brokerId)
    {offset : Nat} (hoffset : offset < 2 ^ 64) :
    Request.Fits { type := .ack, topic := request.topic, partition := request.partition,
                   fetchOffset := offset, brokerId := config.brokerId } :=
  { topic := hfits.topic, partition := hfits.partition, message := Nat.zero_le _,
    fetchOffset := hoffset, brokerId := hid,
    groupId := Nat.zero_le _, memberId := Nat.zero_le _, count := Nat.zero_le _,
    messages := fun m hm => absurd hm (by simp),
    type := (by decide : RequestType.ack ≠ .error) }

/-- An ACK of a replication request is true when the broker that sends it holds the record. -/
theorem honours_sendAck {config : BrokerConfig} {offset : Nat} (hmember : config ∈ cluster.brokers)
    (hid : config.brokerId = n) (hfrom : w.CameFrom conn n request) (hfits : request.Fits)
    (hoffset : offset < 2 ^ 64) (hkind : request.type = .replicate ∨ request.type = .batchReplicate)
    (hholds : request.type = .replicate → offset = request.fetchOffset ∧
      w.Holds n request.topic request.partition request.fetchOffset request.message) :
    Honours cluster τ (fun _ _ => True)
      (net (.sendAck conn { type := .ack, topic := request.topic, partition := request.partition,
                            fetchOffset := offset, brokerId := config.brokerId })) w := by
  refine Honours.last (fun w' hmono _ id c hconn hc => ?_) (fun _ _ _ _ _ _ => trivial)
  -- the ACK answers the request that the connection was opened with
  obtain ⟨c', hc', hdest, hrequest⟩ := hmono.cameFrom hfrom id hconn
  rw [hc, Option.some.injEq] at hc'
  subst hc'
  rw [hdest, hrequest]
  refine ⟨ack_fits hfits (cluster.isInt32 config hmember) hoffset, rfl, hkind, fun hrep => ?_⟩
  obtain ⟨rfl, hheld⟩ := hholds hrep
  exact ⟨by rw [hid], hmono.holds hheld⟩

/-- **Taking up a replication request.** The record is one that a leader sent, and an ACK
    goes out only from a broker that holds it. -/
theorem honours_handleReplicationRequest {config : BrokerConfig} {payload : Bytes}
    (hat : w.RunsAt τ n) (hmember : config ∈ cluster.brokers) (hid : config.brokerId = n)
    (hrequest : parseRequest payload = request) (hpayload : w.PayloadOk payload)
    (hfrom : w.CameFrom conn n request) (hfits : request.Fits) :
    Honours cluster τ (fun _ _ => True) (handleReplicationRequest config request conn) w := by
  have hdone : ∀ {w' : World}, Honours cluster τ (fun _ _ => True) (pure () : Program Unit) w' :=
    Honours.ret (fun _ _ _ => trivial)
  unfold handleReplicationRequest
  refine Honours.act (fun _ _ _ => trivial) (fun leader w₁ hmono₁ hI₁ hdid _ => ?_)
  split
  · exact hdone
  · next hkind =>
    simp only [Bool.or_eq_true, Bool.and_eq_true, bne_iff_ne, not_or, not_and, not_not,
      Bool.not_eq_true] at hkind
    obtain ⟨rfl, hkind⟩ := hkind
    split
    · exact hdone
    · have hpayload₁ := hmono₁.payloadOk hpayload
      unfold World.PayloadOk at hpayload₁
      rw [hrequest] at hpayload₁
      have hoffset : (if request.type = .batchReplicate then
          (request.fetchOffset + (request.messages.length - 1)) % 2 ^ 64
          else request.fetchOffset) < 2 ^ 64 := by
        split
        · exact Nat.mod_lt _ (Nat.two_pow_pos 64)
        · exact hfits.fetchOffset
      -- whichever way the records were appended, the ACK that follows is true
      have hack : ∀ {appended : Bool} {w₂ : World}, w₁.Mono w₂ →
          (appended = true → request.type = .replicate →
            w₂.Holds n request.topic request.partition request.fetchOffset request.message) →
          Honours cluster τ (fun _ _ => True) (if (!appended) = true then pure () else
            net (.sendAck conn
              { type := .ack, topic := request.topic, partition := request.partition,
                fetchOffset := if request.type = .batchReplicate then
                    (request.fetchOffset + (request.messages.length - 1)) % 2 ^ 64
                  else request.fetchOffset,
                brokerId := config.brokerId })) w₂ := by
        intro appended w₂ hmono₂ happended
        split
        · exact hdone
        · next hok =>
          refine honours_sendAck hmember hid ((hmono₁.trans hmono₂).cameFrom hfrom) hfits hoffset
            (or_iff_not_imp_left.mpr hkind) (fun hrep => ⟨?_, happended (by simpa using hok) hrep⟩)
          exact if_neg (by rw [hrep]; decide)
      dsimp only
      split
      · next htype =>
        simp only [htype] at hpayload₁
        have happend := @honours_appendReplica cluster τ w₁ n _ _ _ _ (hmono₁.runsAt hat) hdid
          hpayload₁
        rw [Nat.mod_eq_of_lt hfits.fetchOffset] at happend
        exact Safe.bind hI₁ happend (fun _ w₂ hmono₂ _ h => hack hmono₂ (fun hok _ => h hok))
      · next htype =>
        have hbatch : request.type = .batchReplicate := hkind htype
        simp only [hbatch] at hpayload₁
        refine Safe.bind hI₁ (honours_appendReplicas (hmono₁.runsAt hat) hI₁ hdid hpayload₁) ?_
        exact fun _ w₂ hmono₂ _ _ => hack hmono₂ (fun _ hrep => absurd hrep htype)

/-- COMMIT marks what its sender has seen committed. -/
theorem honours_handleCommitRequest {payload : Bytes} (hrequest : parseRequest payload = request)
    (hpayload : w.PayloadOk payload) :
    Honours cluster τ (fun _ _ => True) (handleCommitRequest request) w := by
  unfold handleCommitRequest
  split
  · exact Honours.ret (fun _ _ _ => trivial)
  · next htype =>
    split
    · exact Honours.ret (fun _ _ _ => trivial)
    · next hvalid =>
      refine Honours.last (fun w' hmono _ => ⟨?_, ?_⟩) (fun _ _ _ _ _ _ => trivial)
      · omega
      · intro hhonest
        have hq := hmono.payloadOk hpayload hhonest
        rw [hrequest] at hq
        simp only [not_not.mp htype] at hq
        exact hq

end TakingUp

end StreamingPlatform
