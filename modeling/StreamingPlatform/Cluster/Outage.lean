import StreamingPlatform.Cluster.Forwarding
import StreamingPlatform.Cluster.Threads
import StreamingPlatform.Lib.Progress

namespace StreamingPlatform

open ByteString Interleave World

/-!
# Cluster — requests that meet followers only

A broker that is not the leader hands on what needs one.  An `Outage` is a kind of runs in which
certain requests are taken up by followers only, with a property that their answers are claimed
to have.  Such a request is answered with what `forward_to_leader` returns, and that is what some
other follower has written to the connection in between.  So it is enough to look at
`forward_to_leader`, given that the frames on the connections of the run have the property
(`Outage.Relayed`): then every answer has it (`Outage.answer_of_relayed`).

`Cluster/Leadership` uses this for runs without a leader, `Cluster/Circular` for brokers that
refer to one another.
-/

/-- Runs in which the requests that are `Asked` meet followers, and the property `Answer` of the
    responses to them. -/
structure Outage where
  /-- The steps that the runs consist of. -/
  step : World → Act → Choice → Bool
  envStep : World → EnvStep → Bool
  guard : Guard Act World EnvStep
  Asked : Int → Request → Prop
  Answer : Response → Prop
  /-- What else is true all the time. -/
  Inv : World → Prop
  exec_inv : ∀ {τ a c w r w'}, Inv w → World.exec τ a c w = some (r, w') → Inv w'
  env_inv : ∀ {k e w w' started}, Inv w → World.env k e w = some (w', started) → Inv w'
  forwarded : ∀ {n request}, Asked n request → request.Forwarded
  follower : ∀ {w τ a n request}, Inv w → guard.act w τ a → w.RunsAt τ n → Asked n request →
    (w.nodes n).isLeader = false

namespace Outage

variable (O : Outage)

/-- The machine with the steps of the outage. -/
def machine : Machine Act Act.Result (Option Response) World Choice EnvStep :=
  clusterMachine.restrict O.step O.envStep

/-- What its threads rely on. -/
def rely : Rely O.machine := clusterRely.restrict O.step O.envStep

/-- `X` is true if connection `id` has been opened in the run, whose first connection is `C`,
    with a request that is asked. -/
def Owes (C : Nat) (w : World) (id : Nat) (X : Prop) : Prop :=
  id < C ∨ ∃ c, w.conns[id]? = some c ∧ (O.Asked c.dest (parseRequest c.payload) → X)

/-- What is true of a run that begins with `C` connections: nothing but answers with the property
    goes to its connections. -/
structure Relays (C : Nat) (w : World) : Prop where
  opened : C ≤ w.conns.length
  inv : O.Inv w
  frames : ∀ (id : Nat) (c : Conn), w.conns[id]? = some c → ∀ frame ∈ c.frames,
    O.Owes C w id (∃ response, O.Answer response ∧ serializeResponse response = frame)
  answered : ∀ τ id response r, w.Did τ (.net (.respond (some id) response)) r →
    O.Owes C w id (O.Answer response)

/-- What a thread owes when it writes to a connection; `T` is the first thread of the run. -/
def Pre (T C τ : Nat) (a : Act) (w : World) : Prop :=
  match a with
  | .net (.sendAck conn _) => ∀ id, conn = some id → O.Owes C w id False
  | .net (.respond conn response) =>
    (∀ id, conn = some id → O.Owes C w id (O.Answer response)) ∧
      (T ≤ τ → ∀ n request, w.Serves τ n request → O.Asked n request → O.Answer response)
  | _ => True

variable {O} {T C : Nat} {id : Nat} {X : Prop} {w' : World} {a : Act} {n : Int}

theorem Owes.imp {w : World} {id : Nat} {X Y : Prop} (h : O.Owes C w id X) (hXY : X → Y) :
    O.Owes C w id Y :=
  h.imp_right (fun ⟨c, hc, hX⟩ => ⟨c, hc, fun hasked => hXY (hX hasked)⟩)

/-- Connections keep their requests. -/
theorem Owes.mono {w : World} (h : O.Owes C w id X) (hmono : w.Mono w') : O.Owes C w' id X := by
  refine h.imp_right (fun ⟨c, hc, hX⟩ => ?_)
  obtain ⟨c', hc', hdest, hpayload⟩ := hmono.conns id c hc
  exact ⟨c', hc', by rw [hdest, hpayload]; exact hX⟩

/-- On a connection of the run whose request is asked, what is owed is true. -/
theorem Owes.elim {w : World} (h : O.Owes C w id X) (hC : C ≤ id) {c : Conn}
    (hc : w.conns[id]? = some c) (hasked : O.Asked c.dest (parseRequest c.payload)) : X := by
  rcases h with hlt | ⟨c', hc', hX⟩
  · exact absurd hC (Nat.not_le.mpr hlt)
  · rw [hc, Option.some.injEq] at hc'
    rw [← hc'] at hX
    exact hX hasked

theorem Relays.exec {w : World} (hR : O.Relays C w) {τ : Nat} {c : Choice} {r : a.Result}
    (hpre : O.Pre T C τ a w) (h : World.exec τ a c w = some (r, w')) : O.Relays C w' := by
  have hmono := (World.exec_mono h).1
  refine ⟨hR.opened.trans hmono.length_conns, O.exec_inv hR.inv h, fun id conn hconn frame hframe =>
    Owes.mono ?_ hmono, fun τ' id response r' hdid => Owes.mono ?_ hmono⟩
  · rcases World.exec_conn h hconn with ⟨old, hold, -, -, hwritten⟩ | ⟨-, hnone⟩
    · rcases hwritten frame hframe with hf | ⟨ack, rfl, -⟩ | ⟨response, rfl, rfl⟩
      · exact hR.frames id old hold frame hf
      · exact Owes.imp (hpre id rfl) False.elim
      · exact Owes.imp (hpre.1 id rfl) (fun hanswer => ⟨response, hanswer, rfl⟩)
    · rw [hnone] at hframe
      exact absurd hframe List.not_mem_nil
  · rcases World.did_cases h hdid with hold | hnew
    · exact hR.answered τ' id response r' hold
    · -- the event is the step itself
      cases hnew
      exact hpre.1 id rfl

theorem Relays.env {w : World} (hR : O.Relays C w) {k : Nat} {e : EnvStep}
    {started : Option (Program (Option Response))} (h : World.env k e w = some (w', started)) :
    O.Relays C w' := by
  have hmono := (World.env_mono h).1
  have hframe := (World.env_cases h).1
  refine ⟨hR.opened.trans hmono.length_conns, O.env_inv hR.inv h, fun id c hc frame hf => ?_,
    fun τ id response r hdid => ?_⟩
  · obtain ⟨c₀, hc₀, -, -, hsame⟩ := hframe.conn hc
    exact (hR.frames id c₀ hc₀ frame (hsame ▸ hf)).mono hmono
  · unfold World.Did at hdid
    rw [hframe.history] at hdid
    exact (hR.answered τ id response r hdid).mono hmono

variable (O T C) in
/-- An outage, as a protocol. -/
def protocol : Protocol O.machine O.guard where
  Inv := O.Relays C
  Pre := O.Pre T C
  exec_inv := fun hI _ hpre h => hI.exec hpre (Machine.restrict_exec h).2
  env_inv := fun hI _ h => hI.env (Machine.restrict_env h).2

/-- Actions that write no frame owe nothing. -/
theorem pre_of_mute (h : a.Mute) (τ : Nat) (w : World) : O.Pre T C τ a w := by
  cases a with
  | node a => trivial
  | net a => cases a <;> first | exact h.elim | trivial

/-- A thread that writes to one connection only owes something there. -/
theorem pre_of_repliesOn {conn : Option Nat} (h : a.RepliesOn conn) {τ : Nat} {w : World}
    (hconn : ∀ id, conn = some id → O.Owes C w id False)
    (hserves : T ≤ τ → ∀ n request, w.Serves τ n request → ¬ O.Asked n request) :
    O.Pre T C τ a w := by
  cases a with
  | node a => trivial
  | net a =>
    cases a with
    | send dest payload => trivial
    | receive id => trivial
    | sendAck target ack =>
      obtain rfl : target = conn := h
      exact hconn
    | respond target response =>
      obtain rfl : target = conn := h
      exact ⟨fun id hid => (hconn id hid).imp False.elim,
        fun hlate n request hs hasked => absurd hasked (hserves hlate n request hs)⟩

variable (O T C) in
/-- **Handing on.**  What `forward_to_leader` returns has the property, as long as the frames on
    the connections of the run have it. -/
def Relayed : Prop :=
  ∀ {τ : Nat} {w : World} {n : Int} {request : Request}, w.RunsAt τ n → O.Asked n request →
    parseRequest (encodeRequest request) = request →
      Safe O.rely (O.protocol T C) τ (fun r _ => O.Answer r) (forwardToLeader request) w

/-- What a thread of the run returns. -/
def Answers (O : Outage) (T τ : Nat) (result : Option Response) (w : World) : Prop :=
  T ≤ τ → ∀ n request, w.Serves τ n request → O.Asked n request →
    ∀ response, result = some response → O.Answer response

variable {τ : Nat} {w : World}

/-- A handler of a request that is asked asks for the role first, and is told that its broker is
    not the leader. -/
theorem answer_handleRequest (hrelayed : O.Relayed T C) {config : BrokerConfig} {request : Request}
    (hat : w.RunsAt τ n) (hasked : O.Asked n request)
    (hsame : parseRequest (encodeRequest request) = request) :
    Safe O.rely (O.protocol T C) τ (fun r _ => O.Answer r) (handleRequest config request) w := by
  obtain ⟨handle, hhandle⟩ := handleRequest_forwarded config (O.forwarded hasked)
  rw [hhandle]
  refine Safe.perform (fun w₁ hR₁ hI₁ hG => ⟨trivial, fun _ leader w₂ hexec _ => ?_⟩)
  have hexec := (Machine.restrict_exec hexec).2
  have hat₁ := hR₁.1.runsAt hat
  have hstep := World.exec_node_at hexec hat₁
  obtain rfl : leader = false :=
    (Prod.mk.inj (Option.some.inj hstep)).1.symm.trans (O.follower hI₁.inv hG hat₁ hasked)
  exact hrelayed ((World.exec_mono hexec).1.runsAt hat₁) hasked hsame

theorem answers_serve (hrelayed : O.Relayed T C) {config : BrokerConfig} {payload : Bytes}
    {conn : Option Nat} (hI : O.Relays C w) (hserves : w.Serves τ n (parseRequest payload))
    (hfrom : ∀ id, conn = some id → ∃ c, w.conns[id]? = some c ∧ c.dest = n ∧ c.payload = payload) :
    Safe O.rely (O.protocol T C) τ (O.Answers T τ) (serve config payload conn) w := by
  have hown : ∀ {w' X}, w.Mono w' → (O.Asked n (parseRequest payload) → X) → ∀ id,
      conn = some id → O.Owes C w' id X := by
    intro w' X hmono hX id hid
    obtain ⟨c, hc, rfl, rfl⟩ := hfrom id hid
    exact Owes.mono (.inr ⟨c, hc, hX⟩) hmono
  by_cases hasked : O.Asked n (parseRequest payload)
  · obtain ⟨hprocess, hsame⟩ := processRequest_forwarded config conn (O.forwarded hasked)
    unfold serve
    rw [hprocess]
    refine Safe.bind hI (answer_handleRequest hrelayed hserves.runsAt hasked hsame) ?_
    intro response w₁ hmono₁ _ hanswer
    refine Safe.perform (fun w₂ hR₂ _ _ => ⟨⟨hown (hmono₁.trans hR₂.1) (fun _ => hanswer),
      fun _ _ _ _ _ => hanswer⟩,
      fun _ _ w₃ _ _ => Safe.ret (fun w₄ _ _ _ n' request' _ _ response' heq => ?_)⟩)
    rw [← Option.some.inj heq]
    exact hanswer
  · -- any other request is answered on its own connection
    have hnot : ∀ {w'}, w.Mono w' → ∀ n' request, w'.Serves τ n' request →
        ¬ O.Asked n' request := by
      intro w' hmono n' request hs
      obtain ⟨rfl, rfl⟩ := (hmono.serves hserves).unique hs
      exact hasked
    refine Safe.mono (Safe.of_allActs (repliesOn_serve config payload conn)
      (fun a w' hmono ha _ _ =>
        pre_of_repliesOn ha (hown hmono (fun h => absurd h hasked)) (fun _ => hnot hmono))) ?_
    exact fun _ _ hmono _ _ _ n' request hs h => absurd h (hnot hmono n' request hs)

/-- **Every thread that is started** honours the protocol. -/
theorem answers_program (hrelayed : O.Relayed T C) {k : Nat} {e : EnvStep}
    {prog : Program (Option Response)} (hI : O.Relays C w)
    (h : World.env k e w = some (w', some prog)) :
    Safe O.rely (O.protocol T C) k (O.Answers T k) prog w' := by
  have hI' := hI.env h
  obtain ⟨task, hstarts, htask, rfl⟩ := World.env_started h
  cases hstarts with
  | client n payload =>
    exact answers_serve hrelayed hI' ⟨_, htask, rfl, rfl⟩ (fun id hid => by cases hid)
  | accept id c hc =>
    refine answers_serve hrelayed hI' ⟨_, htask, rfl, rfl⟩ (fun id' hid => ?_)
    obtain rfl := Option.some.inj hid
    obtain ⟨c', hc', hdest, hpayload⟩ := (World.env_mono h).1.conns id c hc
    exact ⟨c', hc', hdest, hpayload⟩
  | heartbeat n =>
    have hmute : (heartbeat (w.nodes n).config).AllActs Act.Mute :=
      .bind (mute_exchanges exchanges_broadcastHeartbeat) (fun _ => .pure _)
    refine Safe.mono (Safe.of_allActs hmute (fun a w'' _ ha _ _ => pre_of_mute ha k w'')) ?_
    rintro result w'' hmono - - - n' request' ⟨task', ht, -, hrequest⟩
    -- a heartbeat round serves no request
    rw [hmono.task htask, Option.some.injEq] at ht
    rw [← ht] at hrequest
    cases hrequest

/-- A thread of before answers on a connection of before. -/
theorem answers_old {prog : Program (Option Response)} (hW : Wired w) (hC : C = w.conns.length)
    (hT : τ < T) (hown : RepliesOwn w τ prog) :
    Safe O.rely (O.protocol T C) τ (O.Answers T τ) prog w := by
  obtain ⟨task, htask, hacts⟩ := hown
  refine Safe.mono (Safe.of_allActs hacts (fun a w' _ ha _ _ => pre_of_repliesOn ha ?_
    (fun hlate => absurd hT (Nat.not_lt.mpr hlate))))
    (fun _ _ _ _ _ hlate => absurd hT (Nat.not_lt.mpr hlate))
  intro id hid
  obtain ⟨c, hc, -, -⟩ := hW.served τ task id htask hid
  rw [hC]
  exact .inl (List.getElem?_eq_some_iff.mp hc).1

/-- **What is handed on is what is answered.**  From a state that any run has reached, an outage
    goes on.  If what `forward_to_leader` returns has the property, then so has every answer to a
    request that is asked and taken up in this time. -/
theorem answer_of_relayed {G : Guard Act World EnvStep} {setup : Setup} {p p' : ClusterPool}
    (hrelayed : O.Relayed p.world.tasks.length p.world.conns.length)
    (h : Reachable clusterMachine G setup.pool p) (hinv : O.Inv p.world)
    (h' : Reachable O.machine O.guard p p') (hnow : ∀ a, O.guard.act p'.world τ a)
    {request : Request} {response : Response} (hlate : p.world.tasks[τ]? = none)
    (hserves : p'.world.Serves τ n request) (hasked : O.Asked n request)
    (hreturned : Returned p' τ response) : O.Answer response := by
  obtain ⟨hW, hown⟩ := wired_invariant h
  have hbefore : ∀ {id c}, p.world.conns[id]? = some c → ∀ X,
      O.Owes p.world.conns.length p.world id X :=
    fun hc _ => .inl (List.getElem?_eq_some_iff.mp hc).1
  have hstart : O.Relays p.world.conns.length p.world := by
    refine ⟨le_rfl, hinv, fun id c hc _ _ => hbefore hc _, fun τ id response r hdid => ?_⟩
    obtain ⟨task, htask, hid⟩ := servesOn_of_responded h hdid
    obtain ⟨c, hc, -, -⟩ := hW.served τ task id htask hid
    exact hbefore hc _
  have hsafe : AllSafe O.rely (O.protocol p.world.tasks.length p.world.conns.length)
      (O.Answers p.world.tasks.length) p := by
    intro τ prog hprog
    have hlt := (List.getElem?_eq_some_iff.mp hprog).1
    rw [length_progs h] at hlt
    exact answers_old hW rfl hlt (hown τ prog hprog)
  obtain ⟨hI', hS', -⟩ := (O.protocol _ _).invariant O.rely
    (fun hI _ henv => answers_program hrelayed hI (Machine.restrict_env henv).2) ⟨id, id⟩
    (J := fun _ => True) (fun _ _ _ _ _ => trivial) (fun _ _ _ _ => trivial) hstart hsafe trivial h'
  have hτ : p.world.tasks.length ≤ τ := List.getElem?_eq_none_iff.mp hlate
  rcases hreturned with ⟨conn, k, hprog⟩ | hprog
  · -- the response is about to be written
    exact (hS' τ _ hprog p'.world (O.rely.refl τ _) hI' (hnow _)).1.2 hτ n request hserves hasked
  · exact hS'.result hI' hprog hτ n request hserves hasked response rfl

end Outage

end StreamingPlatform
