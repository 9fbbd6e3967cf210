import StreamingPlatform.Cluster.Progress

namespace StreamingPlatform

open ByteString Interleave World

/-!
# Cluster — requests that are forwarded for ever

The counterpart of `Cluster/Progress`.  If live followers refer each other to one another
(`Trap`), a request that needs a leader is handed on from one to the next without end: each of
them waits, without a timeout, for the answer of the next one.  As long as the brokers stay so
and nothing goes wrong, no such request is ever answered, not even with an error, and the
threads that serve it do not finish (`never_answered`).  Clocks, heartbeats and further clients
make no difference.
-/

/-- The cluster when nothing goes wrong, with all that clients and timers do. -/
def steadyMachine : Machine Act Act.Result (Option Response) World Choice EnvStep :=
  clusterMachine.restrict smooth (fun _ => EnvStep.harmless)

/-- The brokers of `S` are up, none of them is leader, and they refer to one another. -/
def Trap (S : Int → Prop) (w : World) : Prop :=
  ∀ n, S n → ∃ d, w.refersTo n = some d ∧ S d

/-- Runs in which `S` stays a trap. -/
def trapped (S : Int → Prop) : Guard Act World EnvStep where
  act w _ _ := Trap S w
  env w _ := Trap S w

variable {S : Int → Prop} {n : Int} {ids : List Int}

theorem Trap.alive {S : Int → Prop} {w : World} (h : Trap S w) {n : Int} (hn : S n) :
    (w.nodes n).alive = true := by
  obtain ⟨d, hd, -⟩ := h n hn
  exact (refersTo_eq_some.mp hd).1.1

theorem Trap.follower {w : World} (h : Trap S w) (hn : S n) : (w.nodes n).isLeader = false := by
  obtain ⟨d, hd, -⟩ := h n hn
  exact (refersTo_eq_some.mp hd).1.2

/-- They name a leader among themselves. -/
theorem Trap.endpoint {w : World} (h : Trap S w) (hn : S n) :
    ∃ e, (w.nodes n).config.getLeaderEndpoint (w.nodes n).leaderBrokerId = some e ∧
      S e.brokerId := by
  obtain ⟨d, hd, hS⟩ := h n hn
  obtain ⟨-, -, e, he, rfl⟩ := refersTo_eq_some.mp hd
  exact ⟨e, he, hS⟩

/-! ### Socket operations when nothing goes wrong -/

section Net

variable {w w' : World} {τ : Nat} {c : Choice}

/-- A live broker is reached. -/
theorem sent_of_alive {dest : Int} {payload : Bytes} {r : SendResult}
    (hsmooth : smooth w (.net (.send dest payload)) c = true)
    (halive : (w.nodes dest).alive = true)
    (h : World.exec τ (.net (.send dest payload)) c w = some (r, w')) :
    r = .sent w.conns.length ∧
      w'.conns = w.conns ++ [{ dest := dest, payload := payload }] := by
  obtain ⟨task, conns, -, hstep, rfl⟩ := exec_net h
  cases c with
  | succeeds =>
    obtain ⟨rfl, rfl⟩ := Prod.mk.inj (Option.some.inj hstep)
    exact ⟨rfl, rfl⟩
  | fails =>
    have hdown : (!(w.nodes dest).alive) = true := hsmooth
    rw [halive] at hdown
    exact absurd hdown (by decide)
  | writeFails => cases hsmooth
  | times n => cases hsmooth

variable {id : Nat}

/-- A read ends with something to read or after the last frame. -/
theorem readable_or_over {r : Option Bytes} (hsmooth : smooth w (.net (.receive id)) c = true)
    (h : World.exec τ (.net (.receive id)) c w = some (r, w')) :
    w.readable id = true ∨ w.over id = true := by
  obtain ⟨task, conns, -, hstep, -⟩ := exec_net h
  cases c with
  | succeeds =>
    simp only [NetAct.step] at hstep
    split at hstep
    · next frame hframe =>
      refine .inl ?_
      rw [World.readable, hframe]
      rfl
    · cases hstep
  | fails =>
    have hboth : (w.over id && !w.readable id) = true := hsmooth
    exact .inr (Bool.and_eq_true_iff.mp hboth).1
  | writeFails => cases hsmooth
  | times n => cases hsmooth

/-- What it means for an answer to be on record. -/
theorem did_of_responds (h : w.history.any (Event.responds id) = true) :
    ∃ τ response r, w.Did τ (.net (.respond (some id) response)) r := by
  obtain ⟨⟨τ, a, r⟩, he, hresponds⟩ := List.any_eq_true.mp h
  unfold Event.responds at hresponds
  split at hresponds
  · next conn response heq =>
    obtain rfl : a = .net (.respond conn response) := heq
    obtain rfl : conn = some id := of_decide_eq_true hresponds
    exact ⟨τ, response, r, he⟩
  · cases hresponds

/-- Nobody answers on a connection that nobody serves. -/
theorem unserved_unanswered {G : Guard Act World EnvStep} {setup : Setup} {p : ClusterPool}
    (h : Reachable clusterMachine G setup.pool p) (hnobody : ∀ τ, ¬ p.world.ServesOn τ id) :
    p.world.history.any (Event.responds id) = false := by
  by_contra hany
  rw [Bool.not_eq_false] at hany
  obtain ⟨τ, response, r, hdid⟩ := did_of_responds hany
  exact hnobody τ (servesOn_of_responded h hdid)

end Net

/-! ### Silence -/

/-- Runs in the trap: what needs a leader is not answered at all. -/
def silence (S : Int → Prop) : Outage where
  step := smooth
  envStep _ := EnvStep.harmless
  guard := trapped S
  Asked n request := S n ∧ request.Forwarded
  Answer _ := False
  Inv _ := True
  exec_inv := fun _ _ => trivial
  env_inv := fun _ _ => trivial
  forwarded := And.right
  follower := fun _ hG _ hasked => Trap.follower hG hasked.1

/-- **Forwarding does not come back**: the next broker of the trap is up, so it is reached, and
    it never answers. -/
theorem relayed_silence {T C : Nat} : (silence S).Relayed T C := by
  rintro τ w n request hat ⟨hn, hforwarded⟩ hsame
  unfold forwardToLeader
  refine Safe.perform (fun w₁ hR₁ _ hG₁ => ⟨trivial, fun c₁ endpoint w₂ hexec₁ _ => ?_⟩)
  obtain ⟨e, he, hSe⟩ := Trap.endpoint hG₁ hn
  have hstep := World.exec_node_at (Machine.restrict_exec hexec₁).2 (hR₁.1.runsAt hat)
  obtain rfl : endpoint = some e := (Prod.mk.inj (Option.some.inj hstep)).1.symm.trans he
  refine Safe.perform (fun w₃ _ hI₃ hG₃ => ⟨trivial, fun c₃ sent w₄ hexec₃ hI₄ => ?_⟩)
  obtain ⟨hsmooth₃, hsend⟩ := Machine.restrict_exec hexec₃
  obtain ⟨rfl, hconns⟩ := sent_of_alive hsmooth₃ (Trap.alive hG₃ hSe) hsend
  -- the new connection is one of those that stay silent
  have hopened : w₄.conns[w₃.conns.length]?
      = some { dest := e.brokerId, payload := encodeRequest request } := by
    rw [hconns]
    exact List.getElem?_concat_length
  refine Safe.perform (fun w₅ hR₅ hI₅ hG₅ => ⟨trivial, fun c₅ frame w₆ hexec₅ _ => ?_⟩)
  obtain ⟨hsmooth₅, hreceive⟩ := Machine.restrict_exec hexec₅
  obtain ⟨conn, hconn, hdest, hpayload⟩ := hR₅.1.conns _ _ hopened
  have hasked : (silence S).Asked conn.dest (parseRequest conn.payload) := by
    rw [hdest, hpayload, hsame]
    exact ⟨hSe, hforwarded⟩
  exfalso
  rcases readable_or_over hsmooth₅ hreceive with hreadable | hover
  · rw [World.readable, hconn, Option.bind_some] at hreadable
    obtain ⟨frame, hframe⟩ := Option.isSome_iff_exists.mp hreadable
    obtain ⟨_, hfalse, _⟩ := (hI₅.frames _ conn hconn frame (List.mem_of_mem_head? hframe)).elim
      hI₃.opened hconn hasked
    exact hfalse
  · rw [World.over, hconn] at hover
    dsimp only at hover
    rw [hdest, Trap.alive hG₅ hSe, Bool.not_true, Bool.false_or] at hover
    obtain ⟨τ', response, r, hdid⟩ := did_of_responds hover
    exact (hI₅.answered τ' _ response r hdid).elim hI₃.opened hconn hasked

/-- **Requests that are forwarded in a circle are never answered.**  From a state that any run has
    reached the cluster goes on without anything going wrong, and all the while the brokers of
    `S` are live followers that refer to one another.  Then no request that needs a leader and is
    taken up by one of them in this time is ever answered, in whatever order things happen. -/
theorem never_answered {G : Guard Act World EnvStep} {setup : Setup} {p p' : ClusterPool}
    {S : Int → Prop} (h : Reachable clusterMachine G setup.pool p)
    (h' : Reachable steadyMachine (trapped S) p p') (hnow : Trap S p'.world) {τ : Nat} {n : Int}
    {request : Request} {response : Response} (hlate : p.world.tasks[τ]? = none)
    (hserves : p'.world.Serves τ n request) (hn : S n) (hforwarded : request.Forwarded) :
    ¬ Returned p' τ response := by
  exact Outage.answer_of_relayed (O := silence S) relayed_silence h trivial h' (fun _ => hnow) hlate
    hserves ⟨hn, hforwarded⟩

/-- The check for `trapped`, with the brokers of the trap listed. -/
def trapped? (ids : List Int) (p : ClusterPool) (_ : Label Choice EnvStep) : Bool :=
  ids.all (fun n => (p.world.refersTo n).any (fun d => ids.contains d))

theorem trap_of_trapped? {p : ClusterPool} {l : Label Choice EnvStep}
    (h : trapped? ids p l = true) : Trap (· ∈ ids) p.world := by
  intro n hn
  have hany := List.all_eq_true.mp h n hn
  cases hd : p.world.refersTo n with
  | none =>
    rw [hd] at hany
    cases hany
  | some d =>
    rw [hd] at hany
    exact ⟨d, rfl, List.contains_iff_mem.mp hany⟩

theorem trapped_allows (p : ClusterPool) (l : Label Choice EnvStep) (h : trapped? ids p l = true) :
    (trapped (· ∈ ids)).Allows p l := by
  cases l with
  | run τ c => exact fun _ _ _ => trap_of_trapped? h
  | env e => exact trap_of_trapped? h

/-- The thread serves a request that one of the brokers hands on. -/
def handsOn (ids : List Int) (w : World) (τ : Nat) : Bool :=
  (w.tasks[τ]?).any (fun task => ids.contains task.node &&
    task.request?.any (fun request => decide request.Forwarded))

theorem serves_of_handsOn {w : World} {τ : Nat} (h : handsOn ids w τ = true) :
    ∃ n request, w.Serves τ n request ∧ n ∈ ids ∧ request.Forwarded := by
  unfold handsOn at h
  cases htask : w.tasks[τ]? with
  | none =>
    rw [htask] at h
    cases h
  | some task =>
    rw [htask, Option.any_some, Bool.and_eq_true] at h
    obtain ⟨hnode, hrequest⟩ := h
    cases hr : task.request? with
    | none =>
      rw [hr] at hrequest
      cases hrequest
    | some request =>
      rw [hr, Option.any_some] at hrequest
      exact ⟨task.node, request, ⟨task, htask, rfl, hr⟩, List.contains_iff_mem.mp hnode,
        of_decide_eq_true hrequest⟩

/-- Broker 2, which is not the lowest, was leader and has held an election.  A record for broker
    1 has been handed on three times since. -/
theorem never_answered_two :
    ∃ p p' : ClusterPool, Reachable clusterMachine healthy ledByTwo.pool p ∧
      Reachable steadyMachine (trapped (· ∈ [1, 2])) p p' ∧
      nextAct? p' 1 = some (.net (.receive 0)) ∧ nextAct? p' 2 = some (.net (.receive 1)) ∧
      nextAct? p' 3 = some (.net (.receive 2)) ∧
      ∀ τ ∈ [1, 2, 3], ∀ response, ¬ Returned p' τ response := by
  obtain ⟨p, h, htasks, hrun⟩ := clusterMachine.exists_reachable healthy_allows
    (fun p => p.world.tasks.length = 1 ∧
      (steadyMachine.run (trapped? [1, 2]) p ([.env (.client 1 (produceOf [65]))] ++ go 1 3 ++
        [.env (.accept 0)] ++ go 2 3 ++ [.env (.accept 1)] ++ go 3 3)).any (fun p' => decide
          ((nextAct? p' 1 = some (.net (.receive 0)) ∧ nextAct? p' 2 = some (.net (.receive 1)) ∧
            nextAct? p' 3 = some (.net (.receive 2))) ∧
          trapped? [1, 2] p' (.run 0 .succeeds) = true ∧
          [1, 2, 3].all (handsOn [1, 2] p'.world) = true)) = true)
    ledByTwo.pool ([.env (.heartbeat 2)] ++ go 0 2) (by decide +kernel)
  obtain ⟨p', h', ⟨hone, htwo, hthree⟩, htrap, hserves⟩ :=
    steadyMachine.exists_of_run trapped_allows _ hrun
  refine ⟨p, p', h, h', hone, htwo, hthree, fun τ hτ response => ?_⟩
  obtain ⟨n, request, hs, hn, hforwarded⟩ := serves_of_handsOn (List.all_eq_true.mp hserves τ hτ)
  have hlater : ∀ τ ∈ [1, 2, 3], 1 ≤ τ := by decide
  have hlate : p.world.tasks[τ]? = none := by
    rw [List.getElem?_eq_none_iff, htasks]
    exact hlater τ hτ
  exact never_answered h h' (trap_of_trapped? htrap) hlate hs hn hforwarded

end StreamingPlatform
