import StreamingPlatform.Cluster.Serving

namespace StreamingPlatform

open ByteString Interleave World

/-!
# Cluster — runs and what they return

What it means that a handler has returned a response, what the contract says about it
(`served_of_returned`), and the two small clusters whose schedules are run to exhibit
particular behaviour.
-/

/-! ### Returned responses -/

/-- The handler of thread `τ` has returned `response`: it is about to be written back, or
    the thread has finished. -/
def Returned (p : ClusterPool) (τ : Nat) (response : Response) : Prop :=
  (∃ conn k, p.progs[τ]? = some (.act (.net (.respond conn response)) k)) ∨
    p.progs[τ]? = some (.ret (some response))

variable {p : ClusterPool} {τ : Nat} {n : Int} {a : Act} {c : Choice} {r : a.Result}

/-- Whatever a handler has returned is true. -/
theorem served_of_returned {cluster : Membership} (hI : Inv cluster p.world)
    (hS : AllSafe clusterRely (contract cluster) (Answers cluster) p) {request : Request}
    {response : Response} (hserves : p.world.Serves τ n request) (h : Returned p τ response) :
    p.world.Served cluster τ n request response := by
  rcases h with ⟨conn, k, hprog⟩ | hprog
  · obtain ⟨n', request', hserves', hserved, -⟩ :=
      (hS τ _ hprog p.world (clusterRely.refl τ _) hI trivial).1
    obtain ⟨rfl, rfl⟩ := hserves.unique hserves'
    exact hserved
  · obtain ⟨response', heq, hserved⟩ := hS.result hI hprog n request hserves
    rw [Option.some.inj heq]
    exact hserved

/-- Runs only add. -/
theorem reachable_mono {G : Guard Act World EnvStep} {p' : ClusterPool}
    (h : Reachable clusterMachine G p p') : p.world.Mono p'.world := by
  induction h with
  | start => exact .refl _
  | step l _ _ hstep ih =>
    rcases Machine.step_cases hstep with ⟨τ, c, a, k, r, -, -, hexec, -⟩ |
      ⟨e, started, -, henv, -⟩
    · exact ih.trans (World.exec_mono hexec).1
    · exact ih.trans (World.env_mono henv).1

/-- There is one program for every task. -/
theorem length_progs {G : Guard Act World EnvStep} {setup : Setup}
    (h : Reachable clusterMachine G setup.pool p) : p.progs.length = p.world.tasks.length := by
  induction h with
  | start => rfl
  | step l _ _ hstep ih =>
    rcases Machine.step_cases hstep with ⟨τ, c, a, k, r, -, -, hexec, hprogs⟩ |
      ⟨e, started, -, henv, hprogs⟩
    · rw [hprogs, List.length_set, ih, (World.exec_history hexec).2]
    · obtain ⟨-, ⟨rfl, htasks⟩ | ⟨task, -, -, -, htasks, rfl⟩⟩ := World.env_cases henv
      · rw [hprogs, htasks, Option.toList_none, List.append_nil, ih]
      · rw [hprogs, htasks, Option.toList_some, List.length_append, List.length_append, ih]
        rfl

/-! ### The history

Facts about what has happened, each of the form: of every recorded event of a thread at
broker `n`, `F w n e` is true.  They are kept as soon as `F` is monotone and true of every
new event. -/

/-- Every event of the history satisfies `F`. -/
def Recorded (F : World → Int → Event → Prop) (w : World) : Prop :=
  ∀ e ∈ w.history, ∀ n, w.RunsAt e.thread n → F w n e

section Recorded

variable {F : World → Int → Event → Prop} {w w' : World}

theorem Recorded.exec (hF : ∀ {w w' n e}, w.Mono w' → F w n e → F w' n e) (h : Recorded F w)
    (hexec : World.exec τ a c w = some (r, w')) (hnew : ∀ n, w.RunsAt τ n → F w' n ⟨τ, a, r⟩) :
    Recorded F w' := by
  obtain ⟨hhistory, htasks⟩ := World.exec_history hexec
  intro e he n hn
  have hat : w.RunsAt e.thread n := by
    unfold World.RunsAt at hn ⊢
    rwa [htasks] at hn
  rw [hhistory] at he
  rcases List.mem_append.mp he with he | he
  · exact hF (World.exec_mono hexec).1 (h e he n hat)
  · obtain rfl := List.mem_singleton.mp he
    exact hnew n hat

theorem Recorded.env (hF : ∀ {w w' n e}, w.Mono w' → F w n e → F w' n e) (h : Recorded F w)
    {cluster : Membership} (hI : Inv cluster w) {k : Nat} {e : EnvStep}
    {started : Option (Program (Option Response))}
    (henv : World.env k e w = some (w', started)) : Recorded F w' := by
  have hmono := (World.env_mono henv).1
  intro event hevent n hn
  rw [(World.env_cases henv).1.history] at hevent
  obtain ⟨n₀, hn₀⟩ := hI.ran event hevent
  obtain rfl := (hmono.runsAt hn₀).unique hn
  exact hF hmono (h event hevent n₀ hn₀)

/-- A recorded action and what it says. -/
theorem Recorded.did (h : Recorded F w) (hdid : w.Did τ a r) (hat : w.RunsAt τ n) :
    F w n ⟨τ, a, r⟩ :=
  h _ hdid n hat

end Recorded

/-! ### The logs -/

/-- Only an append changes a log. -/
theorem NodeAct.Effect.contents {s s' : Node} {a : NodeAct} (h : NodeAct.Effect τ s a s') :
    (∀ key, s'.contents key = s.contents key) ∨
      ∃ topic partition message origin, a = .append topic partition message origin ∧
        ∀ key, s'.contents key = if key = makeKey topic partition
          then s.contents key ++ [message] else s.contents key := by
  unfold Node.contents
  rw [h.mono.disk]
  rcases h.storage with heq | ⟨topic, partition, message, origin, rfl, heq⟩
  · rw [heq]
    exact .inl (fun _ => rfl)
  · rw [heq]
    exact .inr ⟨topic, partition, message, origin, rfl, fun key =>
      StorageEngine.contents_append s.disk s.storage topic partition message key⟩

/-- What an action does to the logs of the cluster. -/
theorem World.exec_contents {w w' : World} (h : World.exec τ a c w = some (r, w')) :
    (∀ n key, (w'.nodes n).contents key = (w.nodes n).contents key) ∨
      ∃ topic partition message origin n, a = .node (.append topic partition message origin) ∧
        w.RunsAt τ n ∧
        (w'.nodes n).contents (makeKey topic partition)
          = (w.nodes n).contents (makeKey topic partition) ++ [message] ∧
        ∀ n' key, (n' ≠ n ∨ key ≠ makeKey topic partition) →
          (w'.nodes n').contents key = (w.nodes n').contents key := by
  by_cases hsame : ∀ n key, (w'.nodes n).contents key = (w.nodes n).contents key
  · exact .inl hsame
  -- some log has changed, so the action is an append
  obtain ⟨n, key, hne⟩ : ∃ n key, (w'.nodes n).contents key ≠ (w.nodes n).contents key := by
    simpa only [not_forall] using hsame
  rcases World.exec_effect h n with hnode | ⟨act, rfl, hn, heffect⟩
  · exact absurd (congrArg (Node.contents · key) hnode) hne
  rcases heffect.contents with hnone | ⟨topic, partition, message, origin, rfl, happend⟩
  · exact absurd (hnone key) hne
  refine .inr ⟨topic, partition, message, origin, n, rfl, hn, ?_, fun n' key' hother => ?_⟩
  · rw [happend, if_pos rfl]
  · rcases World.exec_effect h n' with hnode | ⟨act, hact, hn', -⟩
    · rw [hnode]
    · obtain rfl := hn'.unique hn
      rw [happend, if_neg (hother.resolve_left (fun h => h rfl))]

/-- The environment does not touch the logs. -/
theorem World.env_contents {k : Nat} {e : EnvStep} {w w' : World}
    {started : Option (Program (Option Response))}
    (h : World.env k e w = some (w', started)) (n : Int) (key : Bytes) :
    (w'.nodes n).contents key = (w.nodes n).contents key := by
  obtain ⟨now, alive, hn⟩ := (World.env_cases h).1.nodes n
  rw [hn]
  rfl

/-! ### A broker that stays leader -/

/-- Runs in which broker `n` is the leader whenever anything happens. -/
def staysLeader (n : Int) : Guard Act World EnvStep where
  act w _ _ := (w.nodes n).isLeader = true
  env w _ := (w.nodes n).isLeader = true

/-- Whoever asks broker `n` for its role is told that it is the leader. -/
def ToldLeader (n : Int) (_ : World) (n' : Int) (e : Event) : Prop :=
  match e with
  | ⟨_, .node .isLeader, result⟩ => n' = n → (result : Bool) = true
  | _ => True

theorem toldLeader_exec {w w' : World} (hleader : (w.nodes n).isLeader = true)
    (h : Recorded (ToldLeader n) w) (hexec : World.exec τ a c w = some (r, w')) :
    Recorded (ToldLeader n) w' := by
  refine h.exec (fun _ h => h) hexec (fun n' hn' => ?_)
  unfold ToldLeader
  split
  · next heq =>
    cases heq
    rintro rfl
    have hstep := World.exec_node_at hexec hn'
    rw [← (Prod.mk.inj (Option.some.inj hstep)).1]
    exact hleader
  · trivial

/-- The check for `staysLeader`. -/
def staysLeader? (n : Int) (p : ClusterPool) (_ : Label Choice EnvStep) : Bool :=
  (p.world.nodes n).isLeader

theorem staysLeader_allows (n : Int) (p : ClusterPool) (l : Label Choice EnvStep)
    (h : staysLeader? n p l = true) : (staysLeader n).Allows p l := by
  cases l with
  | run τ c => exact fun _ _ _ => h
  | env e => exact h

/-- A thread of a broker that stays leader has not forwarded its request. -/
theorem not_forwarded {w : World} (h : Recorded (ToldLeader n) w) (hn : w.RunsAt τ n) :
    ¬ w.Did τ (.node .isLeader) false :=
  fun hdid => absurd (h.did hdid hn rfl) (by simp)

/-! ### Running schedules -/

/-- The response of a thread that has finished. -/
def finished (p : ClusterPool) (τ : Nat) : Option Response :=
  ((p.progs[τ]?).bind Prog.result?).bind id

theorem returned_of_finished {response : Response} (h : finished p τ = some response) :
    Returned p τ response := by
  obtain ⟨result, hresult, hid⟩ := Option.bind_eq_some_iff.mp h
  obtain rfl : result = some response := hid
  exact .inr (Prog.eq_ret_of_bind hresult)

/-- What thread `τ` does next. -/
def nextAct? (p : ClusterPool) (τ : Nat) : Option Act := (p.progs[τ]?).bind Prog.next?

theorem nextAct?_eq {k : a.Result → Program (Option Response)} (h : p.progs[τ]? = some (.act a k)) :
    nextAct? p τ = some a := by
  rw [nextAct?, h]
  rfl

/-- The check for `brokerTraffic`. -/
def clientTraffic (_ : ClusterPool) : Label Choice EnvStep → Bool
  | .env (.client _ payload) => !(parseRequest payload).type.isInterBroker
  | _ => true

theorem clientTraffic_allows (p : ClusterPool) (l : Label Choice EnvStep)
    (h : clientTraffic p l = true) : brokerTraffic.Allows p l := by
  cases l with
  | run τ c => exact fun _ _ _ => trivial
  | env e =>
    rintro n payload rfl
    simpa [clientTraffic] using h

/-- `n` successful steps of thread `τ`. -/
def go (τ n : Nat) : List (Label Choice EnvStep) := List.replicate n (.run τ .succeeds)

/-! ### Two small clusters -/

/-- Broker `id` of a cluster with the given ids on one host. -/
def localBroker (ids : List Int) (id : Int) : BrokerConfig where
  port := 9000 + id
  brokerId := id
  ipAddress := ofString "127.0.0.1"
  peers := (ids.filter (· ≠ id)).map (fun i => ⟨i, ofString "127.0.0.1", 9000 + i⟩)

/-- A local cluster, as in the integration test. -/
def localCluster (ids : List Int) (hnodup : ids.Nodup) (hint : ∀ id ∈ ids, IsInt32 id) :
    Membership where
  brokers := ids.map (localBroker ids)
  ids_nodup := by
    rw [List.map_map]
    exact (List.map_id ids).symm ▸ hnodup
  isInt32 := by
    intro b hb
    obtain ⟨id, hid, rfl⟩ := List.mem_map.mp hb
    exact hint id hid
  peers_nodup := by
    intro b hb
    obtain ⟨id, hid, rfl⟩ := List.mem_map.mp hb
    refine List.Nodup.map (fun i j hij => (ClusterPeer.mk.inj hij).1) (hnodup.filter _)
  mem_peers := by
    intro b hb peer
    obtain ⟨id, hid, rfl⟩ := List.mem_map.mp hb
    constructor
    · intro hpeer
      obtain ⟨i, hi, rfl⟩ := List.mem_map.mp hpeer
      obtain ⟨hmem, hne⟩ := List.mem_filter.mp hi
      refine ⟨localBroker ids i, List.mem_map.mpr ⟨i, hmem, rfl⟩, fun h => ?_, rfl⟩
      exact absurd (congrArg BrokerConfig.brokerId h) (by simpa [localBroker] using hne)
    · rintro ⟨b', hb', hne, rfl⟩
      obtain ⟨i, hi, rfl⟩ := List.mem_map.mp hb'
      refine List.mem_map.mpr ⟨i, List.mem_filter.mpr ⟨hi, ?_⟩, rfl⟩
      exact decide_eq_true (fun h => hne (h ▸ rfl))

/-- A local cluster started with broker 1 as leader and empty log directories. -/
def freshSetup (cluster : Membership) : Setup where
  cluster := cluster
  type id := if id = 1 then .leader else .follower
  leaderBrokerId _ := 1
  disk _ _ := []

theorem contents_freshSetup (cluster : Membership) (id : Int) (key : Bytes) :
    ((freshSetup cluster).node id).contents key = [] := by
  unfold Setup.node
  split <;> rfl

/-- Brokers 1 and 2. -/
def twoBrokers : Setup :=
  freshSetup (localCluster [1, 2] (by decide) (by decide))

/-- Brokers 1, 2 and 3. -/
def threeBrokers : Setup :=
  freshSetup (localCluster [1, 2, 3] (by decide) (by decide))

/-- Client requests on partition 0 of topic `t`. -/
def produceOf (message : Bytes) : Bytes :=
  encodeRequest { type := .produce, topic := ofString "t", message }

@[inherit_doc produceOf]
def fetchOf (offset : Nat) : Bytes :=
  encodeRequest { type := .fetch, topic := ofString "t", fetchOffset := offset }

theorem parse_produceOf_A : parseRequest (produceOf [65])
    = { type := .produce, topic := ofString "t", message := [65] } := by
  decide +kernel

theorem parse_fetchOf_zero : parseRequest (fetchOf 0)
    = { type := .fetch, topic := ofString "t" } := by
  decide +kernel

/-- Broker 1 replicates a record to broker 2, which acknowledges it. -/
def replicatedProduce : List (Label Choice EnvStep) :=
  [.env (.client 1 (produceOf [65]))] ++ go 0 9 ++ [.env (.accept 0)] ++ go 1 3 ++ go 0 15

/-! ### One broker and a few requests -/

/-- Broker 1 alone. -/
def oneBroker : Setup := freshSetup (localCluster [1] (by decide) (by decide))

/-- Produce a record. -/
def produceTo (topic : Bytes) (partition : Int) : Bytes :=
  encodeRequest { type := .produce, topic, partition, message := [65] }

/-- Join group `g` on topic `t`. -/
def joinBy (memberId : Bytes) : Bytes :=
  encodeRequest { type := .joinGroup, groupId := ofString "g", memberId, topic := ofString "t" }

/-- Leave group `g`, naming some topic. -/
def leaveBy (memberId topic : Bytes) : Bytes :=
  encodeRequest { type := .leaveGroup, groupId := ofString "g", memberId, topic }

end StreamingPlatform
