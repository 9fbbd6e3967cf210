import StreamingPlatform.Cluster.Circular
import StreamingPlatform.Network.WorkerPool

namespace StreamingPlatform

open ByteString Interleave World

/-!
# Cluster — running out of workers

A broker serves connections with a fixed number of worker threads, and a worker is bound to its
connection while it serves a request.  So at most `W` requests are under way at a broker at a
time (`workers`, `workers_of_pool`); what comes in meanwhile waits in a queue.
`Cluster/Progress` does without this limit, and with it there are deadlocks.

Threads wait for each other in three ways: for a mutex, for the answer of whoever serves a
connection, and for a worker of a broker that has none left.  A set of threads each of which
waits for others of the set (`Deadlocked`) stays as it is, whatever the rest of the cluster
does while nothing goes wrong (`deadlock_lasts`).  Such states are reached by ordinary traffic: a
follower whose workers all wait for records that they have forwarded, and the leader, which waits
for the follower's acknowledgement with its mutex held (`deadlock_lasts_two`).
-/

/-! ### Workers -/

variable {n : Int} {task : Task} {c : Choice} {a : Act} {r : a.Result}

theorem World.occupies_task {w : World} {n : Int} {τ : Nat} (h : w.occupies n τ = true) :
    ∃ task, w.tasks[τ]? = some task ∧ task.node = n ∧ task.source ≠ .heartbeat := by
  unfold occupies at h
  rw [Bool.and_eq_true] at h
  cases htask : w.tasks[τ]? with
  | none =>
    rw [htask] at h
    exact by cases h.1
  | some task =>
    rw [htask, Option.any_some, Bool.and_eq_true] at h
    exact ⟨task, rfl, eq_of_beq h.1.1, by simpa using h.1.2⟩

/-- Different threads occupy different workers. -/
theorem World.le_busy {w : World} {l : List Nat} (hnodup : l.Nodup)
    (hl : ∀ τ ∈ l, w.occupies n τ = true) : l.length ≤ w.busy n := by
  refine (hnodup.subperm (fun τ hτ => ?_)).length_le
  obtain ⟨task, htask, -, -⟩ := occupies_task (hl τ hτ)
  exact List.mem_filter.mpr
    ⟨List.mem_range.mpr (List.getElem?_eq_some_iff.mp htask).1, hl τ hτ⟩

/-- What an event makes of the threads that have answered. -/
theorem World.hasResponded_concat {w w' : World} {e : Event}
    (h : w'.history = w.history ++ [e]) (τ : Nat) :
    w'.hasResponded τ = (w.hasResponded τ || (e.thread == τ && e.act.responds)) := by
  unfold hasResponded
  rw [h, List.any_append, List.any_cons, List.any_nil, Bool.or_false]

/-- A thread that is started for a request occupies a worker. -/
theorem World.busy_start {w w' : World} (htasks : w'.tasks = w.tasks ++ [task])
    (hhistory : w'.history = w.history) (hran : ∀ e ∈ w.history, e.thread < w.tasks.length)
    (hsource : task.source ≠ .heartbeat) : w'.busy task.node = w.busy task.node + 1 := by
  have hsame : ∀ τ, w'.hasResponded τ = w.hasResponded τ := fun τ => by
    unfold hasResponded
    rw [hhistory]
  have hfresh : w.hasResponded w.tasks.length = false := by
    refine List.any_eq_false.mpr (fun e he => ?_)
    have hne : (e.thread == w.tasks.length) = false := by
      have hlt := hran e he
      exact beq_false_of_ne (by omega)
    rw [hne]
    exact Bool.false_ne_true
  have hold : ∀ τ ∈ List.range w.tasks.length,
      w'.occupies task.node τ = w.occupies task.node τ := by
    intro τ hτ
    unfold occupies
    rw [hsame, htasks, List.getElem?_append_left (List.mem_range.mp hτ)]
  have hnew : w'.occupies task.node w.tasks.length = true := by
    unfold occupies
    rw [hsame, hfresh, htasks, List.getElem?_concat_length]
    simpa using hsource
  unfold busy
  rw [htasks, List.length_append, List.length_singleton, List.range_succ, List.filter_append,
    List.length_append, List.filter_congr hold, List.filter_singleton, hnew]
  rfl

/-- A thread that answers gives its worker back. -/
theorem World.busy_respond {w w' : World} {τ : Nat} {conn : Option Nat} {response : Response}
    {r : Unit} (hbusy : w.occupies n τ = true)
    (h : World.exec τ (.net (.respond conn response)) c w = some (r, w')) :
    w'.busy n + 1 = w.busy n := by
  obtain ⟨hhistory, htasks⟩ := World.exec_history h
  obtain ⟨task, htask, -, -⟩ := occupies_task hbusy
  have hlater : ∀ τ', w'.occupies n τ' = (w.occupies n τ' && τ' != τ) := by
    intro τ'
    have hresponded : w'.hasResponded τ' = (w.hasResponded τ' || τ == τ') :=
      (World.hasResponded_concat hhistory τ').trans (by rw [Act.responds, Bool.and_true])
    unfold occupies
    rw [htasks, hresponded, Bool.not_or, ← Bool.and_assoc, bne, Bool.beq_comm]
  have hmem : τ ∈ (List.range w.tasks.length).filter (w.occupies n) :=
    List.mem_filter.mpr ⟨List.mem_range.mpr (List.getElem?_eq_some_iff.mp htask).1, hbusy⟩
  have herase : (List.range w'.tasks.length).filter (w'.occupies n)
      = ((List.range w.tasks.length).filter (w.occupies n)).erase τ := by
    rw [(List.nodup_range.filter _).erase_eq_filter, List.filter_filter, htasks]
    exact List.filter_congr (fun τ' _ => (hlater τ').trans (Bool.and_comm _ _))
  have hpos := List.length_pos_of_mem hmem
  unfold busy
  rw [herase, List.length_erase_of_mem hmem]
  omega

/-- **The guard is what the pool of workers makes of the cluster.**  As long as the threads that
    occupy workers of broker `n` are as many as the requests under way in its pool, a request
    that the pool takes up is one that `workers` admits, and they are as many afterwards; and so
    they are when a request has been answered. -/
theorem workers_of_pool {W : Nat} {s s' : TCPServer} {w w' : World} {i : Nat}
    (h : TCPServer.Reaches (fun _ => True) (TCPServer.start W) s)
    (hran : ∀ e ∈ w.history, e.thread < w.tasks.length) (hbusy : w.busy n = s.underway) :
    (∀ payload, payload ≠ [] → s.move (.read i payload) = some s' →
      (workers W).env w (.client n payload) ∧
        ∀ k started, World.env k (.client n payload) w = some (w', started) →
          w'.busy n = s'.underway) ∧
      ∀ τ conn response c r, s.move (.answered i) = some s' → w.occupies n τ = true →
        World.exec τ (.net (.respond conn response)) c w = some (r, w') →
        w'.busy n = s'.underway := by
  refine ⟨fun payload hne hmove => ?_, fun τ conn response c r hmove hτ hexec => ?_⟩
  · obtain ⟨hlt, hnext⟩ := TCPServer.underway_read h hne hmove
    refine ⟨hbusy.trans_lt hlt, fun k started henv => ?_⟩
    obtain ⟨hframe, hstarted⟩ := World.env_cases henv
    rcases hstarted with ⟨rfl, -⟩ | ⟨task, -, hstarts, -, htasks, -⟩
    · unfold World.env at henv
      dsimp only at henv
      rw [if_neg hne] at henv
      obtain ⟨-, -, heq⟩ := World.start_eq_some henv
      cases heq
    · cases hstarts
      rw [World.busy_start htasks hframe.history hran (fun hsource => by cases hsource), hbusy,
        hnext]
  · have hanswered := TCPServer.underway_answered hmove
    have hgiven := World.busy_respond hτ hexec
    omega

/-! ### Waiting for each other -/

/-- The operations under the mutex, with taking it. -/
def Act.UnderMutex : Act → Prop
  | .node .lock | .node (.openAcks ..) | .node (.handleAck ..) | .node (.quorumReached ..)
  | .node (.markCommitted ..) | .node (.isCommitted ..) | .node (.isPeerAvailable _)
  | .node (.markFollowerFailed _) | .node (.handleHeartbeat _) | .node .maybeElectLeader
  | .node .failExpired => True
  | _ => False

/-- None of them is possible while another thread holds the mutex. -/
theorem NodeAct.own_of_step {a : NodeAct} (ha : Act.UnderMutex (.node a)) {τ holder : Nat}
    {s s' : Node} {r : a.Result} (hmutex : s.mutex = some holder)
    (h : a.step τ s c = some (r, s')) : holder = τ := by
  have hlocked : ∀ {x : a.Result × Node}, s.locked τ x = some (r, s') → holder = τ := by
    intro x hx
    rcases (Node.locked_eq_some hx).1 with hfree | hmine
    · rw [hmutex] at hfree
      cases hfree
    · exact Option.some.inj (hmutex.symm.trans hmine)
  cases a with
  | lock =>
    rw [NodeAct.step, hmutex] at h
    cases h
  | openAcks | handleAck | quorumReached | markCommitted | isCommitted | isPeerAvailable
  | markFollowerFailed | handleHeartbeat | maybeElectLeader | failExpired => exact hlocked h
  | _ => exact ha.elim

/-- `W` workers of broker `n` are occupied by threads of `D`. -/
def World.Exhausted (w : World) (W : Nat) (D : Nat → Prop) (n : Int) : Prop :=
  ∃ l : List Nat, l.Nodup ∧ W ≤ l.length ∧ ∀ τ ∈ l, D τ ∧ w.occupies n τ = true

/-- What thread `τ`, whose next action is `a`, waits for others of `D` for. -/
inductive World.WaitsFor (w : World) (W : Nat) (D : Nat → Prop) (τ : Nat) : Act → Prop where
  /-- The mutex of its broker. -/
  | mutex {a : Act} {n : Int} {holder : Nat} : a.UnderMutex → w.RunsAt τ n →
      (w.nodes n).mutex = some holder → holder ≠ τ → D holder → WaitsFor w W D τ a
  /-- The answer on a connection that is being served. -/
  | answer {id server : Nat} {c : Conn} : w.conns[id]? = some c →
      (w.nodes c.dest).alive = true → c.frames = [] →
      w.history.any (Event.responds id) = false → w.ServesOn server id → D server →
      WaitsFor w W D τ (.net (.receive id))
  /-- A worker that takes up its connection. -/
  | worker {id : Nat} {c : Conn} : w.conns[id]? = some c → (w.nodes c.dest).alive = true →
      c.frames = [] → c.accepted = false → w.Exhausted W D c.dest →
      WaitsFor w W D τ (.net (.receive id))

/-- The threads of `D` wait for each other. -/
def Deadlocked (W : Nat) (D : Nat → Prop) (p : ClusterPool) : Prop :=
  ∀ τ, D τ → ∃ a k, p.progs[τ]? = some (.act a k) ∧ p.world.WaitsFor W D τ a

/-! ### One step -/

section Step

variable {W : Nat} {D : Nat → Prop} {w w' : World} {τ : Nat}

/-- Whoever waits cannot move. -/
theorem World.WaitsFor.not_exec (hw : w.WaitsFor W D τ a)
    (hunanswered : ∀ id c, w.conns[id]? = some c → c.accepted = false →
      w.history.any (Event.responds id) = false) (hsmooth : smooth w a c = true)
    (h : World.exec τ a c w = some (r, w')) : False := by
  -- neither is there anything to read nor is the other end done
  have hsilent : ∀ {id conn}, w.conns[id]? = some conn → (w.nodes conn.dest).alive = true →
      conn.frames = [] → w.history.any (Event.responds id) = false →
      w.readable id = true ∨ w.over id = true → False := by
    intro id conn hconn halive hframes hany hends
    rcases hends with hreadable | hover
    · rw [World.readable, hconn, Option.bind_some, hframes] at hreadable
      cases hreadable
    · rw [World.over, hconn] at hover
      dsimp only at hover
      rw [halive, hany] at hover
      cases hover
  cases hw with
  | mutex hunder hat hmutex hne _ =>
    cases a with
    | node a => exact hne (NodeAct.own_of_step hunder hmutex (World.exec_node_at h hat))
    | net a => exact hunder.elim
  | answer hconn halive hframes hany _ _ =>
    exact hsilent hconn halive hframes hany (readable_or_over hsmooth h)
  | worker hconn halive hframes hfree _ =>
    exact hsilent hconn halive hframes (hunanswered _ _ hconn hfree) (readable_or_over hsmooth h)

theorem World.hasResponded_exec {τ' : Nat} (h : World.exec τ' a c w = some (r, w')) (hne : τ ≠ τ') :
    w'.hasResponded τ = w.hasResponded τ := by
  have hother : (τ' == τ) = false := beq_false_of_ne (Ne.symm hne)
  rw [World.hasResponded_concat (World.exec_history h).1, hother, Bool.false_and, Bool.or_false]

theorem World.Mono.occupies (hmono : w.Mono w') (hsame : w'.hasResponded τ = w.hasResponded τ)
    (h : w.occupies n τ = true) : w'.occupies n τ = true := by
  obtain ⟨task, htask, -, -⟩ := occupies_task h
  unfold World.occupies at h ⊢
  rw [hmono.task htask, hsame]
  rw [htask] at h
  exact h

/-- A connection that another thread serves, or nobody, is left alone by an action. -/
theorem silent_exec (h : World.exec τ a c w = some (r, w')) (htask : w.tasks[τ]? = some task)
    (hreplies : a.RepliesOn task.conn?) {id : Nat} (hnot : ¬ w.ServesOn τ id) {conn : Conn}
    (hconn : w.conns[id]? = some conn) (hframes : conn.frames = []) :
    (∃ conn', w'.conns[id]? = some conn' ∧ conn'.dest = conn.dest ∧ conn'.frames = [] ∧
      conn'.accepted = conn.accepted) ∧
    w'.history.any (Event.responds id) = w.history.any (Event.responds id) := by
  refine ⟨?_, ?_⟩
  · obtain ⟨conn', hconn', hdest, -⟩ := (World.exec_mono h).1.conns id conn hconn
    refine ⟨conn', hconn', hdest, ?_, ?_⟩
    · rcases World.exec_conn h hconn' with ⟨old, hold, -, -, hwritten⟩ | ⟨-, hnone⟩
      · rw [hconn, Option.some.injEq] at hold
        subst hold
        refine List.eq_nil_iff_forall_not_mem.mpr (fun frame hframe => ?_)
        rcases hwritten frame hframe with hf | ⟨ack, rfl, -⟩ | ⟨response, rfl, -⟩
        · rw [hframes] at hf
          exact absurd hf List.not_mem_nil
        · exact hnot ⟨task, htask, Eq.symm hreplies⟩
        · exact hnot ⟨task, htask, Eq.symm hreplies⟩
      · exact hnone
    · rcases World.exec_accepted h hconn' with ⟨old, hold, -, -, hsame⟩ | ⟨rfl, -⟩
      · rw [hconn, Option.some.injEq] at hold
        rw [hsame, hold]
      · exact absurd (List.getElem?_eq_some_iff.mp hconn).1 (lt_irrefl _)
  -- an answer on this connection could only come from who serves it
  · have hevent : Event.responds id ⟨τ, a, r⟩ = false := by
      by_contra hresponds
      rw [Bool.not_eq_false] at hresponds
      unfold Event.responds at hresponds
      split at hresponds
      · next target response heq =>
        obtain rfl : a = .net (.respond target response) := heq
        obtain rfl : target = some id := of_decide_eq_true hresponds
        exact hnot ⟨task, htask, Eq.symm hreplies⟩
      · cases hresponds
    rw [(World.exec_history h).1, List.any_append, List.any_cons, List.any_nil, hevent,
      Bool.or_false, Bool.or_false]

/-- **An action of somebody else** changes nothing for those who wait. -/
theorem World.WaitsFor.exec (hw : w.WaitsFor W D τ a) (hW : Wired w) {τ' : Nat} {a' : Act}
    {r : a'.Result} (h : World.exec τ' a' c w = some (r, w')) (htask : w.tasks[τ']? = some task)
    (hreplies : a'.RepliesOn task.conn?) (hother : ¬ D τ') : w'.WaitsFor W D τ a := by
  have hmono := (World.exec_mono h).1
  cases hw with
  | mutex hunder hat hmutex hne hholder =>
    refine .mutex hunder (hmono.runsAt hat) ?_ hne hholder
    exact (Locks.mutex_exec_other h (fun heq => hother (heq ▸ hholder)) _).mpr hmutex
  | @answer id server conn hconn halive hframes hany hserves hserver =>
    have hnot : ¬ w.ServesOn τ' id := fun hs => hother (hW.alone hs hserves ▸ hserver)
    obtain ⟨⟨conn', hconn', hdest, hframes', -⟩, hany'⟩ :=
      silent_exec h htask hreplies hnot hconn hframes
    refine .answer hconn' ?_ hframes' (hany'.trans hany) (hmono.servesOn hserves) hserver
    rw [hdest, World.exec_alive h]
    exact halive
  | @worker id conn hconn halive hframes hfree hexhausted =>
    -- whoever serves a connection has taken it up
    have hnot : ¬ w.ServesOn τ' id := by
      rintro ⟨task', htask', hid⟩
      obtain ⟨conn', hconn', haccepted, -⟩ := hW.served τ' task' id htask' hid
      rw [hconn, Option.some.injEq] at hconn'
      exact absurd (hfree.symm.trans (hconn' ▸ haccepted)) Bool.false_ne_true
    obtain ⟨⟨conn', hconn', hdest, hframes', haccepted⟩, -⟩ :=
      silent_exec h htask hreplies hnot hconn hframes
    refine .worker hconn' ?_ hframes' (haccepted.trans hfree) ?_
    · rw [hdest, World.exec_alive h]
      exact halive
    · obtain ⟨l, hnodup, hlength, hl⟩ := hexhausted
      refine ⟨l, hnodup, hlength, fun τ'' hτ'' => ⟨(hl τ'' hτ'').1, ?_⟩⟩
      rw [hdest]
      have hne : τ'' ≠ τ' := fun heq => hother (heq ▸ (hl τ'' hτ'').1)
      exact hmono.occupies (World.hasResponded_exec h hne) (hl τ'' hτ'').2

/-- **A step of the environment** that takes up requests only with free workers. -/
theorem World.WaitsFor.env (hw : w.WaitsFor W D τ a) {k : Nat} {e : EnvStep}
    {started : Option (Program (Option Response))} (h : World.env k e w = some (w', started))
    (hharmless : e.harmless = true) (hfree : (workers W).env w e) : w'.WaitsFor W D τ a := by
  have hmono := (World.env_mono h).1
  have hframe := (World.env_cases h).1
  have halive' := World.env_alive h hharmless
  cases hw with
  | @mutex a n holder hunder hat hmutex hne hholder =>
    obtain ⟨now, alive, hn⟩ := hframe.nodes n
    refine .mutex hunder (hmono.runsAt hat) ?_ hne hholder
    rw [hn]
    exact hmutex
  | @answer id server conn hconn halive hframes hany hserves hserver =>
    obtain ⟨conn', hconn', hdest, hpayload⟩ := hmono.conns id conn hconn
    obtain ⟨old, hold, -, -, hsame⟩ := hframe.conn hconn'
    rw [hconn, Option.some.injEq] at hold
    subst hold
    refine .answer hconn' ?_ (hsame.symm.trans hframes) ?_ (hmono.servesOn hserves) hserver
    · rw [hdest, halive']
      exact halive
    · rw [hframe.history]
      exact hany
  | @worker id conn hconn halive hframes hunaccepted hexhausted =>
    -- nobody takes the connection up while all workers are busy
    have hnotaccept : e ≠ .accept id := by
      rintro rfl
      obtain ⟨l, hnodup, hlength, hl⟩ := hexhausted
      have hbusy := World.le_busy hnodup (fun τ' hτ' => (hl τ' hτ').2)
      exact absurd (hfree conn hconn) (Nat.not_lt.mpr (hlength.trans hbusy))
    have hsame : w'.conns[id]? = some conn := by
      rcases World.env_wiring h with ⟨hconns, -⟩ | ⟨id', c', rfl, -, -, hset, -⟩
      · rw [hconns]
        exact hconn
      · rw [hset, List.getElem?_set_ne (fun heq => hnotaccept (congrArg _ heq))]
        exact hconn
    refine .worker hsame (by rw [halive']; exact halive) hframes hunaccepted ?_
    obtain ⟨l, hnodup, hlength, hl⟩ := hexhausted
    refine ⟨l, hnodup, hlength, fun τ' hτ' => ⟨(hl τ' hτ').1, ?_⟩⟩
    refine hmono.occupies ?_ (hl τ' hτ').2
    unfold World.hasResponded
    rw [hframe.history]

end Step

/-! ### Whole runs -/

/-- **A deadlock lasts.**  Let a state that any run has reached be deadlocked: every thread of
    `D` waits for others of `D`.  However the cluster goes on as long as nothing goes wrong (no
    broker crashes and no connection is lost), with workers taking up requests as they are
    free, no thread of `D` ever moves, and they wait for each other for ever. -/
theorem deadlock_lasts {G : Guard Act World EnvStep} {setup : Setup} {p p' : ClusterPool}
    {W : Nat} {D : Nat → Prop} (h : Reachable clusterMachine G setup.pool p)
    (hdead : Deadlocked W D p) (h' : Reachable steadyMachine (workers W) p p') :
    Deadlocked W D p' ∧ ∀ τ, D τ → p'.progs[τ]? = p.progs[τ]? := by
  induction h' with
  | start => exact ⟨hdead, fun _ _ => rfl⟩
  | @step q q' l hto hallow hstep ih =>
    obtain ⟨hq, hsame⟩ := ih
    have hreach : Reachable clusterMachine anyStep setup.pool q :=
      (reachable_anyStep h).trans (reachable_anyStep (Reachable.of_restrict hto))
    obtain ⟨hW, hown⟩ := wired_invariant hreach
    rcases Machine.step_cases hstep with ⟨τ, c, a, k, r, rfl, hprog, hexec, hprogs⟩ |
      ⟨e, started, rfl, henv, hprogs⟩
    · obtain ⟨hsmooth, hexec⟩ := Machine.restrict_exec hexec
      -- the thread that moves is none of `D`
      have hother : ¬ D τ := by
        intro hτ
        obtain ⟨a', k', hprog', hw⟩ := hq τ hτ
        rw [hprog, Option.some.injEq] at hprog'
        cases hprog'
        refine hw.not_exec (fun id c hc hfree => unserved_unanswered hreach ?_) hsmooth hexec
        rintro τ' ⟨task, htask, hid⟩
        obtain ⟨c', hc', haccepted, -⟩ := hW.served τ' task id htask hid
        rw [hc, Option.some.injEq] at hc'
        exact absurd (hfree.symm.trans (hc' ▸ haccepted)) Bool.false_ne_true
      obtain ⟨task, htask, hacts⟩ := hown τ _ hprog
      have hkeep : ∀ τ', D τ' → q'.progs[τ']? = q.progs[τ']? := by
        intro τ' hτ'
        have hne : τ ≠ τ' := fun heq => hother (heq ▸ hτ')
        rw [hprogs, List.getElem?_set_ne hne]
      refine ⟨fun τ' hτ' => ?_, fun τ' hτ' => (hkeep τ' hτ').trans (hsame τ' hτ')⟩
      obtain ⟨a', k', hprog', hw⟩ := hq τ' hτ'
      exact ⟨a', k', (hkeep τ' hτ').trans hprog', hw.exec hW hexec htask hacts.1 hother⟩
    -- the environment may start threads, but it moves none
    · obtain ⟨hharmless, henv⟩ := Machine.restrict_env henv
      have hkeep : ∀ τ', D τ' → q'.progs[τ']? = q.progs[τ']? := by
        intro τ' hτ'
        obtain ⟨a', k', hprog', -⟩ := hq τ' hτ'
        rw [hprogs, List.getElem?_append_left (List.getElem?_eq_some_iff.mp hprog').1]
      refine ⟨fun τ' hτ' => ?_, fun τ' hτ' => (hkeep τ' hτ').trans (hsame τ' hτ')⟩
      obtain ⟨a', k', hprog', hw⟩ := hq τ' hτ'
      exact ⟨a', k', (hkeep τ' hτ').trans hprog', hw.env henv hharmless hallow⟩

/-- The check for `workers`. -/
def workers? (W : Nat) (p : ClusterPool) : Label Choice EnvStep → Bool
  | .run _ _ => true
  | .env (.client n _) => decide (p.world.busy n < W)
  | .env (.accept id) => (p.world.conns[id]?).all (fun c => decide (p.world.busy c.dest < W))
  | .env _ => true

theorem workers_allows {W : Nat} (p : ClusterPool) (l : Label Choice EnvStep)
    (h : workers? W p l = true) : (workers W).Allows p l := by
  cases l with
  | run τ c => exact fun _ _ _ => trivial
  | env e =>
    cases e with
    | client n payload =>
      show p.world.busy n < W
      exact of_decide_eq_true h
    | accept id =>
      intro c hc
      simp only [workers?, hc, Option.all_some] at h
      exact of_decide_eq_true h
    | heartbeat n => trivial
    | tick n d => trivial
    | crash n => trivial

theorem exists_of_nextAct? {p : ClusterPool} {τ : Nat} (h : nextAct? p τ = some a) :
    ∃ k, p.progs[τ]? = some (.act a k) := by
  obtain ⟨prog, hprog, hnext⟩ := Option.bind_eq_some_iff.mp h
  cases prog with
  | ret b => cases hnext
  | act a' k =>
    obtain rfl := Option.some.inj hnext
    exact ⟨k, hprog⟩

/-- What is seen of a connection in the example below. -/
def Conn.seen (c : Conn) : Int × Bool × List Bytes := (c.dest, c.accepted, c.frames)

theorem servesOn_of_map {w : World} {l : List (Int × Option Nat)}
    (h : w.tasks.map (fun task => (task.node, task.conn?)) = l) {τ id : Nat}
    (hx : l[τ]? = some (n, some id)) : w.ServesOn τ id ∧ w.RunsAt τ n := by
  rw [← h, List.getElem?_map] at hx
  obtain ⟨task, htask, heq⟩ := Option.map_eq_some_iff.mp hx
  obtain ⟨hnode, hconn⟩ := Prod.mk.inj heq
  exact ⟨⟨task, htask, hconn⟩, ⟨task, htask, hnode⟩⟩

theorem conn_of_seen {w : World} {seen : List (Int × Bool × List Bytes)}
    (h : w.conns.map Conn.seen = seen) {i : Nat} {x : Int × Bool × List Bytes}
    (hx : seen[i]? = some x) : ∃ c, w.conns[i]? = some c ∧ c.seen = x := by
  rw [← h, List.getElem?_map] at hx
  exact Option.map_eq_some_iff.mp hx

/-- Two workers on each broker.  Those of broker 2 wait for records that they have forwarded;
    broker 1 waits for broker 2 with the first of them and for its own mutex with the second. -/
theorem deadlock_lasts_two :
    ∃ p : ClusterPool, Reachable clusterMachine (workers 2) twoBrokers.pool p ∧
      nextAct? p 0 = some (.net (.receive 0)) ∧ nextAct? p 1 = some (.net (.receive 1)) ∧
      nextAct? p 2 = some (.net (.receive 2)) ∧ nextAct? p 3 = some (.node .lock) ∧
      ∀ p', Reachable steadyMachine (workers 2) p p' →
        ∀ τ < 4, p'.progs[τ]? = p.progs[τ]? := by
  obtain ⟨p, h, ⟨h0, h1, h2, h3⟩, hconns, htasks, ⟨halive1, halive2⟩, hmutex, hanswers,
      hoccupied⟩ := clusterMachine.exists_reachable (workers_allows (W := 2))
    (fun p => (nextAct? p 0 = some (.net (.receive 0)) ∧ nextAct? p 1 = some (.net (.receive 1)) ∧
        nextAct? p 2 = some (.net (.receive 2)) ∧ nextAct? p 3 = some (.node .lock)) ∧
      p.world.conns.map Conn.seen = [(1, true, []), (1, true, []), (2, false, [])] ∧
      p.world.tasks.map (fun task => (task.node, task.conn?))
        = [(2, none), (2, none), (1, some 0), (1, some 1)] ∧
      ((p.world.nodes 1).alive = true ∧ (p.world.nodes 2).alive = true) ∧
      (p.world.nodes 1).mutex = some 2 ∧
      (p.world.history.any (Event.responds 0) = false ∧
        p.world.history.any (Event.responds 1) = false) ∧
      ∀ τ ∈ [0, 1], p.world.occupies 2 τ = true)
    twoBrokers.pool ([.env (.client 2 (produceOf [65]))] ++ go 0 3 ++
      [.env (.client 2 (produceOf [66]))] ++ go 1 3 ++ [.env (.accept 0)] ++ go 2 9 ++
      [.env (.accept 1)] ++ go 3 4) (by decide +kernel)
  -- the first two wait for answers, the third for a worker, the last for the mutex
  have hdead : Deadlocked 2 (· < 4) p := by
    obtain ⟨k0, hk0⟩ := exists_of_nextAct? h0
    obtain ⟨k1, hk1⟩ := exists_of_nextAct? h1
    obtain ⟨k2, hk2⟩ := exists_of_nextAct? h2
    obtain ⟨k3, hk3⟩ := exists_of_nextAct? h3
    obtain ⟨c0, hc0, hseen0⟩ := conn_of_seen hconns (i := 0) rfl
    obtain ⟨c1, hc1, hseen1⟩ := conn_of_seen hconns (i := 1) rfl
    obtain ⟨c2, hc2, hseen2⟩ := conn_of_seen hconns (i := 2) rfl
    obtain ⟨hdest0, hseen0⟩ := Prod.mk.inj hseen0
    obtain ⟨hdest1, hseen1⟩ := Prod.mk.inj hseen1
    obtain ⟨hdest2, hseen2⟩ := Prod.mk.inj hseen2
    obtain ⟨hserves2, -⟩ := servesOn_of_map htasks (τ := 2) rfl
    obtain ⟨hserves3, hat3⟩ := servesOn_of_map htasks (τ := 3) rfl
    intro τ hτ
    match τ, hτ with
    | 0, _ =>
      exact ⟨_, k0, hk0, .answer hc0 (hdest0 ▸ halive1) (Prod.mk.inj hseen0).2 hanswers.1 hserves2
        (by decide)⟩
    | 1, _ =>
      exact ⟨_, k1, hk1, .answer hc1 (hdest1 ▸ halive1) (Prod.mk.inj hseen1).2 hanswers.2 hserves3
        (by decide)⟩
    | 2, _ =>
      refine ⟨_, k2, hk2, .worker hc2 (hdest2 ▸ halive2) (Prod.mk.inj hseen2).2
        (Prod.mk.inj hseen2).1 ⟨[0, 1], by decide, le_rfl, fun τ hτ => ⟨?_, ?_⟩⟩⟩
      · have hlt : ∀ τ ∈ [0, 1], τ < 4 := by decide
        exact hlt τ hτ
      · rw [hdest2]
        exact hoccupied τ hτ
    | 3, _ => exact ⟨_, k3, hk3, .mutex trivial hat3 hmutex (by decide) (by decide)⟩
  exact ⟨p, h, h0, h1, h2, h3, fun p' h' => (deadlock_lasts h hdead h').2⟩

end StreamingPlatform
