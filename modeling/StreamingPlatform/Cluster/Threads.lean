import StreamingPlatform.Cluster.BatchQuorum
import StreamingPlatform.Cluster.Election

namespace StreamingPlatform

open ByteString Interleave World

/-!
# Cluster — threads and connections

Who opens a connection, who serves it and who writes to it.  A thread answers on the
connection that its request came in on and on no other (`repliesOn_program`).  A connection is
opened by one action of one thread, is taken up at most once, by a thread that is started for
it, and carries nothing before (`Wired`).  So a frame on a connection was written by the thread
that serves it (`Wired.written`), and a chain of threads each of which waits for the next one
has an end: whoever serves a connection was started after the thread that opened it
(`Wired.later`).
-/

/-! ### Mutex and role -/

/-- The actions that touch the mutex, the role or the leader pointer of their broker. -/
def NodeAct.isControl : NodeAct → Bool
  | .lock | .unlock | .maybeElectLeader => true
  | _ => false

/-- What an action does to the mutex, the role and the leader pointer of its broker. -/
inductive NodeAct.Control (τ : Nat) (s : Node) : NodeAct → Node → Prop where
  | lock : s.mutex = none → Control τ s .lock { s with mutex := some τ }
  | unlock : s.mutex = some τ → Control τ s .unlock { s with mutex := none }
  | elect : s.mayLock τ → Control τ s .maybeElectLeader s.maybeElectLeader
  | other (a : NodeAct) (s' : Node) : a.isControl = false → s'.mutex = s.mutex →
      s'.type = s.type → s'.leaderBrokerId = s.leaderBrokerId → Control τ s a s'

variable {s' : Node} {started : Option (Program (Option Response))} {frame payload : Bytes}
  {dest : Int} {τ' : Nat} {task : Task}

/-- **One action**: nothing but `lock`, `unlock` and an election touches them. -/
theorem NodeAct.step_control {τ : Nat} {s : Node} {a : NodeAct} {c : Choice} {r : a.Result}
    (h : a.step τ s c = some (r, s')) : NodeAct.Control τ s a s' := by
  -- the actions that touch none of the three, with and without the mutex
  have hplain : ∀ {x : a.Result} {t : Node},
      (some (x, t) : Option (a.Result × Node)) = some (r, s') → NodeAct.Control τ s a t →
      NodeAct.Control τ s a s' := by
    intro x t heq ht
    rwa [← (Prod.mk.inj (Option.some.inj heq)).2]
  have hlocked : ∀ {x : a.Result} {t : Node}, s.locked τ (x, t) = some (r, s') →
      NodeAct.Control τ s a t → NodeAct.Control τ s a s' := by
    intro x t heq ht
    rwa [(Prod.mk.inj (Node.locked_eq_some heq).2).2]
  cases a with
  | lock =>
    rw [NodeAct.step] at h
    split at h
    · next hfree => exact hplain h (.lock hfree)
    · exact absurd h (by simp)
  | unlock =>
    rw [NodeAct.step] at h
    split at h
    · next hmine => exact hplain h (.unlock hmine)
    · exact absurd h (by simp)
  | maybeElectLeader =>
    obtain ⟨hmay, -⟩ := Node.locked_eq_some h
    rw [Node.step_maybeElectLeader hmay c] at h
    exact hplain h (.elect hmay)
  | append topic partition message origin =>
    rw [NodeAct.step] at h
    split at h
    · exact hplain h (.other _ _ rfl rfl rfl rfl)
    · exact absurd h (by simp)
  | handleAck id topic partition offset =>
    refine hlocked h ?_
    split
    · exact .other _ _ rfl rfl rfl rfl
    · exact .other _ _ rfl rfl rfl rfl
  | openAcks | markCommitted | markFollowerFailed | handleHeartbeat | failExpired
  | quorumReached | isCommitted | isPeerAvailable =>
    exact hlocked h (.other _ _ rfl rfl rfl rfl)
  | polls => cases c <;> exact hplain h (.other _ _ rfl rfl rfl rfl)
  | _ => exact hplain h (.other _ _ rfl rfl rfl rfl)

theorem Node.mutex_maybeElectLeader (s : Node) : s.maybeElectLeader.mutex = s.mutex := by
  unfold Node.maybeElectLeader
  dsimp only
  split <;> rfl

/-- The mutex is taken, given back or left alone. -/
theorem NodeAct.Control.mutex_cases {τ : Nat} {s : Node} {a : NodeAct}
    (h : NodeAct.Control τ s a s') :
    (a = .lock ∧ s.mutex = none ∧ s'.mutex = some τ) ∨
      (a = .unlock ∧ s.mutex = some τ ∧ s'.mutex = none) ∨
      (a ≠ .lock ∧ a ≠ .unlock ∧ s'.mutex = s.mutex) := by
  cases h with
  | lock hfree => exact .inl ⟨rfl, hfree, rfl⟩
  | unlock hmine => exact .inr (.inl ⟨rfl, hmine, rfl⟩)
  | elect =>
    refine .inr (.inr ⟨?_, ?_, s.mutex_maybeElectLeader⟩)
    · exact fun heq => by cases heq
    · exact fun heq => by cases heq
  | other _ _ hplain hmutex _ _ =>
    refine .inr (.inr ⟨?_, ?_, hmutex⟩)
    · rintro rfl
      cases hplain
    · rintro rfl
      cases hplain

/-- What an action does to the control state of one broker. -/
theorem World.exec_control {w w' : World} {τ : Nat} {a : Act} {c : Choice} {r : a.Result}
    (h : exec τ a c w = some (r, w')) (n : Int) :
    (w'.nodes n = w.nodes n ∧ ¬ ((∃ act, a = .node act) ∧ w.RunsAt τ n)) ∨
      ∃ act, a = .node act ∧ w.RunsAt τ n ∧
        NodeAct.Control τ (w.nodes n) act (w'.nodes n) := by
  cases a with
  | net a =>
    obtain ⟨task, conns, -, -, rfl⟩ := exec_net h
    exact .inl ⟨rfl, fun ⟨⟨_, hact⟩, _⟩ => by cases hact⟩
  | node a =>
    by_cases hn : w.RunsAt τ n
    · exact .inr ⟨a, rfl, hn, NodeAct.step_control (exec_node_at h hn)⟩
    · rcases exec_effect h n with heq | ⟨act, -, hat, -⟩
      · exact .inl ⟨heq, fun hact => hn hact.2⟩
      · exact absurd hat hn

/-- The role and the pointer are as before. -/
def Node.SameRole (s s' : Node) : Prop :=
  s'.type = s.type ∧ s'.leaderBrokerId = s.leaderBrokerId

/-- **Only an election changes roles and pointers.** -/
theorem World.exec_role {w w' : World} {τ : Nat} {a : Act} {c : Choice} {r : a.Result}
    (h : exec τ a c w = some (r, w')) (n : Int) :
    (¬ (a = .node .maybeElectLeader ∧ w.RunsAt τ n) ∧ (w.nodes n).SameRole (w'.nodes n)) ∨
      (a = .node .maybeElectLeader ∧ w.RunsAt τ n ∧
        w'.nodes n = (w.nodes n).maybeElectLeader) := by
  rcases exec_control h n with ⟨heq, hnot⟩ | ⟨act, rfl, hat, hcontrol⟩
  · rw [heq]
    exact .inl ⟨fun hact => hnot ⟨⟨_, hact.1⟩, hact.2⟩, rfl, rfl⟩
  · generalize w'.nodes n = s' at hcontrol ⊢
    cases hcontrol with
    | lock => exact .inl ⟨fun hact => (by cases hact.1), rfl, rfl⟩
    | unlock => exact .inl ⟨fun hact => (by cases hact.1), rfl, rfl⟩
    | elect => exact .inr ⟨rfl, hat, rfl⟩
    | other _ _ hplain _ htype hpointer =>
      refine .inl ⟨fun hact => ?_, htype, hpointer⟩
      rw [Act.node.inj hact.1] at hplain
      cases hplain

/-- The environment does not touch roles. -/
theorem World.env_role {w w' : World} {k : Nat} {e : EnvStep} (h : env k e w = some (w', started))
    (n : Int) : (w.nodes n).SameRole (w'.nodes n) := by
  obtain ⟨now, alive, hn⟩ := (env_cases h).1.nodes n
  rw [hn]
  exact ⟨rfl, rfl⟩

/-! ### Answering on the own connection -/

/-- Frames are written to the connection `conn` only. -/
def Act.RepliesOn (conn : Option Nat) : Act → Prop
  | .net (.sendAck target _) | .net (.respond target _) => target = conn
  | _ => True

/-- Whoever writes no frame writes none elsewhere. -/
theorem Act.Mute.repliesOn {a : Act} (h : a.Mute) (conn : Option Nat) : a.RepliesOn conn := by
  cases a with
  | node a => trivial
  | net a => cases a <;> first | exact h.elim | trivial

/-- A worker answers on its own connection. -/
theorem repliesOn_serve (config : BrokerConfig) (payload : Bytes) (conn : Option Nat) :
    (serve config payload conn).AllActs (Act.RepliesOn conn) := by
  refine .bind ?_ (fun response => .bind (.perform rfl) (fun _ => .pure _))
  unfold processRequest
  dsimp only
  split
  · exact acts_handleInterBrokerRequest
      -- the acknowledgement is the only frame that a handler writes
      (acts_handleReplicationRequest trivial (fun _ _ _ => trivial) (fun _ => rfl))
      trivial trivial (acts_handleCommitRequest trivial)
  · exact (mute_handleRequest _).mono (fun _ h => h.repliesOn conn)

/-- The connection that a thread serves: none for a client's request, whose connection is not
    modelled, and for a heartbeat round. -/
def Task.conn? (task : Task) : Option Nat :=
  match task.source with
  | .peer conn _ => some conn
  | _ => none

/-- **A thread answers on its own connection.** -/
theorem repliesOn_program (config : BrokerConfig) (task : Task) :
    (task.program config).AllActs (Act.RepliesOn task.conn?) := by
  unfold Task.program Task.conn?
  cases task.source with
  | client payload => exact repliesOn_serve config payload none
  | peer conn payload => exact repliesOn_serve config payload (some conn)
  | heartbeat =>
    refine .bind ?_ (fun _ => .pure _)
    exact (mute_exchanges exchanges_broadcastHeartbeat).mono (fun _ h => h.repliesOn none)

/-! ### Openers and servers -/

/-- Who has opened a connection by this action, to whom and with which request. -/
def Event.opens? : Event → Option (Nat × Int × Bytes)
  | ⟨τ, .net (.send dest payload), .sent _⟩ => some (τ, dest, payload)
  | _ => none

/-- A connection belongs to the thread that has opened it. -/
theorem Event.thread_of_opens? {e : Event} {opening : Nat × Int × Bytes}
    (h : e.opens? = some opening) : opening.1 = e.thread := by
  unfold Event.opens? at h
  split at h
  · rw [← Option.some.inj h]
  · exact absurd h (by simp)

namespace World

/-- The connections that have been opened, in this order. -/
def openings (w : World) : List (Nat × Int × Bytes) := w.history.filterMap Event.opens?

/-- Thread `τ` has opened connection `id`. -/
def Opened (w : World) (τ id : Nat) : Prop := ∃ request, w.openings[id]? = some (τ, request)

/-- Thread `τ` serves connection `id`. -/
def ServesOn (w : World) (τ id : Nat) : Prop :=
  ∃ task, w.tasks[τ]? = some task ∧ task.conn? = some id

/-- Thread `τ` has written `frame` to connection `id`. -/
def Wrote (w : World) (τ id : Nat) (frame : Bytes) : Prop :=
  (∃ ack, w.Did τ (.net (.sendAck (some id) ack)) () ∧ frame = encodeRequest ack) ∨
    ∃ response, w.Did τ (.net (.respond (some id) response)) () ∧
      frame = serializeResponse response

namespace Mono

variable {w w' : World} {τ id : Nat}

theorem servesOn (h : w.Mono w') (hw : w.ServesOn τ id) : w'.ServesOn τ id := by
  obtain ⟨task, htask, hconn⟩ := hw
  exact ⟨task, h.task htask, hconn⟩

theorem wrote (h : w.Mono w') (hw : w.Wrote τ id frame) : w'.Wrote τ id frame := by
  rcases hw with ⟨ack, hdid, hframe⟩ | ⟨response, hdid, hframe⟩
  · exact .inl ⟨ack, h.did hdid, hframe⟩
  · exact .inr ⟨response, h.did hdid, hframe⟩

theorem length_conns (h : w.Mono w') : w.conns.length ≤ w'.conns.length := by
  by_contra hlt
  rw [Nat.not_le] at hlt
  obtain ⟨c, hc, -, -⟩ := h.conns _ _ (List.getElem?_eq_getElem hlt)
  exact absurd (List.getElem?_eq_some_iff.mp hc).1 (lt_irrefl _)

end Mono

end World

/-- How connections, threads and history belong together. -/
structure Wired (w : World) : Prop where
  /-- The connections are those that have been opened. -/
  conns : w.openings.map Prod.snd = w.conns.map (fun c => (c.dest, c.payload))
  sent : ∀ τ dest payload id, w.Did τ (.net (.send dest payload)) (.sent id) →
    w.openings[id]? = some (τ, dest, payload)
  openers : ∀ opening ∈ w.openings, opening.1 < w.tasks.length
  /-- A thread serves a connection that was taken up for it, and it alone does. -/
  served : ∀ (τ : Nat) (task : Task) (id : Nat), w.tasks[τ]? = some task →
    task.conn? = some id →
      ∃ c, w.conns[id]? = some c ∧ c.accepted = true ∧ task = ⟨c.dest, .peer id c.payload⟩
  alone : ∀ {τ τ' id}, w.ServesOn τ id → w.ServesOn τ' id → τ = τ'
  taken : ∀ (id : Nat) (c : Conn), w.conns[id]? = some c → c.accepted = true →
    ∃ τ, w.ServesOn τ id
  later : ∀ {τ τ' id}, w.Opened τ id → w.ServesOn τ' id → τ < τ'
  written : ∀ (id : Nat) (c : Conn), w.conns[id]? = some c → ∀ frame ∈ c.frames,
    ∃ τ, w.ServesOn τ id ∧ w.Wrote τ id frame

namespace World

section Steps

variable {w w' : World} {τ : Nat} {a : Act} {c : Choice} {r : a.Result}

/-- What opening a connection does. -/
theorem exec_send {r : SendResult} (h : exec τ (.net (.send dest payload)) c w = some (r, w')) :
    (r = .sent w.conns.length ∧ w'.conns = w.conns ++ [{ dest := dest, payload := payload }]) ∨
      ((∀ id, r ≠ .sent id) ∧ w'.conns = w.conns) := by
  obtain ⟨task, conns, -, hstep, rfl⟩ := exec_net h
  cases c with
  | succeeds =>
    obtain ⟨rfl, rfl⟩ := Prod.mk.inj (Option.some.inj hstep)
    exact .inl ⟨rfl, rfl⟩
  | fails =>
    obtain ⟨rfl, rfl⟩ := Prod.mk.inj (Option.some.inj hstep)
    exact .inr ⟨fun _ => SendResult.noConfusion, rfl⟩
  | writeFails =>
    obtain ⟨rfl, rfl⟩ := Prod.mk.inj (Option.some.inj hstep)
    exact .inr ⟨fun _ => SendResult.noConfusion, rfl⟩
  | times n => exact absurd hstep (by simp [NetAct.step])

/-- What is read from a connection is on it. -/
theorem exec_receive {id : Nat} (h : exec τ (.net (.receive id)) c w = some (some frame, w')) :
    ∃ conn, w.conns[id]? = some conn ∧ conn.frames.head? = some frame := by
  obtain ⟨task, conns, -, hstep, -⟩ := exec_net h
  cases c with
  | succeeds =>
    simp only [NetAct.step] at hstep
    split at hstep
    · next f hf =>
      obtain ⟨conn, hconn, hhead⟩ := Option.bind_eq_some_iff.mp hf
      obtain ⟨hframe, -⟩ := Prod.mk.inj (Option.some.inj hstep)
      exact ⟨conn, hconn, hhead.trans hframe⟩
    · exact absurd hstep (by simp)
  | fails | writeFails | times => exact absurd hstep (by simp [NetAct.step])

/-- What is on record after an action: what was before, or the action itself. -/
theorem did_cases (h : exec τ a c w = some (r, w')) {a' : Act} {r' : a'.Result}
    (hdid : w'.Did τ' a' r') : w.Did τ' a' r' ∨ (⟨τ', a', r'⟩ : Event) = ⟨τ, a, r⟩ := by
  unfold Did at hdid
  rw [(exec_history h).1] at hdid
  exact (List.mem_append.mp hdid).imp_right List.mem_singleton.mp

/-- A thread that has done something is not one that the environment has just started. -/
theorem did_env {cluster : Membership} (hI : Inv cluster w) {k : Nat} {e : EnvStep}
    (h : env k e w = some (w', started)) {n : Int} (hat : w'.RunsAt τ n) (hdid : w'.Did τ a r) :
    w.RunsAt τ n ∧ w.Did τ a r := by
  unfold Did at hdid
  rw [(env_cases h).1.history] at hdid
  obtain ⟨n', hn'⟩ := hI.ran _ hdid
  obtain rfl := ((env_mono h).1.runsAt hn').unique hat
  exact ⟨hn', hdid⟩

/-- The thread that the environment starts. -/
theorem env_started {k : Nat} {e : EnvStep} {prog : Program (Option Response)}
    (h : env k e w = some (w', some prog)) :
    ∃ task, w.Starts e task ∧ w'.tasks[k]? = some task ∧
      prog = task.program (w.nodes task.node).config := by
  rcases (env_cases h).2 with ⟨hnone, -⟩ | ⟨task, rfl, hstarts, -, htasks, hprog⟩
  · cases hnone
  · refine ⟨task, hstarts, ?_, Option.some.inj hprog⟩
    rw [htasks]
    exact List.getElem?_concat_length

/-- The connections that have been opened after an action. -/
theorem openings_exec (h : exec τ a c w = some (r, w')) :
    w'.openings = w.openings ++ (Event.opens? ⟨τ, a, r⟩).toList := by
  unfold openings
  rw [(exec_history h).1, List.filterMap_append]
  rfl

/-- The requests of the connections after an action that opens none. -/
theorem map_conns_exec (h : exec τ a c w = some (r, w'))
    (hnone : Event.opens? ⟨τ, a, r⟩ = none) :
    w'.conns.map (fun c => (c.dest, c.payload)) = w.conns.map (fun c => (c.dest, c.payload)) := by
  -- a frame changes neither where a connection goes nor what it asks
  have hwrite : ∀ target frame, (writeFrame w.conns target frame).map (fun c => (c.dest, c.payload))
      = w.conns.map (fun c => (c.dest, c.payload)) := by
    intro target frame
    refine List.ext_getElem? (fun id => ?_)
    rw [List.getElem?_map, List.getElem?_map, getElem?_writeFrame, Option.map_map]
    congr 1
    funext c
    dsimp only [Function.comp]
    split <;> rfl
  cases a with
  | node a =>
    obtain ⟨task, s', -, -, rfl⟩ := exec_node h
    rfl
  | net a =>
    cases a with
    | send dest payload =>
      rcases exec_send h with ⟨rfl, -⟩ | ⟨-, hconns⟩
      · exact absurd hnone (by simp [Event.opens?])
      · rw [hconns]
    | receive id =>
      obtain ⟨task, conns, -, hstep, rfl⟩ := exec_net h
      rcases NetAct.step_cases hstep with rfl | ⟨_, _, heq, _⟩ | ⟨_, _, heq, _⟩ | ⟨_, _, heq, _⟩
      · rfl
      all_goals cases heq
    | sendAck target ack =>
      obtain ⟨task, conns, -, hstep, rfl⟩ := exec_net h
      rcases NetAct.step_cases hstep with rfl | ⟨_, _, heq, _⟩ | ⟨_, _, -, rfl⟩ | ⟨_, _, heq, _⟩
      · rfl
      · cases heq
      · exact hwrite _ _
      · cases heq
    | respond target response =>
      obtain ⟨task, conns, -, hstep, rfl⟩ := exec_net h
      rcases NetAct.step_cases hstep with rfl | ⟨_, _, heq, _⟩ | ⟨_, _, heq, _⟩ | ⟨_, _, -, rfl⟩
      · rfl
      · cases heq
      · cases heq
      · exact hwrite _ _

/-- A connection after an action was there before and is taken up if it was, or the action has
    just opened it. -/
theorem exec_accepted (h : exec τ a c w = some (r, w')) {id : Nat} {conn : Conn}
    (hconn : w'.conns[id]? = some conn) :
    (∃ old, w.conns[id]? = some old ∧ conn.dest = old.dest ∧ conn.payload = old.payload ∧
      conn.accepted = old.accepted) ∨ (id = w.conns.length ∧ conn.accepted = false) := by
  -- a frame that is written changes none of it
  have hwrite : ∀ target frame, (writeFrame w.conns target frame)[id]? = some conn →
      ∃ old, w.conns[id]? = some old ∧ conn.dest = old.dest ∧ conn.payload = old.payload ∧
        conn.accepted = old.accepted := by
    intro target frame hc
    rw [getElem?_writeFrame] at hc
    obtain ⟨old, hold, rfl⟩ := Option.map_eq_some_iff.mp hc
    refine ⟨old, hold, ?_⟩
    split <;> exact ⟨rfl, rfl, rfl⟩
  cases a with
  | node a =>
    obtain ⟨task, s', -, -, rfl⟩ := exec_node h
    exact .inl ⟨conn, hconn, rfl, rfl, rfl⟩
  | net a =>
    obtain ⟨task, conns, -, hstep, rfl⟩ := exec_net h
    rcases NetAct.step_cases hstep with rfl | ⟨dest, payload, rfl, rfl⟩ | ⟨target, ack, rfl, rfl⟩ |
      ⟨target, response, rfl, rfl⟩
    · exact .inl ⟨conn, hconn, rfl, rfl, rfl⟩
    · rw [← Option.toList_some] at hconn
      rcases getElem?_append_started hconn with hold | ⟨rfl, hnew⟩
      · exact .inl ⟨conn, hold, rfl, rfl, rfl⟩
      · rw [← Option.some.inj hnew]
        exact .inr ⟨rfl, rfl⟩
    · exact .inl (hwrite target _ hconn)
    · exact .inl (hwrite target _ hconn)

/-- **What the environment does to connections and tasks**: it takes up a connection with a
    thread for it, or leaves the connections alone and starts a thread for none of them. -/
theorem env_wiring {k : Nat} {e : EnvStep} (h : env k e w = some (w', started)) :
    (w'.conns = w.conns ∧
      (w'.tasks = w.tasks ∨ ∃ task, task.conn? = none ∧ w'.tasks = w.tasks ++ [task])) ∨
    ∃ id c, e = .accept id ∧ w.conns[id]? = some c ∧ c.accepted = false ∧
      w'.conns = w.conns.set id { c with accepted := true } ∧
      w'.tasks = w.tasks ++ [⟨c.dest, .peer id c.payload⟩] := by
  cases e with
  | client n payload =>
    rw [env] at h
    split at h
    · exact absurd h (by simp)
    · obtain ⟨-, -, heq⟩ := start_eq_some h
      obtain ⟨rfl, -⟩ := Prod.mk.inj heq
      exact .inl ⟨rfl, .inr ⟨_, rfl, rfl⟩⟩
  | accept id =>
    rw [env] at h
    split at h
    · exact absurd h (by simp)
    · next c hc =>
      split at h
      · exact absurd h (by simp)
      · next hfree =>
        obtain ⟨-, -, heq⟩ := start_eq_some h
        obtain ⟨rfl, -⟩ := Prod.mk.inj heq
        exact .inr ⟨id, c, rfl, hc, by simpa using hfree, rfl, rfl⟩
  | heartbeat n =>
    obtain ⟨-, -, heq⟩ := start_eq_some h
    obtain ⟨rfl, -⟩ := Prod.mk.inj heq
    exact .inl ⟨rfl, .inr ⟨_, rfl, rfl⟩⟩
  | tick n d =>
    obtain ⟨rfl, -⟩ := Prod.mk.inj (Option.some.inj h)
    exact .inl ⟨rfl, .inl rfl⟩
  | crash n =>
    obtain ⟨rfl, -⟩ := Prod.mk.inj (Option.some.inj h)
    exact .inl ⟨rfl, .inl rfl⟩

/-- Who serves a connection after a thread has been started. -/
theorem servesOn_append {id : Nat} (htasks : w'.tasks = w.tasks ++ [task]) :
    w'.ServesOn τ id ↔ w.ServesOn τ id ∨ (τ = w.tasks.length ∧ task.conn? = some id) := by
  unfold ServesOn
  rw [htasks]
  constructor
  · rintro ⟨task', htask, hconn⟩
    rw [← Option.toList_some] at htask
    rcases getElem?_append_started htask with hold | ⟨rfl, hnew⟩
    · exact .inl ⟨task', hold, hconn⟩
    · rw [← Option.some.inj hnew] at hconn
      exact .inr ⟨rfl, hconn⟩
  · rintro (⟨task', htask, hconn⟩ | ⟨rfl, hconn⟩)
    · rw [List.getElem?_append_left (List.getElem?_eq_some_iff.mp htask).1]
      exact ⟨task', htask, hconn⟩
    · exact ⟨task, List.getElem?_concat_length, hconn⟩

/-! ### Taking a step -/

/-- A thread of a live broker performs an action on the broker's state that is possible. -/
theorem exec_of_node (htask : w.tasks[τ]? = some task) (halive : (w.nodes task.node).alive = true)
    {a : NodeAct} {r : a.Result} (h : a.step τ (w.nodes task.node) c = some (r, s')) :
    exec τ (.node a) c w = some (r, { w with
      nodes := Function.update w.nodes task.node s'
      history := w.history ++ [⟨τ, .node a, r⟩] }) := by
  simp only [exec, htask, halive, if_true, effect, h, Option.map_some]

/-- It performs a socket operation. -/
theorem exec_of_net (htask : w.tasks[τ]? = some task) (halive : (w.nodes task.node).alive = true)
    {a : NetAct} {r : a.Result} {conns : List Conn} (h : a.step w.conns c = some (r, conns)) :
    exec τ (.net a) c w = some (r, { w with
      conns := conns
      history := w.history ++ [⟨τ, .net a, r⟩] }) := by
  simp only [exec, htask, halive, if_true, effect, h, Option.map_some]

end Steps

end World

/-! ### They belong together in every run -/

namespace Wired

variable {w w' : World}

/-- Every connection was opened once. -/
theorem length_openings (hW : Wired w) : w.openings.length = w.conns.length := by
  simpa using congrArg List.length hW.conns

/-- The opener of a connection. -/
theorem exists_opener (hW : Wired w) {id : Nat} {c : Conn} (hc : w.conns[id]? = some c) :
    ∃ τ, w.openings[id]? = some (τ, c.dest, c.payload) := by
  have hmap := congrArg (·[id]?) hW.conns
  rw [List.getElem?_map, List.getElem?_map, hc] at hmap
  obtain ⟨⟨τ, request⟩, hopen, heq⟩ := Option.map_eq_some_iff.mp hmap
  obtain rfl : request = (c.dest, c.payload) := heq
  exact ⟨τ, hopen⟩

/-- The connection that was opened. -/
theorem conn_of_opening (hW : Wired w) {τ id : Nat}
    (h : w.openings[id]? = some (τ, dest, payload)) :
    ∃ c, w.conns[id]? = some c ∧ c.dest = dest ∧ c.payload = payload := by
  have hmap := congrArg (·[id]?) hW.conns
  rw [List.getElem?_map, List.getElem?_map, h] at hmap
  obtain ⟨c, hc, heq⟩ := Option.map_eq_some_iff.mp hmap.symm
  obtain ⟨hdest, hpayload⟩ := Prod.mk.inj heq
  exact ⟨c, hc, hdest, hpayload⟩

section Exec

variable {τ : Nat} {a : Act} {c : Choice} {r : a.Result}

/-- No action changes who serves a connection. -/
theorem servesOn_exec (h : World.exec τ a c w = some (r, w')) {id : Nat} :
    w'.ServesOn τ' id ↔ w.ServesOn τ' id := by
  unfold ServesOn
  rw [(World.exec_history h).2]

/-- The number of a connection is the place of its opening. -/
theorem sent_exec (hW : Wired w) (h : World.exec τ a c w = some (r, w')) {id : Nat}
    (hdid : w'.Did τ' (.net (.send dest payload)) (.sent id)) :
    w'.openings[id]? = some (τ', dest, payload) := by
  rw [openings_exec h]
  rcases did_cases h hdid with hold | hnew
  · have hbefore := hW.sent τ' dest payload id hold
    rw [List.getElem?_append_left (List.getElem?_eq_some_iff.mp hbefore).1]
    exact hbefore
  · -- the new connection gets the next number
    cases hnew
    rcases exec_send h with ⟨hr, -⟩ | ⟨hr, -⟩
    · cases hr
      rw [← hW.length_openings]
      exact List.getElem?_concat_length
    · exact absurd rfl (hr id)

/-- A new connection has the destination and the payload of its opening. -/
theorem conns_exec (hW : Wired w) (h : World.exec τ a c w = some (r, w')) :
    w'.openings.map Prod.snd = w'.conns.map (fun c => (c.dest, c.payload)) := by
  rw [openings_exec h, List.map_append, hW.conns]
  cases hopens : Event.opens? ⟨τ, a, r⟩ with
  | none =>
    rw [map_conns_exec h hopens, Option.toList_none, List.map_nil, List.append_nil]
  | some opening =>
    unfold Event.opens? at hopens
    split at hopens
    · next heq =>
      cases heq
      obtain rfl := Option.some.inj hopens
      rcases exec_send h with ⟨-, hconns⟩ | ⟨hr, -⟩
      · rw [hconns, List.map_append]
        rfl
      · exact absurd rfl (hr _)
    · exact absurd hopens (by simp)

/-- A new frame was written by whoever serves the connection. -/
theorem written_exec (hW : Wired w) (h : World.exec τ a c w = some (r, w'))
    (htask : w.tasks[τ]? = some task) (hreplies : a.RepliesOn task.conn?) {id : Nat} {conn : Conn}
    (hconn : w'.conns[id]? = some conn) (hframe : frame ∈ conn.frames) :
    ∃ τ', w'.ServesOn τ' id ∧ w'.Wrote τ' id frame := by
  have hmono := (World.exec_mono h).1
  rcases World.exec_conn h hconn with ⟨old, hold, -, -, hwritten⟩ | ⟨-, hnone⟩
  · rcases hwritten frame hframe with hf | ⟨ack, rfl, rfl⟩ | ⟨response, rfl, rfl⟩
    · obtain ⟨τ', hserves, hwrote⟩ := hW.written id old hold frame hf
      exact ⟨τ', hmono.servesOn hserves, hmono.wrote hwrote⟩
    -- the frame has just been written, by the thread that serves the connection
    · exact ⟨τ, (servesOn_exec h).mpr ⟨task, htask, Eq.symm hreplies⟩,
        .inl ⟨ack, World.did_exec h, rfl⟩⟩
    · exact ⟨τ, (servesOn_exec h).mpr ⟨task, htask, Eq.symm hreplies⟩,
        .inr ⟨response, World.did_exec h, rfl⟩⟩
  · rw [hnone] at hframe
    exact absurd hframe List.not_mem_nil

/-- An action of a thread that answers on its own connection. -/
theorem exec (hW : Wired w) (h : World.exec τ a c w = some (r, w'))
    (htask : w.tasks[τ]? = some task) (hreplies : a.RepliesOn task.conn?) : Wired w' := by
  have htasks := (World.exec_history h).2
  have hmono := (World.exec_mono h).1
  refine ⟨hW.conns_exec h, fun _ _ _ _ => hW.sent_exec h, fun opening ho => ?_, ?_, ?_, ?_, ?_,
    fun id conn hconn frame hframe => hW.written_exec h htask hreplies hconn hframe⟩
  · rw [openings_exec h] at ho
    rw [htasks]
    rcases List.mem_append.mp ho with ho | ho
    · exact hW.openers opening ho
    · rw [Event.thread_of_opens? (Option.mem_toList.mp ho)]
      exact (List.getElem?_eq_some_iff.mp htask).1
  · intro τ' task' id ht hid
    rw [htasks] at ht
    obtain ⟨old, hold, haccepted, heq⟩ := hW.served τ' task' id ht hid
    obtain ⟨conn, hconn, hdest, hpayload⟩ := hmono.conns id old hold
    refine ⟨conn, hconn, ?_, by rw [heq, hdest, hpayload]⟩
    rcases World.exec_accepted h hconn with ⟨old', hold', -, -, hsame⟩ | ⟨rfl, -⟩
    · rw [hold, Option.some.injEq] at hold'
      rw [hsame, ← hold', haccepted]
    · exact absurd (List.getElem?_eq_some_iff.mp hold).1 (lt_irrefl _)
  · intro τ₁ τ₂ id h₁ h₂
    exact hW.alone ((servesOn_exec h).mp h₁) ((servesOn_exec h).mp h₂)
  · intro id conn hconn haccepted
    rcases World.exec_accepted h hconn with ⟨old, hold, -, -, hsame⟩ | ⟨-, hfree⟩
    · obtain ⟨τ', hserves⟩ := hW.taken id old hold (hsame ▸ haccepted)
      exact ⟨τ', (servesOn_exec h).mpr hserves⟩
    · exact absurd (hfree.symm.trans haccepted) (by decide)
  · intro τ₁ τ₂ id hopened hserves
    obtain ⟨request, hopened⟩ := hopened
    obtain ⟨task', ht, hid⟩ := (servesOn_exec h).mp hserves
    -- a connection that is served was opened before
    obtain ⟨conn, hconn, -, -⟩ := hW.served τ₂ task' id ht hid
    obtain ⟨τ₀, hbefore⟩ := hW.exists_opener hconn
    rw [openings_exec h, List.getElem?_append_left (List.getElem?_eq_some_iff.mp hbefore).1]
      at hopened
    exact hW.later ⟨request, hopened⟩ ⟨task', ht, hid⟩

end Exec

section Env

variable {k : Nat} {e : EnvStep} {started : Option (Program (Option Response))}

/-- The environment opens nothing. -/
theorem openings_env (h : World.env k e w = some (w', started)) : w'.openings = w.openings := by
  unfold openings
  rw [(World.env_cases h).1.history]

theorem opened_env (h : World.env k e w = some (w', started)) {τ id : Nat} :
    w'.Opened τ id ↔ w.Opened τ id := by
  unfold Opened
  rw [openings_env h]

theorem map_conns_env (h : World.env k e w = some (w', started)) :
    w'.conns.map (fun c => (c.dest, c.payload)) = w.conns.map (fun c => (c.dest, c.payload)) := by
  refine List.ext_getElem? (fun id => ?_)
  have hid := congrArg (Option.map (fun t : Int × Bytes × List Bytes => (t.1, t.2.1)))
    ((World.env_cases h).1.conns id)
  rw [Option.map_map, Option.map_map] at hid
  rw [List.getElem?_map, List.getElem?_map]
  exact hid

/-- It writes nothing either. -/
theorem written_env (hW : Wired w) (h : World.env k e w = some (w', started)) {id : Nat} {c : Conn}
    (hc : w'.conns[id]? = some c) (hf : frame ∈ c.frames) :
    ∃ τ, w'.ServesOn τ id ∧ w'.Wrote τ id frame := by
  have hmono := (World.env_mono h).1
  obtain ⟨c₀, hc₀, -, -, hframes⟩ := (World.env_cases h).1.conn hc
  obtain ⟨τ, hserves, hwrote⟩ := hW.written id c₀ hc₀ frame (hframes ▸ hf)
  exact ⟨τ, hmono.servesOn hserves, hmono.wrote hwrote⟩

/-- Who serves what after the environment has moved. -/
theorem servers_env (hW : Wired w) (h : World.env k e w = some (w', started)) :
    (∀ (τ : Nat) (task : Task) (id : Nat), w'.tasks[τ]? = some task → task.conn? = some id →
      ∃ c, w'.conns[id]? = some c ∧ c.accepted = true ∧ task = ⟨c.dest, .peer id c.payload⟩) ∧
    (∀ (id : Nat) (c : Conn), w'.conns[id]? = some c → c.accepted = true →
      ∃ τ, w'.ServesOn τ id) ∧
    ∀ {τ id}, w'.ServesOn τ id →
      w.ServesOn τ id ∨ (τ = w.tasks.length ∧ ∀ τ', ¬ w.ServesOn τ' id) := by
  have hmono := (World.env_mono h).1
  rcases World.env_wiring h with ⟨hsame, htasks⟩ | ⟨id₀, c₀, rfl, hc₀, hfree, hset, htasks⟩
  · -- no connection is taken up, and the servers are the same
    have hserves : ∀ {τ id}, w'.ServesOn τ id ↔ w.ServesOn τ id := by
      intro τ id
      rcases htasks with htasks | ⟨task, hnone, htasks⟩
      · unfold ServesOn
        rw [htasks]
      · rw [servesOn_append htasks, hnone]
        simp
    refine ⟨fun τ task id ht hid => ?_, fun id c hc ha => ?_, fun hs => .inl (hserves.mp hs)⟩
    · obtain ⟨task', ht', hid'⟩ := hserves.mp ⟨task, ht, hid⟩
      rw [hmono.task ht', Option.some.injEq] at ht
      rw [← ht, hsame]
      exact hW.served τ task' id ht' hid'
    · rw [hsame] at hc
      obtain ⟨τ, hτ⟩ := hW.taken id c hc ha
      exact ⟨τ, hserves.mpr hτ⟩
  · -- connection `id₀` is taken up by the new thread; nobody has served it
    have hlt := (List.getElem?_eq_some_iff.mp hc₀).1
    have hnobody : ∀ τ, ¬ w.ServesOn τ id₀ := by
      rintro τ ⟨task, ht, hid⟩
      obtain ⟨c, hc, haccepted, -⟩ := hW.served τ task id₀ ht hid
      rw [hc₀, Option.some.injEq] at hc
      exact absurd (hfree.symm.trans (hc ▸ haccepted)) (by decide)
    refine ⟨fun τ task id ht hid => ?_, fun id c hc ha => ?_, fun {τ id} hs => ?_⟩
    · rw [htasks, ← Option.toList_some] at ht
      rw [hset]
      rcases getElem?_append_started ht with hold | ⟨-, hnew⟩
      · obtain ⟨c, hc, haccepted, htask⟩ := hW.served τ task id hold hid
        have hne : id₀ ≠ id := fun heq => hnobody τ (heq ▸ ⟨task, hold, hid⟩)
        rw [List.getElem?_set_ne hne]
        exact ⟨c, hc, haccepted, htask⟩
      · obtain rfl := Option.some.inj hnew
        obtain rfl := Option.some.inj hid
        exact ⟨_, List.getElem?_set_self hlt, rfl, rfl⟩
    · by_cases hid : id₀ = id
      · exact ⟨w.tasks.length, (servesOn_append htasks).mpr (.inr ⟨rfl, congrArg some hid⟩)⟩
      · rw [hset, List.getElem?_set_ne hid] at hc
        obtain ⟨τ, hτ⟩ := hW.taken id c hc ha
        exact ⟨τ, hmono.servesOn hτ⟩
    · refine ((servesOn_append htasks).mp hs).imp_right (fun ⟨hlast, hid⟩ => ⟨hlast, ?_⟩)
      rw [← Option.some.inj hid]
      exact hnobody

/-- A step of the environment. -/
theorem env (hW : Wired w) (h : World.env k e w = some (w', started)) : Wired w' := by
  obtain ⟨hserved, htaken, hserves⟩ := hW.servers_env h
  have hhistory := (World.env_cases h).1.history
  refine ⟨by rw [openings_env h, hW.conns, map_conns_env h], fun τ dest payload id hdid => ?_,
    fun opening ho => ?_, hserved, fun {τ τ' id} h₁ h₂ => ?_, htaken, fun {τ τ' id} ho hs => ?_,
    fun id c hc frame hf => hW.written_env h hc hf⟩
  · unfold Did at hdid
    rw [hhistory] at hdid
    rw [openings_env h]
    exact hW.sent τ dest payload id hdid
  · rw [openings_env h] at ho
    exact (hW.openers opening ho).trans_le (World.env_mono h).1.tasks.length_le
  · rcases hserves h₁ with h₁ | ⟨rfl, hnobody⟩
    · rcases hserves h₂ with h₂ | ⟨-, hnobody⟩
      · exact hW.alone h₁ h₂
      · exact absurd h₁ (hnobody τ)
    · rcases hserves h₂ with h₂ | ⟨rfl, -⟩
      · exact absurd h₂ (hnobody τ')
      · rfl
  · rw [opened_env h] at ho
    rcases hserves hs with hs | ⟨rfl, -⟩
    · exact hW.later ho hs
    · -- the opener was started before the new thread
      obtain ⟨request, ho⟩ := ho
      exact hW.openers _ (List.mem_of_getElem? ho)

end Env

end Wired

/-- The rest of a thread's program answers on the thread's connection. -/
def RepliesOwn (w : World) (τ : Nat) (prog : Program (Option Response)) : Prop :=
  ∃ task, w.tasks[τ]? = some task ∧ prog.AllActs (Act.RepliesOn task.conn?)

/-- **Connections, threads and history belong together** in every state that a run reaches. -/
theorem wired_invariant {G : Guard Act World EnvStep} {setup : Setup} {p : ClusterPool}
    (h : Reachable clusterMachine G setup.pool p) :
    Wired p.world ∧ ∀ τ prog, p.progs[τ]? = some prog → RepliesOwn p.world τ prog := by
  refine Reachable.threads (J := Wired) (I := RepliesOwn) ?_ ?_ ?_ ?_ h
  · intro τ a k c w r w' hW hown _ hexec
    obtain ⟨task, htask, hacts⟩ := hown
    have hmono := (World.exec_mono hexec).1
    exact ⟨hW.exec hexec htask hacts.1, ⟨task, hmono.task htask, hacts.2 r⟩,
      fun τ' prog _ ⟨task', ht, hp⟩ => ⟨task', hmono.task ht, hp⟩⟩
  · intro n e w w' started hW _ henv
    have hmono := (World.env_mono henv).1
    refine ⟨hW.env henv, fun prog hprog => ?_,
      fun τ prog _ ⟨task, ht, hp⟩ => ⟨task, hmono.task ht, hp⟩⟩
    subst hprog
    obtain ⟨task, -, htask, rfl⟩ := World.env_started henv
    exact ⟨task, htask, repliesOn_program _ task⟩
  -- at the start there are no connections
  · refine ⟨rfl, ?_, ?_, ?_, ?_, ?_, ?_, ?_⟩
    · intro τ dest payload id hdid
      exact absurd hdid List.not_mem_nil
    · intro opening ho
      exact absurd ho List.not_mem_nil
    · intro τ task id ht
      exact absurd ht (by simp [Setup.pool])
    · rintro τ τ' id ⟨task, ht, -⟩
      exact absurd ht (by simp [Setup.pool])
    · intro id c hc
      exact absurd hc (by simp [Setup.pool])
    · rintro τ τ' id - ⟨task, ht, -⟩
      exact absurd ht (by simp [Setup.pool])
    · intro id c hc
      exact absurd hc (by simp [Setup.pool])
  · intro τ prog hprog
    exact absurd hprog (by simp [Setup.pool])

/-- Whoever has answered on a connection serves it. -/
theorem servesOn_of_responded {G : Guard Act World EnvStep} {setup : Setup} {p : ClusterPool}
    (h : Reachable clusterMachine G setup.pool p) {τ id : Nat} {response : Response} {r : Unit}
    (hdid : p.world.Did τ (.net (.respond (some id) response)) r) : p.world.ServesOn τ id := by
  induction h with
  | start => exact absurd hdid List.not_mem_nil
  | step l hreach _ hstep ih =>
    rcases Machine.step_cases hstep with ⟨τ', c, a, k, r', -, hprog, hexec, -⟩ |
      ⟨e, started, -, henv, -⟩
    · have hmono := (World.exec_mono hexec).1
      rcases World.did_cases hexec hdid with hold | hnew
      · exact hmono.servesOn (ih hold)
      · -- the thread answers on its own connection
        cases hnew
        obtain ⟨task, htask, hacts⟩ := (wired_invariant hreach).2 τ _ hprog
        exact hmono.servesOn ⟨task, htask, Eq.symm hacts.1⟩
    · unfold World.Did at hdid
      rw [(World.env_cases henv).1.history] at hdid
      exact (World.env_mono henv).1.servesOn (ih hdid)

end StreamingPlatform
