import StreamingPlatform.Cluster.Locking
import StreamingPlatform.Lib.Progress

namespace StreamingPlatform

open ByteString Interleave World

/-!
# Cluster — what can be relied on to go on

The steps that a cluster takes when nothing goes wrong any more (`smoothMachine`): threads of
live brokers go on, connections to live brokers are made and taken up, what is written arrives,
and a read fails only if nothing will ever come.  The sources set no timeout on any socket, so
a read may not give up before.  No client sends anything new, no heartbeat round begins and
nobody crashes.  Here every connection finds a worker that takes it up; a broker that has only so
many of them is the subject of `Cluster/WorkerLimit`.

From every state that any run whatever has reached, such steps give back every mutex that is
held at a live broker (`mutex_released`), unless they fill a log up to the last offset: whoever
holds one waits for prompt requests only, and those are served by threads that wait for nothing
(`finish_free`).
-/

/-! ### Smooth steps -/

/-- The event is the answer to the request of connection `id`. -/
def Event.responds (id : Nat) (e : Event) : Bool :=
  match e.act with
  | .net (.respond conn _) => conn = some id
  | _ => false

/-- Whoever was to answer on connection `id` is down, or has done so. -/
def World.over (w : World) (id : Nat) : Bool :=
  match w.conns[id]? with
  | some c => !(w.nodes c.dest).alive || w.history.any (Event.responds id)
  | none => false

/-- There is something to read on connection `id`. -/
def World.readable (w : World) (id : Nat) : Bool :=
  ((w.conns[id]?).bind (fun c => c.frames.head?)).isSome

/-- What an action comes to when nothing goes wrong. -/
def smooth (w : World) : Act → Choice → Bool
  | .node _, _ => true
  | .net (.send dest _), .succeeds => (w.nodes dest).alive
  | .net (.send dest _), .fails => !(w.nodes dest).alive
  | .net (.receive _), .succeeds => true
  | .net (.receive id), .fails => w.over id && !w.readable id
  | .net (.sendAck _ _), .succeeds => true
  | .net (.respond _ _), .succeeds => true
  | _, _ => false

/-- A step of the environment other than a crash. -/
def EnvStep.harmless : EnvStep → Bool
  | .crash _ => false
  | _ => true

variable {w' : World} {G : Guard Act World EnvStep} {c : Choice} {id : Nat}

/-- Nothing but a crash stops a broker. -/
theorem World.env_alive {w : World} {k : Nat} {e : EnvStep}
    {started : Option (Program (Option Response))} (h : env k e w = some (w', started))
    (hharmless : e.harmless = true) (n : Int) : (w'.nodes n).alive = (w.nodes n).alive := by
  cases e with
  | client n' payload =>
    rw [env] at h
    split at h
    · cases h
    · obtain ⟨-, -, heq⟩ := start_eq_some h
      rw [(Prod.mk.inj heq).1]
  | accept id =>
    rw [env] at h
    split at h
    · cases h
    · split at h
      · cases h
      · obtain ⟨-, -, heq⟩ := start_eq_some h
        rw [(Prod.mk.inj heq).1]
  | heartbeat n' =>
    obtain ⟨-, -, heq⟩ := start_eq_some h
    rw [(Prod.mk.inj heq).1]
  | tick n' d =>
    rw [← (Prod.mk.inj (Option.some.inj h)).1]
    dsimp only
    by_cases hn : n = n'
    · rw [hn, Function.update_self]
    · rw [Function.update_of_ne hn]
  | crash n' => cases hharmless

/-- Of the steps of the environment, those that take up a connection. -/
def EnvStep.takesUp : EnvStep → Bool
  | .accept _ => true
  | _ => false

/-- Taking up a connection does no harm. -/
theorem EnvStep.harmless_of_takesUp {e : EnvStep} (h : e.takesUp = true) : e.harmless = true := by
  cases e <;> first | rfl | cases h

/-- The cluster when nothing goes wrong, with as many workers as there are connections. -/
def smoothMachine : Machine Act Act.Result (Option Response) World Choice EnvStep :=
  clusterMachine.restrict smooth (fun _ => EnvStep.takesUp)

/-- Some live broker has a log that takes no further record. -/
def World.Full (w : World) : Prop :=
  ∃ n key, (w.nodes n).alive = true ∧ 2 ^ 64 ≤ ((w.nodes n).contents key).length + 1

/-- Smooth steps lead from `p` to `p'` without the threads of `B`. -/
def Onward (B : Nat → Prop) (p p' : ClusterPool) : Prop :=
  Reachable smoothMachine (Guard.sparing B) p p'

/-- Every run is one without a guard. -/
theorem reachable_anyStep {M : Machine Act Act.Result (Option Response) World Choice EnvStep}
    {p p' : ClusterPool} (h : Reachable M G p p') : Reachable M anyStep p p' := by
  refine h.restrict (fun q l _ _ => ?_)
  cases l with
  | run τ c => exact fun _ _ _ => trivial
  | env e => exact trivial

namespace Onward

variable {B B' : Nat → Prop} {p p' p'' : ClusterPool} {setup : Setup}

theorem refl : Onward B p p := Reachable.start

theorem trans (h : Onward B p p') (h' : Onward B p' p'') : Onward B p p'' := Reachable.trans h h'

/-- Fewer threads may be barred from moving. -/
theorem less (h : Onward B' p p') (hB : ∀ τ, B τ → B' τ) : Onward B p p' :=
  Reachable.spare_less h hB

/-- Smooth runs are runs. -/
theorem run (h : Onward B p p') : Reachable clusterMachine anyStep p p' :=
  reachable_anyStep (Reachable.of_restrict h)

theorem reachable (h : Onward B p p') (hp : Reachable clusterMachine anyStep setup.pool p) :
    Reachable clusterMachine anyStep setup.pool p' :=
  hp.trans h.run

theorem mono (h : Onward B p p') : p.world.Mono p'.world := reachable_mono h.run

/-- Nobody crashes. -/
theorem alive (h : Onward B p p') (n : Int) :
    (p'.world.nodes n).alive = (p.world.nodes n).alive := by
  refine Reachable.keep (P := fun w => (w.nodes n).alive = (p.world.nodes n).alive) ?_ ?_ h rfl
  · intro τ a c w r w' hw hexec
    exact (World.exec_alive (Machine.restrict_exec hexec).2 n).trans hw
  · intro k e w w' started hw henv
    obtain ⟨htakes, henv⟩ := Machine.restrict_env henv
    exact (World.env_alive henv (EnvStep.harmless_of_takesUp htakes) n).trans hw

/-- Who does not move neither takes a mutex nor loses one. -/
theorem mutex (h : Onward B p p') {τ : Nat} (hτ : B τ) (n : Int) :
    (p'.world.nodes n).mutex = some τ ↔ (p.world.nodes n).mutex = some τ := by
  refine Reachable.keep_of_spared
    (P := fun w => (w.nodes n).mutex = some τ ↔ (p.world.nodes n).mutex = some τ) hτ ?_ ?_ h Iff.rfl
  · intro τ' a c w r w' hw hne hexec
    exact (Locks.mutex_exec_other (Machine.restrict_exec hexec).2 (Ne.symm hne) n).trans hw
  · intro k e w w' started hw henv
    obtain ⟨now, alive, hn⟩ := (World.env_cases (Machine.restrict_env henv).2).1.nodes n
    rw [hn]
    exact hw

/-- A thread performs its next action. -/
theorem act {τ : Nat} (hτ : ¬ B τ) {a : Act} {k : a.Result → Program (Option Response)}
    (hprog : p.progs[τ]? = some (.act a k)) {r : a.Result} (hsmooth : smooth p.world a c = true)
    (hexec : World.exec τ a c p.world = some (r, w')) : Onward B p ⟨w', p.progs.set τ (k r)⟩ := by
  have hrun : smoothMachine.exec τ a c p.world = some (r, w') :=
    (Machine.restrict_exec_of hsmooth).trans hexec
  exact Reachable.run hprog hτ hrun

/-- A connection to a live broker is taken up. -/
theorem accept {c : Conn} (hconn : p.world.conns[id]? = some c) (hfree : c.accepted = false)
    (halive : (p.world.nodes c.dest).alive = true)
    (hlength : p.progs.length = p.world.tasks.length) :
    ∃ p', Onward B p p' ∧ p'.world.ServesOn p.progs.length id ∧
      p'.world.RunsAt p.progs.length c.dest ∧ p'.world.nodes = p.world.nodes ∧
      p'.progs = p.progs ++ [serve (p.world.nodes c.dest).config c.payload (some id)] := by
  have hstep : World.env p.progs.length (.accept id) p.world
      = some ({ p.world with
          conns := p.world.conns.set id { c with accepted := true }
          tasks := p.world.tasks ++ [⟨c.dest, .peer id c.payload⟩] },
        some (serve (p.world.nodes c.dest).config c.payload (some id))) := by
    rw [World.env, hconn]
    dsimp only
    rw [if_neg (by rw [hfree]; decide), World.start, if_pos ⟨hlength, halive⟩]
  have henv : smoothMachine.env p.progs.length (.accept id) p.world = _ :=
    (Machine.restrict_env_of rfl).trans hstep
  have hlast : (p.world.tasks ++ [(⟨c.dest, .peer id c.payload⟩ : Task)])[p.progs.length]?
      = some ⟨c.dest, .peer id c.payload⟩ := by
    rw [hlength]
    exact List.getElem?_concat_length
  exact ⟨_, Reachable.env (M := smoothMachine) trivial henv, ⟨_, hlast, rfl⟩, ⟨_, hlast, rfl⟩, rfl,
    rfl⟩

end Onward

/-! ### Possible actions -/

/-- An action on the state of a broker is possible unless the mutex or a full log is in the
    way. -/
theorem NodeAct.exists_step {a : NodeAct} {τ : Nat} {s : Node} (hmay : s.mayLock τ)
    (hlock : a = .lock → s.mutex = none) (hunlock : a = .unlock → s.mutex = some τ)
    (hroom : ∀ key, (s.contents key).length + 1 < 2 ^ 64) :
    ∃ r s', a.step τ s .succeeds = some (r, s') := by
  have hlocked : ∀ {β : Type} (x : β × Node), ∃ r s', s.locked τ x = some (r, s') :=
    fun x => ⟨x.1, x.2, if_pos hmay⟩
  cases a with
  | append topic partition message origin =>
    exact ⟨_, _, if_pos (hroom (makeKey topic partition))⟩
  | lock => exact ⟨_, _, if_pos (hlock rfl)⟩
  | unlock => exact ⟨_, _, if_pos (hunlock rfl)⟩
  | openAcks | handleAck | quorumReached | markCommitted | isCommitted | isPeerAvailable
  | markFollowerFailed | handleHeartbeat | maybeElectLeader | failExpired => exact hlocked _
  | _ => exact ⟨_, _, rfl⟩

/-- The same where the action needs no mutex. -/
theorem NodeAct.exists_step_free {a : NodeAct} (hfree : Act.Free (.node a)) {τ : Nat} {s : Node}
    (hroom : ∀ key, (s.contents key).length + 1 < 2 ^ 64) :
    ∃ r s', a.step τ s .succeeds = some (r, s') := by
  cases a with
  | isLeader => exact ⟨_, _, rfl⟩
  | getLeaderEndpoint => exact ⟨_, _, rfl⟩
  | append topic partition message origin =>
    exact ⟨_, _, if_pos (hroom (makeKey topic partition))⟩
  | _ => exact hfree.elim

/-- Only threads of live brokers act. -/
theorem World.alive_of_exec {w : World} {τ : Nat} {a : Act} {r : a.Result}
    (h : exec τ a c w = some (r, w')) {task : Task} (htask : w.tasks[τ]? = some task) :
    (w.nodes task.node).alive = true := by
  unfold exec at h
  rw [htask] at h
  exact (Option.ite_none_right_eq_some.mp h).1

/-- Either some log is full, or the broker can append. -/
theorem World.room_or_full (w : World) {n : Int} (halive : (w.nodes n).alive = true) :
    w.Full ∨ ∀ key, ((w.nodes n).contents key).length + 1 < 2 ^ 64 := by
  by_cases hroom : ∀ key, ((w.nodes n).contents key).length + 1 < 2 ^ 64
  · exact .inr hroom
  · push Not at hroom
    obtain ⟨key, hkey⟩ := hroom
    exact .inl ⟨n, key, halive, hkey⟩

section Net

variable {w : World} {τ : Nat} {n : Int}

/-- Connecting succeeds exactly if the broker at the other end is up. -/
theorem World.exists_send (hat : w.RunsAt τ n) (halive : (w.nodes n).alive = true) (dest : Int)
    (payload : Bytes) :
    ∃ c r w', smooth w (.net (.send dest payload)) c = true ∧
      exec τ (.net (.send dest payload)) c w = some (r, w') := by
  obtain ⟨task, htask, rfl⟩ := hat
  cases hdest : (w.nodes dest).alive with
  | true => exact ⟨.succeeds, _, _, hdest, exec_of_net htask halive rfl⟩
  | false =>
    refine ⟨.fails, .unreachable, _, ?_, exec_of_net htask halive rfl⟩
    show (!(w.nodes dest).alive) = true
    rw [hdest]
    rfl

/-- A smooth send reaches a live broker. -/
theorem World.alive_of_sent {dest : Int} {payload : Bytes}
    (hsmooth : smooth w (.net (.send dest payload)) c = true)
    (h : exec τ (.net (.send dest payload)) c w = some (.sent id, w')) :
    (w.nodes dest).alive = true := by
  obtain ⟨task, conns, -, hstep, -⟩ := exec_net h
  cases c with
  | succeeds => exact hsmooth
  | fails => exact absurd hstep (by simp [NetAct.step])
  | writeFails => cases hsmooth
  | times n => cases hsmooth

/-- A read comes to an end once there is something to read or nothing will ever come. -/
theorem World.exists_receive (hat : w.RunsAt τ n) (halive : (w.nodes n).alive = true)
    (hover : w.over id = true) :
    ∃ c r w', smooth w (.net (.receive id)) c = true ∧
      exec τ (.net (.receive id)) c w = some (r, w') := by
  obtain ⟨task, htask, rfl⟩ := hat
  cases hframe : (w.conns[id]?).bind (fun c => c.frames.head?) with
  | some frame =>
    have hstep : NetAct.step w.conns (.receive id) .succeeds = some (some frame, w.conns) := by
      simp only [NetAct.step, hframe]
    exact ⟨.succeeds, _, _, rfl, exec_of_net htask halive hstep⟩
  | none =>
    refine ⟨.fails, none, _, ?_, exec_of_net htask halive rfl⟩
    have hnothing : w.readable id = false := by
      rw [World.readable, hframe]
      rfl
    show (w.over id && !w.readable id) = true
    rw [hover, hnothing]
    rfl

/-- Writing to the own connection succeeds. -/
theorem World.exists_write (hat : w.RunsAt τ n) (halive : (w.nodes n).alive = true) {a : NetAct}
    (ha : Act.Free (.net a)) :
    ∃ r w', smooth w (.net a) .succeeds = true ∧ exec τ (.net a) .succeeds w = some (r, w') := by
  obtain ⟨task, htask, rfl⟩ := hat
  cases a with
  | sendAck conn ack => exact ⟨_, _, rfl, exec_of_net htask halive rfl⟩
  | respond conn response => exact ⟨_, _, rfl, exec_of_net htask halive rfl⟩
  | send dest payload => exact ha.elim
  | receive id => exact ha.elim

end Net

/-! ### Answers -/

/-- The answer on the connection `id`. -/
def Act.Answers (id : Nat) (a : Act) : Prop := ∃ response, a = .net (.respond (some id) response)

/-- A thread that serves a connection has answered on it or is going to. -/
def Owes (w : World) (τ : Nat) (prog : Program (Option Response)) : Prop :=
  ∃ task, w.tasks[τ]? = some task ∧ ∀ id, task.conn? = some id →
    (∃ response, w.Did τ (.net (.respond (some id) response)) ()) ∨ prog.Must (Act.Answers id)

/-- A request that came over a connection is answered on it. -/
theorem must_serve (config : BrokerConfig) (payload : Bytes) (id : Nat) :
    (serve config payload (some id)).Must (Act.Answers id) :=
  Prog.Must.bind _ (fun response => .inl ⟨response, rfl⟩)

/-- Whoever serves a connection owes an answer on it. -/
theorem owes_invariant {setup : Setup} {p : ClusterPool}
    (h : Reachable clusterMachine G setup.pool p) :
    ∀ τ prog, p.progs[τ]? = some prog → Owes p.world τ prog := by
  have hkeep : ∀ {w w' : World}, w.Mono w' → ∀ τ prog, Owes w τ prog → Owes w' τ prog := by
    rintro w w' hmono τ prog ⟨task, htask, howes⟩
    refine ⟨task, hmono.task htask, fun id hid => (howes id hid).imp_left ?_⟩
    exact fun ⟨response, hdid⟩ => ⟨response, hmono.did hdid⟩
  refine (Reachable.threads (J := fun _ => True) (I := Owes) ?_ ?_ trivial ?_ h).2
  · intro τ a k c w r w' _ ⟨task, htask, howes⟩ _ hexec
    have hmono := (World.exec_mono hexec).1
    refine ⟨trivial, ⟨task, hmono.task htask, fun id hid => ?_⟩,
      fun τ' prog _ => hkeep hmono τ' prog⟩
    -- it has answered before, answers now, or still owes the answer
    rcases howes id hid with ⟨response, hdid⟩ | ⟨response, rfl⟩ | hlater
    · exact .inl ⟨response, hmono.did hdid⟩
    · exact .inl ⟨response, World.did_exec hexec⟩
    · exact .inr (hlater r)
  · intro n e w w' started _ _ henv
    have hmono := (World.env_mono henv).1
    refine ⟨trivial, fun prog hprog => ?_, fun τ prog _ => hkeep hmono τ prog⟩
    subst hprog
    obtain ⟨task, -, htask, rfl⟩ := World.env_started henv
    refine ⟨task, htask, fun id hid => .inr ?_⟩
    unfold Task.conn? at hid
    unfold Task.program
    cases hsource : task.source with
    | client payload => rw [hsource] at hid; cases hid
    | heartbeat => rw [hsource] at hid; cases hid
    | peer conn payload =>
      rw [hsource, Option.some.injEq] at hid
      rw [← hid]
      exact must_serve _ payload conn
  · intro τ prog hprog
    exact absurd hprog (by simp [Setup.pool])

/-- Nothing more comes on a connection whose server has finished. -/
theorem over_of_finished {setup : Setup} {p : ClusterPool}
    (h : Reachable clusterMachine G setup.pool p) {τ : Nat} {b : Option Response}
    (hserves : p.world.ServesOn τ id) (hret : p.progs[τ]? = some (.ret b)) :
    p.world.over id = true := by
  obtain ⟨task, htask, hid⟩ := hserves
  obtain ⟨c, hc, -, -⟩ := (wired_invariant h).1.served τ task id htask hid
  obtain ⟨task', htask', howes⟩ := owes_invariant h τ _ hret
  rw [htask, Option.some.injEq] at htask'
  subst htask'
  rcases howes id hid with ⟨response, hdid⟩ | hmust
  · have hany : p.world.history.any (Event.responds id) = true :=
      List.any_eq_true.mpr ⟨_, hdid, decide_eq_true rfl⟩
    rw [World.over, hc]
    dsimp only
    rw [hany, Bool.or_true]
  · exact hmust.elim

/-- A connection to a crashed broker is over. -/
theorem over_of_dead {w : World} {c : Conn} (hc : w.conns[id]? = some c)
    (hdead : (w.nodes c.dest).alive = false) : w.over id = true := by
  rw [World.over, hc]
  dsimp only
  rw [hdead]
  rfl

/-! ### Threads that wait for nothing -/

/-- **A free thread of a live broker can finish**, and nobody else has to move. -/
theorem finish_free {B : Nat → Prop} {p : ClusterPool} {τ : Nat} {n : Int}
    {prog : Program (Option Response)} (hτ : ¬ B τ) (hprog : p.progs[τ]? = some prog)
    (hfree : prog.AllActs Act.Free) (hat : p.world.RunsAt τ n)
    (halive : (p.world.nodes n).alive = true) :
    ∃ p', Onward B p p' ∧ (p'.world.Full ∨ ∃ b, p'.progs[τ]? = some (.ret b)) := by
  -- on the program: each of its actions is possible now
  induction prog generalizing p with
  | ret b => exact ⟨p, .refl, .inr ⟨b, hprog⟩⟩
  | act a k ih =>
    rcases p.world.room_or_full halive with hfull | hroom
    · exact ⟨p, .refl, .inl hfull⟩
    have hstep : ∃ r w', smooth p.world a .succeeds = true ∧
        World.exec τ a .succeeds p.world = some (r, w') := by
      cases a with
      | node a =>
        obtain ⟨task, htask, rfl⟩ := hat
        obtain ⟨r, s', hstep⟩ := NodeAct.exists_step_free (τ := τ) hfree.1 hroom
        exact ⟨r, _, rfl, exec_of_node htask halive hstep⟩
      | net a => exact exists_write hat halive hfree.1
    obtain ⟨r, w', hsmooth, hexec⟩ := hstep
    have hact := Onward.act hτ hprog hsmooth hexec
    obtain ⟨p', hrest, hend⟩ := ih r
      (p := ⟨w', p.progs.set τ (k r)⟩)
      (List.getElem?_set_self (List.getElem?_eq_some_iff.mp hprog).1) (hfree.2 r)
      (hact.mono.runsAt hat) (by rw [hact.alive]; exact halive)
    exact ⟨p', hact.trans hrest, hend⟩

/-- The threads of `B` wait for something. -/
def Stuck (B : Nat → Prop) (p : ClusterPool) : Prop :=
  ∀ τ, B τ → ∃ prog, p.progs[τ]? = some prog ∧ ¬ prog.AllActs Act.Free

/-- Threads that are stuck stay so while they are barred. -/
theorem Stuck.onward {B B' : Nat → Prop} {p p' : ClusterPool} (hB : Stuck B p)
    (h : Onward B' p p') (hsub : ∀ τ, B τ → B' τ) : Stuck B p' := by
  intro τ hτ
  obtain ⟨prog, hprog, hnot⟩ := hB τ hτ
  exact ⟨prog, Reachable.spared h (hsub τ hτ) hprog, hnot⟩

/-- A thread that does not exist yet is not stuck. -/
theorem Stuck.not_new {B : Nat → Prop} {p : ClusterPool} (hB : Stuck B p) : ¬ B p.progs.length := by
  intro hτ
  obtain ⟨prog, hprog, -⟩ := hB _ hτ
  exact absurd (List.getElem?_eq_some_iff.mp hprog).1 (lt_irrefl _)

/-- **Prompt requests are answered**, whoever else is stuck. -/
theorem answer_prompt {B : Nat → Prop} {setup : Setup} {p : ClusterPool}
    (h : Reachable clusterMachine anyStep setup.pool p) (hB : Stuck B p) {c : Conn}
    (hconn : p.world.conns[id]? = some c) (hprompt : Prompt c.payload) :
    ∃ p', Onward B p p' ∧ (p'.world.Full ∨ p'.world.over id = true) := by
  cases halive : (p.world.nodes c.dest).alive with
  | false => exact ⟨p, .refl, .inr (over_of_dead hconn halive)⟩
  | true =>
    -- the connection is served, if need be after it has been taken up
    have hserved : ∃ p₁ τ prog, Onward B p p₁ ∧ p₁.world.ServesOn τ id ∧
        p₁.world.RunsAt τ c.dest ∧ p₁.progs[τ]? = some prog ∧ prog.AllActs Act.Free := by
      cases hfree : c.accepted with
      | true =>
        obtain ⟨hW, -⟩ := wired_invariant h
        obtain ⟨τ, task, htask, hid⟩ := hW.taken id c hconn hfree
        obtain ⟨c', hc', -, htaskeq⟩ := hW.served τ task id htask hid
        rw [hconn, Option.some.injEq] at hc'
        have hlt : τ < p.progs.length := by
          rw [length_progs h]
          exact (List.getElem?_eq_some_iff.mp htask).1
        have hprog := List.getElem?_eq_getElem hlt
        exact ⟨p, τ, _, .refl, ⟨task, htask, hid⟩, ⟨task, htask, by rw [htaskeq, hc']⟩, hprog,
          free_of_servesOn h hconn hprompt ⟨task, htask, hid⟩ hprog⟩
      | false =>
        obtain ⟨p₁, haccept, hserves, hat, -, hprogs⟩ :=
          Onward.accept (B := B) hconn hfree halive (length_progs h)
        have hprog : p₁.progs[p.progs.length]?
            = some (serve (p.world.nodes c.dest).config c.payload (some id)) := by
          rw [hprogs]
          exact List.getElem?_concat_length
        exact ⟨p₁, _, _, haccept, hserves, hat, hprog, free_serve hprompt (some id)⟩
    obtain ⟨p₁, τ, prog, hto, hserves, hat, hprog, hfree⟩ := hserved
    have hτ : ¬ B τ := by
      intro hτ
      obtain ⟨prog', hprog', hnot⟩ := hB.onward hto (fun _ h => h) τ hτ
      rw [hprog, Option.some.injEq] at hprog'
      exact hnot (hprog' ▸ hfree)
    obtain ⟨p₂, hfinish, hend⟩ := finish_free hτ hprog hfree hat (by rw [hto.alive]; exact halive)
    have hall := hto.trans hfinish
    refine ⟨p₂, hall, hend.imp_right (fun ⟨b, hret⟩ => ?_)⟩
    exact over_of_finished (hall.reachable h) (hfinish.mono.servesOn hserves) hret

/-! ### Threads with their monitors -/

/-- Thread `τ` of the live broker `n` has `prog` left to do, and its monitor is in state `s`. -/
structure Underway (p : ClusterPool) (τ : Nat) (n : Int) (prog : Program (Option Response))
    (s : Waiting) : Prop where
  node : p.world.RunsAt τ n
  alive : (p.world.nodes n).alive = true
  left : p.progs[τ]? = some prog
  follows : Follows waitWatch (Waiting.Holding false) prog s
  mutex : ∀ n', (p.world.nodes n').mutex = some τ ↔ p.world.RunsAt τ n' ∧ s.held = true
  sent : ∀ id payload, s.sent = some (id, payload) →
    ∃ dest, p.world.Did τ (.net (.send dest payload)) (.sent id)

/-- Every thread of a live broker has one. -/
theorem exists_underway {setup : Setup} {p : ClusterPool}
    (h : Reachable clusterMachine G setup.pool p) {τ : Nat} {n : Int} (hat : p.world.RunsAt τ n)
    (halive : (p.world.nodes n).alive = true) : ∃ prog s, Underway p τ n prog s := by
  obtain ⟨g, hL, hfollows⟩ := locks_invariant h
  have hlt : τ < p.progs.length := by
    obtain ⟨task, htask, -⟩ := hat
    rw [length_progs h]
    exact (List.getElem?_eq_some_iff.mp htask).1
  have hprog := List.getElem?_eq_getElem hlt
  exact ⟨_, g τ, hat, halive, hprog, hfollows τ _ hprog, fun n' => hL.mutex n' τ, hL.sent τ⟩

namespace Underway

variable {p p' : ClusterPool} {τ : Nat} {n : Int} {s : Waiting} {B : Nat → Prop}
  {prog : Program (Option Response)} {a : Act} {k : a.Result → Program (Option Response)}

theorem holds (hr : Underway p τ n prog s) : (p.world.nodes n).mutex = some τ ↔ s.held = true :=
  (hr.mutex n).trans (and_iff_right hr.node)

/-- The thread performs its next action. -/
theorem act (hr : Underway p τ n (.act a k) s) {r : a.Result}
    (h : World.exec τ a c p.world = some (r, w')) :
    Underway ⟨w', p.progs.set τ (k r)⟩ τ n (k r) (waitWatch.next s a r) := by
  have hmono := (World.exec_mono h).1
  refine ⟨hmono.runsAt hr.node, ?_, ?_, hr.follows.2 r, fun n' => ?_, fun id payload hsent => ?_⟩
  · show (w'.nodes n).alive = true
    rw [World.exec_alive h]
    exact hr.alive
  · exact List.getElem?_set_self (List.getElem?_eq_some_iff.mp hr.left).1
  · exact Locks.mutex_exec_own h (hr.mutex n')
  · obtain ⟨dest, hevent⟩ := Locks.sent_next (τ := τ) hsent
    refine ⟨dest, ?_⟩
    unfold Did
    rw [← hevent]
    exact World.did_exec h

/-- Others go on. -/
theorem onward (hr : Underway p τ n prog s) (h : Onward B p p') (hτ : B τ) :
    Underway p' τ n prog s := by
  refine ⟨h.mono.runsAt hr.node, ?_, Reachable.spared h hτ hr.left, hr.follows, fun n' => ?_,
    fun id payload hsent => ?_⟩
  · rw [h.alive]
    exact hr.alive
  · rw [h.mutex hτ, hr.mutex]
    refine and_congr_left (fun _ => ⟨fun hat => h.mono.runsAt hat, fun hat => ?_⟩)
    -- the thread's broker is the one it had before
    obtain ⟨task, htask, hnode⟩ := hr.node
    obtain ⟨task', htask', hnode'⟩ := hat
    rw [h.mono.task htask, Option.some.injEq] at htask'
    exact ⟨task, htask, htask' ▸ hnode'⟩
  · obtain ⟨dest, hdid⟩ := hr.sent id payload hsent
    exact ⟨dest, h.mono.did hdid⟩

/-- A thread with its program ahead and nothing to wait for goes on. -/
theorem step (hr : Underway p τ n (.act a k) s) (hτ : ¬ B τ)
    (hmay : a.Guarded → (p.world.nodes n).mayLock τ)
    (hover : ∀ id, a = .net (.receive id) → p.world.over id = true) :
    p.world.Full ∨ ∃ c r w', smooth p.world a c = true ∧
      World.exec τ a c p.world = some (r, w') ∧ Onward B p ⟨w', p.progs.set τ (k r)⟩ ∧
      Underway ⟨w', p.progs.set τ (k r)⟩ τ n (k r) (waitWatch.next s a r) := by
  rcases p.world.room_or_full hr.alive with hfull | hroom
  · exact .inl hfull
  have hpossible : ∃ c r w', smooth p.world a c = true ∧
      World.exec τ a c p.world = some (r, w') := by
    cases a with
    | node a =>
      obtain ⟨task, htask, rfl⟩ := hr.node
      by_cases hfree : Act.Free (.node a)
      · obtain ⟨r, s', hstep⟩ := NodeAct.exists_step_free (τ := τ) hfree hroom
        exact ⟨.succeeds, r, _, rfl, exec_of_node htask hr.alive hstep⟩
      have hlockable := hmay hfree
      -- whoever locks has no mutex, so that it is free; whoever unlocks has it
      have hlock : a = .lock → (p.world.nodes task.node).mutex = none := by
        rintro rfl
        refine hlockable.resolve_right (fun hmine => ?_)
        exact absurd (hr.follows.1.symm.trans (hr.holds.mp hmine)) Bool.false_ne_true
      have hunlock : a = .unlock → (p.world.nodes task.node).mutex = some τ := by
        rintro rfl
        exact hr.holds.mpr hr.follows.1
      obtain ⟨r, s', hstep⟩ := NodeAct.exists_step hlockable hlock hunlock hroom
      exact ⟨.succeeds, r, _, rfl, exec_of_node htask hr.alive hstep⟩
    | net a =>
      cases a with
      | send dest payload => exact exists_send hr.node hr.alive dest payload
      | receive id => exact exists_receive hr.node hr.alive (hover id rfl)
      | sendAck conn ack => exact ⟨.succeeds, exists_write hr.node hr.alive trivial⟩
      | respond conn response => exact ⟨.succeeds, exists_write hr.node hr.alive trivial⟩
  obtain ⟨c, r, w', hsmooth, hexec⟩ := hpossible
  exact .inr ⟨c, r, w', hsmooth, hexec, .act hτ hr.left hsmooth hexec, hr.act hexec⟩

end Underway

/-! ### Giving a mutex back -/

/-- A thread that awaits a frame is stuck as well. -/
theorem Stuck.insert {B : Nat → Prop} {p : ClusterPool} (hB : Stuck B p) {τ : Nat}
    {k : Option Bytes → Program (Option Response)}
    (hprog : p.progs[τ]? = some (.act (.net (.receive id)) k)) :
    Stuck (fun τ' => B τ' ∨ τ' = τ) p := by
  rintro τ' (hτ' | rfl)
  · exact hB τ' hτ'
  · exact ⟨_, hprog, fun hfree => hfree.1⟩

/-- **A thread that holds a mutex can give it back**: the induction is on what it has left to
    do, and each of its reads is answered before it goes on. -/
theorem release {B : Nat → Prop} {setup : Setup} {p : ClusterPool}
    (h : Reachable clusterMachine anyStep setup.pool p) (hB : Stuck B p) {τ : Nat} {n : Int}
    {prog : Program (Option Response)} {s : Waiting} (hr : Underway p τ n prog s) (hτ : ¬ B τ)
    (hheld : s.held = true) :
    ∃ p', Onward B p p' ∧ (p'.world.Full ∨ (p'.world.nodes n).mutex = none) := by
  induction prog generalizing p s with
  | ret b => exact absurd (hheld.symm.trans hr.follows) (by decide)
  | act a k ih =>
    -- the answer, if it waits for one
    have hanswered : ∃ p₁, Onward B p p₁ ∧ Underway p₁ τ n (.act a k) s ∧
        (p₁.world.Full ∨ ∀ id, a = .net (.receive id) → p₁.world.over id = true) := by
      by_cases hreceive : ∃ id, a = .net (.receive id)
      · obtain ⟨id, rfl⟩ := hreceive
        obtain ⟨payload, hsent, hprompt⟩ := hr.follows.1
        obtain ⟨dest, hdid⟩ := hr.sent id payload hsent
        obtain ⟨hW, -⟩ := wired_invariant h
        obtain ⟨c, hc, -, rfl⟩ := hW.conn_of_opening (hW.sent τ dest payload id hdid)
        obtain ⟨p₁, hto, hend⟩ := answer_prompt h (hB.insert hr.left) hc (hprompt hheld)
        refine ⟨p₁, hto.less (fun _ => .inl), hr.onward hto (.inr rfl), hend.imp_right ?_⟩
        rintro hover id' heq
        cases heq
        exact hover
      · exact ⟨p, .refl, hr, .inr (fun id ha => absurd ⟨id, ha⟩ hreceive)⟩
    obtain ⟨p₁, hto, hr₁, hfull | hover⟩ := hanswered
    · exact ⟨p₁, hto, .inl hfull⟩
    have hmine := hr₁.holds.mpr hheld
    rcases hr₁.step hτ (fun _ => .inr hmine) hover with hfull | ⟨c, r, w', -, hexec, hact, hr₂⟩
    · exact ⟨p₁, hto, .inl hfull⟩
    have hto₂ := hto.trans hact
    by_cases hunlock : a = .node .unlock
    · subst hunlock
      refine ⟨_, hto₂, .inr ?_⟩
      rcases exec_control hexec n with ⟨-, hnot⟩ | ⟨act, heq, -, hcontrol⟩
      · exact absurd ⟨⟨_, rfl⟩, hr₁.node⟩ hnot
      · cases heq
        rcases hcontrol.mutex_cases with ⟨heq, -⟩ | ⟨-, -, hnone⟩ | ⟨-, hne, -⟩
        · cases heq
        · exact hnone
        · exact absurd rfl hne
    · have hlock : a ≠ .node .lock := by
        rintro rfl
        exact absurd (hr.follows.1.symm.trans hheld) Bool.false_ne_true
      have hheld' : (waitWatch.next s a r).held = true := by
        rw [Locks.held_next s hlock hunlock]
        exact hheld
      obtain ⟨p', hrest, hend⟩ := ih r (hto₂.reachable h)
        (hB.onward hto₂ (fun _ h => h)) hr₂ hheld'
      exact ⟨p', hto₂.trans hrest, hend⟩

/-! ### Enough workers -/

/-- The thread has answered. -/
def World.hasResponded (w : World) (τ : Nat) : Bool :=
  w.history.any (fun e => e.thread == τ && e.act.responds)

/-- The thread occupies a worker of broker `n`; the rounds of heartbeats have a thread of their
    own. -/
def World.occupies (w : World) (n : Int) (τ : Nat) : Bool :=
  (w.tasks[τ]?).any (fun task => task.node == n && task.source != .heartbeat) && !w.hasResponded τ

/-- How many workers of broker `n` are busy. -/
def World.busy (w : World) (n : Int) : Nat :=
  ((List.range w.tasks.length).filter (w.occupies n)).length

/-- A broker takes up a request only if one of its `W` workers is free. -/
def workers (W : Nat) : Guard Act World EnvStep where
  act _ _ _ := True
  env w e :=
    match e with
    | .client n _ => w.busy n < W
    | .accept id => ∀ c, w.conns[id]? = some c → w.busy c.dest < W
    | _ => True

/-- No broker serves more requests than there are. -/
theorem World.busy_le (w : World) (n : Int) : w.busy n ≤ w.tasks.length := by
  unfold busy
  exact (List.length_filter_le _ _).trans (List.length_range).le

/-- More workers allow more. -/
theorem workers_refines {W W' : Nat} (h : W ≤ W') : (workers W).Refines (workers W') := by
  refine ⟨fun _ => trivial, fun {w e} he => ?_⟩
  cases e with
  | client n payload => exact Nat.lt_of_lt_of_le he h
  | accept id => exact fun c hc => Nat.lt_of_lt_of_le (he c hc) h
  | heartbeat | tick | crash => trivial

/-- Whatever a cluster can do, it can do with enough workers. -/
theorem exists_workers {p p' : ClusterPool} (h : Reachable smoothMachine anyStep p p') :
    ∃ W, Reachable smoothMachine (workers W) p p' := by
  induction h with
  | start => exact ⟨0, .start⟩
  | @step p₁ p₂ l _ _ hstep ih =>
    obtain ⟨W, hW⟩ := ih
    -- the last step finds fewer requests under way than there are threads
    refine ⟨max W (p₁.world.tasks.length + 1), (hW.restrict (fun q l' _ hallow => ?_)).step l ?_
      hstep⟩
    · exact (workers_refines (le_max_left ..)).allows hallow
    · have hbusy : ∀ n, p₁.world.busy n < max W (p₁.world.tasks.length + 1) :=
        fun n => Nat.lt_of_le_of_lt (p₁.world.busy_le n) (by omega)
      cases l with
      | run τ c => exact fun _ _ _ => trivial
      | env e =>
        cases e with
        | client n payload => exact hbusy n
        | accept id => exact fun c _ => hbusy c.dest
        | heartbeat | tick | crash => trivial

/-- **Every mutex can be given back, with enough workers.**  From every state that any run has
    reached, smooth steps give back the replication mutex of every live broker, unless they fill
    a log.  The brokers need workers for the requests on the way: with too few it may be held
    for ever (`Cluster/WorkerLimit`). -/
theorem mutex_released {G : Guard Act World EnvStep} {setup : Setup} {p : ClusterPool}
    (h : Reachable clusterMachine G setup.pool p) {n : Int}
    (halive : (p.world.nodes n).alive = true) :
    ∃ p' W, Reachable smoothMachine (workers W) p p' ∧
      (p'.world.Full ∨ (p'.world.nodes n).mutex = none) := by
  have hany := reachable_anyStep h
  cases hmutex : (p.world.nodes n).mutex with
  | none => exact ⟨p, 0, .start, .inr hmutex⟩
  | some τ =>
    obtain ⟨g, hL, -⟩ := locks_invariant hany
    obtain ⟨hat, -⟩ := (hL.mutex n τ).mp hmutex
    obtain ⟨prog, s, hr⟩ := exists_underway hany hat halive
    obtain ⟨p', hto, hend⟩ := release (B := fun _ => False) hany (fun τ hτ => hτ.elim) hr id
      (hr.holds.mp hmutex)
    obtain ⟨W, hW⟩ := exists_workers (reachable_anyStep hto)
    exact ⟨p', W, hW, hend⟩

/-- Broker 1 awaits an acknowledgement, and gets it. -/
theorem mutex_released_two :
    ∃ p : ClusterPool, Reachable clusterMachine brokerTraffic twoBrokers.pool p ∧
      (p.world.nodes 1).mutex = some 0 ∧
      ∃ p' W, Reachable smoothMachine (workers W) p p' ∧
        (p'.world.Full ∨ (p'.world.nodes 1).mutex = none) := by
  obtain ⟨p, h, hmutex, halive⟩ := clusterMachine.exists_reachable clientTraffic_allows
    (fun p => (p.world.nodes 1).mutex = some 0 ∧ (p.world.nodes 1).alive = true)
    twoBrokers.pool ([.env (.client 1 (produceOf [65]))] ++ go 0 9) (by decide +kernel)
  exact ⟨p, h, hmutex, mutex_released h halive⟩

end StreamingPlatform
