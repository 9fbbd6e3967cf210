import StreamingPlatform.Broker.Waiting
import StreamingPlatform.Cluster.Threads

namespace StreamingPlatform

open ByteString Interleave World

/-!
# Cluster — the replication mutex

What the monitors of all threads say about a whole cluster (`locks_invariant`).  The mutex of a
broker is held by a thread of that broker that has not finished.  If the thread waits for a
frame, it is on a connection that it has opened itself, and the thread that serves the
connection, if one does yet, needs neither a mutex nor another broker (`mutex_holder`).  So
threads that serve a connection wait for each other's mutexes only one at a time and never in a
circle.  A connection that no worker takes up is another matter (`Cluster/WorkerLimit`).
-/

/-- How the monitors fit the world. -/
structure Locks (w : World) (g : Nat → Waiting) : Prop where
  mutex : ∀ n τ, (w.nodes n).mutex = some τ ↔ w.RunsAt τ n ∧ (g τ).held = true
  sent : ∀ τ id payload, (g τ).sent = some (id, payload) →
    ∃ dest, w.Did τ (.net (.send dest payload)) (.sent id)
  elects : ∀ τ, (g τ).elects = true → ∃ task, w.tasks[τ]? = some task ∧ task.source = .heartbeat

namespace Locks

variable {w w' : World} {g : Nat → Waiting} {τ : Nat} {a : Act} {c : Choice} {r : a.Result}

/-- Only `lock` and `unlock` change who holds the mutex. -/
theorem held_next (s : Waiting) (hlock : a ≠ .node .lock) (hunlock : a ≠ .node .unlock) :
    (waitWatch.next s a r).held = s.held := by
  cases a with
  | node a => cases a <;> first | rfl | exact absurd rfl hlock | exact absurd rfl hunlock
  | net a =>
    cases a with
    | send dest payload => cases r <;> rfl
    | receive id => rfl
    | sendAck conn ack => rfl
    | respond conn response => rfl

theorem elects_next (s : Waiting) : (waitWatch.next s a r).elects = s.elects := by
  cases a with
  | node a => cases a <;> rfl
  | net a =>
    cases a with
    | send dest payload => cases r <;> rfl
    | receive id => rfl
    | sendAck conn ack => rfl
    | respond conn response => rfl

variable {s : Waiting}

/-- A connection to wait on has just been opened. -/
theorem sent_next {id : Nat} {payload : Bytes}
    (h : (waitWatch.next s a r).sent = some (id, payload)) :
    ∃ dest, (⟨τ, a, r⟩ : Event) = ⟨τ, .net (.send dest payload), .sent id⟩ := by
  cases a with
  | node a => cases a <;> cases h
  | net a =>
    cases a with
    | send dest payload' =>
      cases r with
      | sent id' =>
        obtain ⟨rfl, rfl⟩ := Prod.mk.inj (Option.some.inj h)
        exact ⟨dest, rfl⟩
      | unreachable => cases h
      | writeFailed => cases h
    | receive id => cases h
    | sendAck conn ack => cases h
    | respond conn response => cases h

/-- The thread that acts knows whether it holds a mutex. -/
theorem mutex_exec_own {n : Int} (h : World.exec τ a c w = some (r, w'))
    (hown : (w.nodes n).mutex = some τ ↔ w.RunsAt τ n ∧ s.held = true) :
    (w'.nodes n).mutex = some τ ↔ w'.RunsAt τ n ∧ (waitWatch.next s a r).held = true := by
  rw [World.runsAt_exec h]
  rcases exec_control h n with ⟨hsame, hnot⟩ | ⟨act, rfl, hat, hcontrol⟩
  · -- the action is not one of this broker
    rw [hsame, hown]
    refine and_congr_right (fun hat => ?_)
    rw [held_next _ (fun ha => hnot ⟨⟨_, ha⟩, hat⟩) (fun ha => hnot ⟨⟨_, ha⟩, hat⟩)]
  · rcases hcontrol.mutex_cases with ⟨rfl, -, hnew⟩ | ⟨rfl, -, hnew⟩ | ⟨hlock, hunlock, hnew⟩
    · rw [hnew]
      exact ⟨fun _ => ⟨hat, rfl⟩, fun _ => rfl⟩
    · rw [hnew]
      exact ⟨fun heq => (by cases heq), fun hheld => absurd hheld.2 Bool.false_ne_true⟩
    · rw [hnew, hown, held_next _ (fun ha => hlock (Act.node.inj ha))
        (fun ha => hunlock (Act.node.inj ha))]

/-- It takes no mutex from others and gives them none. -/
theorem mutex_exec_other (h : World.exec τ a c w = some (r, w')) {τ' : Nat} (hne : τ' ≠ τ)
    (n : Int) : (w'.nodes n).mutex = some τ' ↔ (w.nodes n).mutex = some τ' := by
  rcases exec_control h n with ⟨hsame, -⟩ | ⟨act, -, -, hcontrol⟩
  · rw [hsame]
  rcases hcontrol.mutex_cases with ⟨-, hfree, hnew⟩ | ⟨-, hmine, hnew⟩ | ⟨-, -, hnew⟩
  · rw [hnew, hfree]
    exact ⟨fun heq => absurd (Option.some.inj heq).symm hne, fun heq => by cases heq⟩
  · rw [hnew, hmine]
    exact ⟨fun heq => (by cases heq), fun heq => absurd (Option.some.inj heq).symm hne⟩
  · rw [hnew]

theorem exec (hL : Locks w g) (h : World.exec τ a c w = some (r, w')) :
    Locks w' (Function.update g τ (waitWatch.next (g τ) a r)) := by
  have hmono := (World.exec_mono h).1
  refine ⟨fun n τ' => ?_, fun τ' id payload hsent => ?_, fun τ' helects => ?_⟩
  · by_cases hτ : τ' = τ
    · subst hτ
      rw [Function.update_self]
      exact mutex_exec_own h (hL.mutex n τ')
    · rw [Function.update_of_ne hτ, mutex_exec_other h hτ, World.runsAt_exec h]
      exact hL.mutex n τ'
  · by_cases hτ : τ' = τ
    · subst hτ
      rw [Function.update_self] at hsent
      obtain ⟨dest, hevent⟩ := sent_next (τ := τ') hsent
      refine ⟨dest, ?_⟩
      unfold Did
      rw [← hevent]
      exact World.did_exec h
    · rw [Function.update_of_ne hτ] at hsent
      obtain ⟨dest, hdid⟩ := hL.sent τ' id payload hsent
      exact ⟨dest, hmono.did hdid⟩
  · have hold : (g τ').elects = true := by
      by_cases hτ : τ' = τ
      · subst hτ
        rwa [Function.update_self, elects_next] at helects
      · rwa [Function.update_of_ne hτ] at helects
    obtain ⟨task, htask, hsource⟩ := hL.elects τ' hold
    exact ⟨task, hmono.task htask, hsource⟩

/-- The environment takes no mutex, and a thread that it starts holds none. -/
theorem env (hL : Locks w g) {k : Nat} {e : EnvStep} {started : Option (Program (Option Response))}
    (hidle : (g k).held = false) (hs : s.held = false) (hsent : s.sent = none)
    (h : World.env k e w = some (w', started))
    (helects : s.elects = true → ∃ task, w'.tasks[k]? = some task ∧ task.source = .heartbeat) :
    Locks w' (Function.update g k s) := by
  have hmono := (World.env_mono h).1
  refine ⟨fun n τ => ?_, fun τ id payload hτ => ?_, fun τ hτ => ?_⟩
  · obtain ⟨now, alive, hn⟩ := (World.env_cases h).1.nodes n
    have hheld : (Function.update g k s τ).held = (g τ).held := by
      by_cases hk : τ = k
      · rw [hk, Function.update_self, hs, hidle]
      · rw [Function.update_of_ne hk]
    rw [hn, hheld]
    refine (hL.mutex n τ).trans ⟨fun ⟨hat, hheld⟩ => ⟨hmono.runsAt hat, hheld⟩, ?_⟩
    rintro ⟨⟨task, htask, hnode⟩, hheld⟩
    rcases World.env_task h htask with hold | ⟨-, rfl, -⟩
    · exact ⟨⟨task, hold, hnode⟩, hheld⟩
    · exact absurd (hidle.symm.trans hheld) Bool.false_ne_true
  · by_cases hk : τ = k
    · rw [hk, Function.update_self, hsent] at hτ
      cases hτ
    · rw [Function.update_of_ne hk] at hτ
      obtain ⟨dest, hdid⟩ := hL.sent τ id payload hτ
      exact ⟨dest, hmono.did hdid⟩
  · by_cases hk : τ = k
    · subst hk
      rw [Function.update_self] at hτ
      exact helects hτ
    · rw [Function.update_of_ne hk] at hτ
      obtain ⟨task, htask, hsource⟩ := hL.elects τ hτ
      exact ⟨task, hmono.task htask, hsource⟩

end Locks

/-- The monitor of a thread that is started. -/
def Task.waiting (task : Task) : Waiting := { elects := task.source = .heartbeat }

theorem waits_program (config : BrokerConfig) (task : Task) :
    Follows waitWatch (Waiting.Holding false) (task.program config) task.waiting := by
  unfold Task.program
  cases hsource : task.source with
  | client payload => exact waits_serve payload none rfl
  | peer conn payload => exact waits_serve payload (some conn) rfl
  | heartbeat => exact waits_heartbeat rfl (decide_eq_true hsource)

variable {G : Guard Act World EnvStep} {setup : Setup} {p : ClusterPool}

/-- **In every reachable state** the monitors of the threads fit the world. -/
theorem locks_invariant (h : Reachable clusterMachine G setup.pool p) :
    ∃ g, Locks p.world g ∧
      ∀ τ prog, p.progs[τ]? = some prog → Follows waitWatch (Waiting.Holding false) prog (g τ) := by
  refine waitWatch.invariant_from {} ?_ ?_ rfl ?_ h
  · intro τ a c w g r w' hL _ _ hexec
    exact hL.exec hexec
  · intro n e w g w' started hL _ hidle henv
    rcases (World.env_cases henv).2 with ⟨hnone, -⟩ | ⟨task, rfl, -, -, htasks, hstarted⟩
    · refine ⟨{}, hL.env (by rw [hidle]) rfl rfl henv (fun h => by cases h), fun _ => rfl,
        fun prog hprog => ?_⟩
      rw [hnone] at hprog
      cases hprog
    · refine ⟨task.waiting, hL.env (by rw [hidle]) rfl rfl henv (fun helects => ⟨task, ?_, ?_⟩),
        fun hnone => ?_, fun prog hprog => ?_⟩
      · rw [htasks]
        exact List.getElem?_concat_length
      · exact of_decide_eq_true helects
      · rw [hstarted] at hnone
        cases hnone
      · rw [hstarted, Option.some.injEq] at hprog
        rw [← hprog]
        exact waits_program _ task
  · refine ⟨fun n τ => ?_, fun τ id payload hsent => (by cases hsent),
      fun τ helects => by cases helects⟩
    -- brokers start with their mutex free
    have hfree : (setup.node n).mutex = none := by
      unfold Setup.node
      split <;> rfl
    refine ⟨fun hmutex => (by cases hfree.symm.trans hmutex), fun hruns => ?_⟩
    exact absurd hruns.2 Bool.false_ne_true

/-! ### Who serves prompt requests -/

/-- The rest of the program of a thread that serves a prompt request is free. -/
def PromptlyServed (w : World) (τ : Nat) (prog : Program (Option Response)) : Prop :=
  ∃ task, w.tasks[τ]? = some task ∧
    ∀ id payload, task.source = .peer id payload → Prompt payload → prog.AllActs Act.Free

theorem promptly_served (h : Reachable clusterMachine G setup.pool p) :
    ∀ τ prog, p.progs[τ]? = some prog → PromptlyServed p.world τ prog := by
  refine (Reachable.threads (J := fun _ => True) (I := PromptlyServed) ?_ ?_ trivial ?_ h).2
  · intro τ a k c w r w' _ hown _ hexec
    have hmono := (World.exec_mono hexec).1
    obtain ⟨task, htask, hfree⟩ := hown
    refine ⟨trivial, ⟨task, hmono.task htask, fun id payload hs hp => (hfree id payload hs hp).2 r⟩,
      fun τ' prog _ ⟨task', ht, hf⟩ => ⟨task', hmono.task ht, hf⟩⟩
  · intro n e w w' started _ _ henv
    have hmono := (World.env_mono henv).1
    refine ⟨trivial, fun prog hprog => ?_,
      fun τ prog _ ⟨task, ht, hf⟩ => ⟨task, hmono.task ht, hf⟩⟩
    subst hprog
    obtain ⟨task, -, htask, rfl⟩ := World.env_started henv
    refine ⟨task, htask, fun id payload hsource hprompt => ?_⟩
    unfold Task.program
    rw [hsource]
    exact free_serve hprompt (some id)
  · intro τ prog hprog
    exact absurd hprog (by simp [Setup.pool])

/-- The thread that serves a connection with a prompt request waits for nothing. -/
theorem free_of_servesOn (h : Reachable clusterMachine G setup.pool p) {τ id : Nat} {c : Conn}
    (hconn : p.world.conns[id]? = some c) (hprompt : Prompt c.payload)
    (hserves : p.world.ServesOn τ id) {prog : Program (Option Response)}
    (hprog : p.progs[τ]? = some prog) : prog.AllActs Act.Free := by
  obtain ⟨task, htask, hid⟩ := hserves
  obtain ⟨c', hc', -, htaskeq⟩ := (wired_invariant h).1.served τ task id htask hid
  rw [hconn, Option.some.injEq] at hc'
  obtain ⟨task', htask', hfree⟩ := promptly_served h τ prog hprog
  rw [htask, Option.some.injEq] at htask'
  refine hfree id c.payload ?_ hprompt
  rw [← htask', htaskeq, hc']

/-- **Among threads that serve a connection, nobody waits in a circle for a mutex.**  In every
    reachable state the replication mutex of a broker is held by a thread of that broker that has
    not finished.  If the thread waits for a frame, it is on a connection that it has opened
    itself, and all that is left to do for whoever serves the connection needs neither a mutex
    nor an answer. -/
theorem mutex_holder {G : Guard Act World EnvStep} {setup : Setup} {p : ClusterPool}
    (h : Reachable clusterMachine G setup.pool p) {n : Int} {τ : Nat}
    (hmutex : (p.world.nodes n).mutex = some τ) :
    p.world.RunsAt τ n ∧ ∃ a k, p.progs[τ]? = some (.act a k) ∧
      ∀ id, a = .net (.receive id) → p.world.Opened τ id ∧
        ∃ c, p.world.conns[id]? = some c ∧ Prompt c.payload ∧
          ∀ τ' prog, p.world.ServesOn τ' id → p.progs[τ']? = some prog →
            prog.AllActs Act.Free := by
  obtain ⟨g, hL, hfollows⟩ := locks_invariant h
  obtain ⟨hW, -⟩ := wired_invariant h
  obtain ⟨hat, hheld⟩ := (hL.mutex n τ).mp hmutex
  obtain ⟨task, htask, rfl⟩ := hat
  have hlt : τ < p.progs.length := by
    rw [length_progs h]
    exact (List.getElem?_eq_some_iff.mp htask).1
  refine ⟨⟨task, htask, rfl⟩, ?_⟩
  have hfollow := hfollows τ _ (List.getElem?_eq_getElem hlt)
  cases hprog : p.progs[τ] with
  | ret b =>
    -- a thread that has finished has given the mutex back
    rw [hprog] at hfollow
    exact absurd (hheld.symm.trans hfollow) (by decide)
  | act a k =>
    rw [hprog] at hfollow
    refine ⟨a, k, by rw [List.getElem?_eq_getElem hlt, hprog], ?_⟩
    rintro id rfl
    obtain ⟨payload, hsent, hprompt⟩ := hfollow.1
    obtain ⟨dest, hdid⟩ := hL.sent τ id payload hsent
    have hopening := hW.sent τ dest payload id hdid
    obtain ⟨c, hc, -, hpayload⟩ := hW.conn_of_opening hopening
    have hp : Prompt c.payload := hpayload ▸ hprompt hheld
    exact ⟨⟨_, hopening⟩, c, hc, hp,
      fun τ' prog hserves hprog' => free_of_servesOn h hc hp hserves hprog'⟩

/-- Broker 1 awaits the acknowledgement that broker 2 is about to send. -/
theorem mutex_holder_two :
    ∃ p : ClusterPool, Reachable clusterMachine brokerTraffic twoBrokers.pool p ∧
      (p.world.nodes 1).mutex = some 0 ∧ nextAct? p 0 = some (.net (.receive 0)) ∧
      p.world.Opened 0 0 ∧ p.world.ServesOn 1 0 ∧
      ∀ prog, p.progs[1]? = some prog → prog.AllActs Act.Free := by
  obtain ⟨p, h, hmutex, hnext, htask⟩ := clusterMachine.exists_reachable clientTraffic_allows
    (fun p => (p.world.nodes 1).mutex = some 0 ∧ nextAct? p 0 = some (.net (.receive 0)) ∧
      p.world.tasks[1]?.bind Task.conn? = some 0)
    twoBrokers.pool ([.env (.client 1 (produceOf [65]))] ++ go 0 9 ++ [.env (.accept 0)])
    (by decide +kernel)
  obtain ⟨-, a, k, hprog, hwaits⟩ := mutex_holder h hmutex
  rw [nextAct?_eq hprog, Option.some.injEq] at hnext
  obtain ⟨hopened, c, -, -, hfree⟩ := hwaits 0 hnext
  obtain ⟨task, htask, hconn⟩ := Option.bind_eq_some_iff.mp htask
  exact ⟨p, h, hmutex, by rw [nextAct?_eq hprog, hnext], hopened, ⟨task, htask, hconn⟩,
    fun prog hprog' => hfree 1 prog ⟨task, htask, hconn⟩ hprog'⟩

end StreamingPlatform
