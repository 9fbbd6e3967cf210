import StreamingPlatform.Cluster.Runs
import StreamingPlatform.Lib.Path

namespace StreamingPlatform

open ByteString Interleave World

/-!
# Cluster — where the model stands for the code

A step of the model is one of the code as long as

* records are appended to topics without `/`: the directory of such a log belongs to its key
  (`answers_of_plainKeys`), while `t` and `./t` have logs on the same files;
* a frame between brokers has fewer than `2 ^ 32` bytes, since `write_frame` keeps the last 32
  bits of its length;
* no log is opened while another thread of the broker is about to look for one:
  `get_or_create_log` changes the map of the logs, and no mutex protects it.

`inScope` adds these conditions to those of a guard.  What a thread is about to do follows from
the world, since a program goes on by what its actions have returned (`next?_eq`).

An append that throws ends its broker (`append_exception_escapes`).  In a run it is a crash in
place of the append.
-/

/-! ### What a thread does next -/

namespace World

/-- What a thread has done, and what it was told. -/
def events (w : World) (τ : Nat) : List ((a : Act) × a.Result) :=
  (w.history.filter (fun e => e.thread = τ)).map (fun e => ⟨e.act, e.result⟩)

/-- What is left of the program of a thread. -/
def rest? (w : World) (τ : Nat) : Option (Program (Option Response)) :=
  (w.tasks[τ]?).bind (fun task => (task.program (w.nodes task.node).config).resume (w.events τ))

/-- What a thread does next. -/
def next? (w : World) (τ : Nat) : Option Act := (w.rest? τ).bind Prog.next?

variable {w w' : World} {τ : Nat}

/-- An action is recorded with its own thread. -/
theorem events_exec {τ' : Nat} {a : Act} {c : Choice} {r : a.Result}
    (h : exec τ' a c w = some (r, w')) (τ : Nat) :
    w'.events τ = w.events τ ++ if τ' = τ then [⟨a, r⟩] else [] := by
  unfold events
  rw [(exec_history h).1, List.filter_append, List.map_append]
  by_cases hτ : τ' = τ <;> simp [hτ]

/-- Nobody has acted in the name of a thread that is still to be started. -/
theorem events_eq_nil (hran : ∀ e ∈ w.history, e.thread < w.tasks.length)
    (hτ : w.tasks.length ≤ τ) : w.events τ = [] := by
  unfold events
  rw [List.map_eq_nil_iff, List.filter_eq_nil_iff]
  intro e he
  have hlt := hran e he
  simp only [decide_eq_true_eq]
  omega

/-- Brokers are not reconfigured. -/
theorem rest?_congr (hmono : w.Mono w') {task : Task} (hτ : w.tasks[τ]? = some task)
    (hevents : w'.events τ = w.events τ) : w'.rest? τ = w.rest? τ := by
  unfold rest?
  rw [hτ, hmono.task hτ, hevents, Option.bind_some, Option.bind_some, (hmono.nodes _).config]

end World

section Next

variable {G : Guard Act World EnvStep} {setup : Setup} {p : ClusterPool}

/-- The program of every thread is what is left of its own by the history. -/
theorem rest?_of_reachable (h : Reachable clusterMachine G setup.pool p) {τ : Nat}
    {prog : Program (Option Response)} (hprog : p.progs[τ]? = some prog) :
    p.world.rest? τ = some prog := by
  refine (Reachable.threads (J := fun w => ∀ e ∈ w.history, e.thread < w.tasks.length)
    (I := fun w τ prog => w.rest? τ = some prog) ?_ ?_ ?_ ?_ h).2 τ prog hprog
  · intro τ a k c w r w' hran hrest _ hexec
    obtain ⟨hhistory, htasks⟩ := World.exec_history hexec
    have hmono := (World.exec_mono hexec).1
    have hevents := World.events_exec hexec
    obtain ⟨task, hτ, hresume⟩ := Option.bind_eq_some_iff.mp hrest
    refine ⟨?_, ?_, fun τ' prog hne hrest' => ?_⟩
    · intro e he
      rw [hhistory] at he
      rw [htasks]
      rcases List.mem_append.mp he with he | he
      · exact hran e he
      · obtain rfl := List.mem_singleton.mp he
        exact (List.getElem?_eq_some_iff.mp hτ).1
    · -- the thread goes on with what its action has returned
      unfold World.rest?
      rw [hmono.task hτ, Option.bind_some, (hmono.nodes _).config, hevents τ, if_pos rfl]
      exact Prog.resume_concat hresume r
    · obtain ⟨task', hτ', -⟩ := Option.bind_eq_some_iff.mp hrest'
      rw [World.rest?_congr hmono hτ' (by rw [hevents τ', if_neg (Ne.symm hne), List.append_nil])]
      exact hrest'
  · intro n e w w' started hran _ henv
    obtain ⟨hframe, hstarted⟩ := World.env_cases henv
    have hmono := (World.env_mono henv).1
    have hevents : ∀ τ, w'.events τ = w.events τ := fun τ => by
      unfold World.events
      rw [hframe.history]
    have hold : ∀ τ prog, τ < n → w.rest? τ = some prog → w'.rest? τ = some prog := by
      intro τ prog _ hrest
      obtain ⟨task, hτ, -⟩ := Option.bind_eq_some_iff.mp hrest
      exact (World.rest?_congr hmono hτ (hevents τ)).trans hrest
    rcases hstarted with ⟨rfl, htasks⟩ | ⟨task, rfl, -, -, htasks, rfl⟩
    · refine ⟨fun e he => ?_, fun prog hprog => absurd hprog (by simp), hold⟩
      rw [hframe.history] at he
      rw [htasks]
      exact hran e he
    · refine ⟨fun e he => ?_, fun prog hprog => ?_, hold⟩
      · rw [hframe.history] at he
        rw [htasks, List.length_append]
        exact Nat.lt_add_right _ (hran e he)
      · -- a new thread has all of its program before it
        obtain rfl := Option.some.inj hprog
        unfold World.rest?
        rw [htasks, List.getElem?_concat_length, Option.bind_some, (hmono.nodes _).config, hevents,
          World.events_eq_nil hran (Nat.le_refl _)]
        rfl
  · exact fun e he => absurd he (by simp [Setup.pool])
  · exact fun τ prog hτ => absurd hτ (by simp [Setup.pool])

/-- **The world knows** what every thread does next. -/
theorem next?_eq (h : Reachable clusterMachine G setup.pool p) (τ : Nat) :
    p.world.next? τ = nextAct? p τ := by
  unfold World.next? nextAct?
  cases hprog : p.progs[τ]? with
  | some prog => rw [rest?_of_reachable h hprog]
  | none =>
    have hlen := List.getElem?_eq_none_iff.mp hprog
    rw [length_progs h] at hlen
    unfold World.rest?
    rw [List.getElem?_eq_none_iff.mpr hlen]
    rfl

end Next

/-! ### The conditions -/

/-- The topic that an action appends to. -/
def Act.appendTopic? : Act → Option Bytes
  | .node (.append topic ..) => some topic
  | _ => none

/-- The frame that an action writes to another broker. -/
def Act.brokerFrame? : Act → Option Bytes
  | .net (.send _ payload) => some payload
  | .net (.sendAck (some _) ack) => some (encodeRequest ack)
  | .net (.respond (some _) response) => some (serializeResponse response)
  | _ => none

/-- A record is for a topic without `/`, and the length of a frame between brokers fits into
    its header. -/
def Act.InScope (a : Act) : Prop :=
  (∀ topic ∈ a.appendTopic?, Path.slash ∉ topic) ∧ ∀ frame ∈ a.brokerFrame?, frame.length < 2 ^ 32

instance (a : Act) : Decidable a.InScope := inferInstanceAs (Decidable (_ ∧ _))

theorem Act.InScope.of_none {a : Act} (htopic : a.appendTopic? = none)
    (hframe : a.brokerFrame? = none) : a.InScope := by
  unfold Act.InScope
  rw [htopic, hframe]
  exact ⟨fun _ h => absurd h (by simp), fun _ h => absurd h (by simp)⟩

/-- The calls on the storage engine; each of them looks into `logs_`. -/
def Act.usesLogs : Act → Bool
  | .node (.append ..) | .node (.fetch ..) | .node (.partitionsForTopic _) => true
  | _ => false

/-- An append to a key without a log puts one into `logs_`. -/
def Node.opensLog (s : Node) : Act → Bool
  | .node (.append topic partition ..) => (s.storage.find? (makeKey topic partition)).isNone
  | _ => false

/-- Two threads of a broker at `logs_`, one of which changes it. -/
def Node.races (s : Node) (a a' : Act) : Bool :=
  a.usesLogs && a'.usesLogs && (s.opensLog a || s.opensLog a')

/-- No other thread of the broker is about to do what races with the action. -/
def World.RaceFree (w : World) (τ : Nat) (a : Act) : Prop :=
  ∀ task ∈ w.tasks[τ]?, ∀ τ' < w.tasks.length, τ' ≠ τ →
    ∀ task' ∈ w.tasks[τ']?, task'.node = task.node →
      ∀ a' ∈ w.next? τ', (w.nodes task.node).races a a' = false

instance (w : World) (τ : Nat) (a : Act) : Decidable (w.RaceFree τ a) :=
  inferInstanceAs (Decidable (∀ task ∈ w.tasks[τ]?, _))

/-- What does not look into `logs_` races with nothing. -/
theorem World.RaceFree.of_usesLogs {a : Act} (h : a.usesLogs = false) (w : World) (τ : Nat) :
    w.RaceFree τ a := by
  intro task _ τ' _ _ task' _ _ a' _
  unfold Node.races
  rw [h]
  rfl

/-- What a thread does by itself does not bring others closer to its logs. -/
theorem World.RaceFree.exec {w w' : World} {τ : Nat} {a b : Act} {c : Choice} {r : b.Result}
    (h : w.RaceFree τ a) (hexec : World.exec τ b c w = some (r, w'))
    (hnodes : w'.nodes = w.nodes) : w'.RaceFree τ a := by
  obtain ⟨-, htasks⟩ := World.exec_history hexec
  intro task htask τ' hτ' hne task' htask' hnode a' ha'
  rw [htasks] at htask hτ' htask'
  have hevents : w'.events τ' = w.events τ' := by
    rw [World.events_exec hexec, if_neg (Ne.symm hne), List.append_nil]
  have hsame : w'.next? τ' = w.next? τ' :=
    congrArg (Option.bind · Prog.next?)
      (World.rest?_congr (World.exec_mono hexec).1 htask' hevents)
  rw [hsame] at ha'
  rw [hnodes]
  exact h task htask τ' hτ' hne task' htask' hnode a' ha'

/-- The runs of a guard whose steps the code takes as the model does. -/
def inScope (G : Guard Act World EnvStep) : Guard Act World EnvStep :=
  G.within (fun w τ a => a.InScope ∧ w.RaceFree τ a)

/-- The check for `inScope G`, given one for `G`. -/
def inScope? (ok : ClusterPool → Label Choice EnvStep → Bool) :
    ClusterPool → Label Choice EnvStep → Bool :=
  Guard.within? ok (fun w τ a => a.InScope ∧ w.RaceFree τ a)

theorem inScope_allows {G : Guard Act World EnvStep}
    {ok : ClusterPool → Label Choice EnvStep → Bool} (hok : ∀ p l, ok p l = true → G.Allows p l)
    (p : ClusterPool) (l : Label Choice EnvStep) (h : inScope? ok p l = true) :
    (inScope G).Allows p l :=
  Guard.within_allows hok _ p l h

end StreamingPlatform
