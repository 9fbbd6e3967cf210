import StreamingPlatform.Cluster.World
import Mathlib.Data.List.Infix

namespace StreamingPlatform

open ByteString Interleave

/-!
# Cluster — what never goes away

Every step of the cluster only adds: logs, commit indexes, connections, tasks and history
grow (`World.Mono`).  The one thing that is taken away again is the replication mutex, and
while a thread holds it the others leave the broker's acknowledgement counts alone
(`Node.Held`).  Together they are what a thread relies on (`clusterRely`).
-/

namespace Node

/-- What every step of a broker keeps. -/
structure Mono (s s' : Node) : Prop where
  config : s'.config = s.config
  disk : s'.disk = s.disk
  contents : ∀ key, s.contents key <+: s'.contents key
  opened : ∀ key, (s.storage.find? key).isSome → (s'.storage.find? key).isSome
  commit : ∀ key c, s.replication.commitIndexByLog key = some c →
    ∃ c', c ≤ c' ∧ s'.replication.commitIndexByLog key = some c'

/-- What the others leave alone while `τ` holds the mutex. -/
def Held (τ : Nat) (s s' : Node) : Prop :=
  s.mutex = some τ → s'.mutex = some τ ∧
    s'.replication.ackCounts = s.replication.ackCounts

theorem Mono.refl (s : Node) : Mono s s :=
  ⟨rfl, rfl, fun _ => List.prefix_refl _, fun _ h => h, fun _ c h => ⟨c, le_rfl, h⟩⟩

theorem Mono.trans {s s' s'' : Node} (h : Mono s s') (h' : Mono s' s'') : Mono s s'' := by
  refine ⟨h'.config.trans h.config, h'.disk.trans h.disk,
    fun key => (h.contents key).trans (h'.contents key),
    fun key hk => h'.opened key (h.opened key hk), ?_⟩
  intro key c hc
  obtain ⟨c', hle, hc'⟩ := h.commit key c hc
  obtain ⟨c'', hle', hc''⟩ := h'.commit key c' hc'
  exact ⟨c'', hle.trans hle', hc''⟩

/-- A step that leaves storage and commit indexes alone. -/
theorem Mono.of_eq {s s' : Node} (hconfig : s'.config = s.config) (hdisk : s'.disk = s.disk)
    (hstorage : s'.storage = s.storage)
    (hcommit : s'.replication.commitIndexByLog = s.replication.commitIndexByLog) : Mono s s' := by
  refine ⟨hconfig, hdisk, fun key => ?_, fun key hk => hstorage ▸ hk, fun key c hc => ?_⟩
  · show s.storage.contents s.disk key <+: s'.storage.contents s'.disk key
    rw [hstorage, hdisk]
  · exact ⟨c, le_rfl, hcommit ▸ hc⟩

/-- An append. -/
theorem mono_append (s : Node) (topic : Bytes) (partition : Int) (message : Bytes) :
    Mono s
      { s with storage := (s.storage.append (messageLogs s.disk) topic partition message).2 } := by
  refine ⟨rfl, rfl, fun key => ?_, fun key hk => ?_, fun _ c hc => ⟨c, le_rfl, hc⟩⟩
  · show s.storage.contents s.disk key <+: StorageEngine.contents s.disk _ key
    rw [StorageEngine.contents_append]
    split
    · exact List.prefix_append _ _
    · exact List.prefix_refl _
  · show ((s.storage.append (messageLogs s.disk) topic partition message).2.find? key).isSome
    rw [StorageEngine.find?_append]
    split
    · rfl
    · exact hk

/-- A commit. -/
theorem mono_markCommitted (s : Node) (topic : Bytes) (partition : Int) (offset : Nat) :
    Mono s { s with replication := s.replication.markCommitted topic partition offset } := by
  refine ⟨rfl, rfl, fun _ => List.prefix_refl _, fun _ hk => hk, fun key c hc => ?_⟩
  show ∃ c', c ≤ c' ∧
    (s.replication.markCommitted topic partition offset).commitIndexByLog key = some c'
  rw [ReplicationManager.commitIndexByLog_markCommitted, hc]
  split
  · exact ⟨_, le_max_left _ _, rfl⟩
  · exact ⟨c, le_rfl, rfl⟩

/-- A locked step needs the mutex. -/
theorem locked_eq_some {β : Type} {s : Node} {τ : Nat} {step r : β × Node}
    (h : s.locked τ step = some r) : s.mayLock τ ∧ r = step := by
  unfold locked at h
  split at h
  · next hmay => exact ⟨hmay, (Option.some.inj h).symm⟩
  · exact absurd h (by simp)

/-- Another thread cannot hold a mutex that may be taken. -/
theorem mayLock.not_held {s : Node} {τ τ' : Nat} (h : s.mayLock τ) (hne : τ' ≠ τ)
    (hheld : s.mutex = some τ') : False := by
  rcases h with h | h
  · rw [h] at hheld
    exact absurd hheld (by simp)
  · rw [h] at hheld
    exact hne (Option.some.inj hheld).symm

end Node

/-- What an action can do to its broker.  Of the operations of the replication manager
    that neither open a key nor acknowledge one it is only said what they leave alone: the
    acknowledgements, the commit indexes, or both. -/
inductive NodeAct.Effect (τ : Nat) (s : Node) : NodeAct → Node → Prop where
  | none (a : NodeAct) : Effect τ s a s
  | append (topic : Bytes) (partition : Int) (message : Bytes) (origin : AppendOrigin) :
      (s.contents (makeKey topic partition)).length + 1 < 2 ^ 64 →
      Effect τ s (.append topic partition message origin)
        { s with storage := (s.storage.append (messageLogs s.disk) topic partition message).2 }
  | join (groupId memberId topic : Bytes) (partitions : List Int) :
      Effect τ s (.join groupId memberId topic partitions)
        { s with groups := (s.groups.join groupId memberId topic partitions).2 }
  | leave (groupId memberId : Bytes) (partitions : List Int) :
      Effect τ s (.leave groupId memberId partitions)
        { s with groups := s.groups.leave groupId memberId partitions }
  | commitOffset (groupId memberId topic : Bytes) (partition : Int) (offset : Nat) :
      Effect τ s (.commit groupId memberId topic partition offset)
        { s with groups := (s.groups.commit groupId memberId topic partition offset).2 }
  | refreshTopic (topic : Bytes) (partitions : List Int) :
      Effect τ s (.refreshTopic topic partitions)
        { s with groups := s.groups.refreshTopic topic partitions }
  | lock : s.mutex = Option.none → Effect τ s .lock { s with mutex := some τ }
  | unlock : s.mutex = some τ → Effect τ s .unlock { s with mutex := Option.none }
  | acks (a : NodeAct) (replication : ReplicationManager) :
      ((∃ topic partition offset, a = .openAcks topic partition offset ∧
          replication = s.replication.openAcks s.config topic partition offset) ∨
        ∃ id topic partition offset, a = .handleAck id topic partition offset ∧
          replication = s.replication.handleAck id topic partition offset) →
      s.mayLock τ → replication.commitIndexByLog = s.replication.commitIndexByLog →
      Effect τ s a { s with replication := replication }
  | markCommitted (topic : Bytes) (partition : Int) (offset : Nat) : s.mayLock τ →
      Effect τ s (.markCommitted topic partition offset)
        { s with replication := s.replication.markCommitted topic partition offset }
  | liveness (a : NodeAct) (replication : ReplicationManager) (type : BrokerType)
      (leaderBrokerId : Int) : s.mayLock τ →
      replication.commitIndexByLog = s.replication.commitIndexByLog →
      replication.ackCounts = s.replication.ackCounts →
      replication.ackFollowers = s.replication.ackFollowers →
      Effect τ s a { s with
        replication := replication, type := type, leaderBrokerId := leaderBrokerId }

/-- An acknowledgement commits nothing. -/
theorem ReplicationManager.commitIndexByLog_handleAck (manager : ReplicationManager)
    (followerId : Int) (topic : Bytes) (partition : Int) (offset : Nat) :
    (manager.handleAck followerId topic partition offset).commitIndexByLog
      = manager.commitIndexByLog := by
  unfold ReplicationManager.handleAck
  dsimp only
  split <;> rfl

/-- An election changes the manager as far as peers expire. -/
theorem ReplicationManager.maybeElectLeader_snd (manager : ReplicationManager)
    (config : BrokerConfig) (leaderId : Int) (now : Nat) :
    (manager.maybeElectLeader config leaderId now).2 = manager.expirePeers now := by
  unfold ReplicationManager.maybeElectLeader
  dsimp only
  split <;> rfl

variable {c : Choice} {w w' : World} {k : Nat} {e : EnvStep}
  {started : Option (Program (Option Response))}

/-- **One action, taken apart.** -/
theorem NodeAct.step_effect {τ : Nat} {s : Node} {a : NodeAct} {r : a.Result} {s' : Node}
    (h : a.step τ s c = some (r, s')) : NodeAct.Effect τ s a s' := by
  -- an action that changes nothing, whatever it returns
  have hsame : ∀ {x : a.Result}, (some (x, s) : Option (a.Result × Node)) = some (r, s') →
      NodeAct.Effect τ s a s' := by
    intro x heq
    rw [← (Prod.mk.inj (Option.some.inj heq)).2]
    exact .none a
  -- an operation under the mutex: what it does when the mutex may be taken
  have hlocked : ∀ {x : a.Result} {t : Node}, s.locked τ (x, t) = some (r, s') →
      (s.mayLock τ → NodeAct.Effect τ s a t) → NodeAct.Effect τ s a s' := by
    intro x t heq heffect
    obtain ⟨hmay, heq'⟩ := Node.locked_eq_some heq
    rw [(Prod.mk.inj heq').2]
    exact heffect hmay
  cases a with
  | append topic partition message origin =>
    rw [NodeAct.step] at h
    split at h
    · next hroom =>
      obtain ⟨-, rfl⟩ := Prod.mk.inj (Option.some.inj h)
      exact .append topic partition message origin hroom
    · exact absurd h (by simp)
  | join groupId memberId topic partitions =>
    obtain ⟨-, rfl⟩ := Prod.mk.inj (Option.some.inj h)
    exact .join groupId memberId topic partitions
  | leave groupId memberId partitions =>
    obtain ⟨-, rfl⟩ := Prod.mk.inj (Option.some.inj h)
    exact .leave groupId memberId partitions
  | commit groupId memberId topic partition offset =>
    obtain ⟨-, rfl⟩ := Prod.mk.inj (Option.some.inj h)
    exact .commitOffset groupId memberId topic partition offset
  | refreshTopic topic partitions =>
    obtain ⟨-, rfl⟩ := Prod.mk.inj (Option.some.inj h)
    exact .refreshTopic topic partitions
  | lock =>
    rw [NodeAct.step] at h
    split at h
    · next hfree =>
      obtain ⟨-, rfl⟩ := Prod.mk.inj (Option.some.inj h)
      exact .lock hfree
    · exact absurd h (by simp)
  | unlock =>
    rw [NodeAct.step] at h
    split at h
    · next hmine =>
      obtain ⟨-, rfl⟩ := Prod.mk.inj (Option.some.inj h)
      exact .unlock hmine
    · exact absurd h (by simp)
  | openAcks topic partition offset =>
    exact hlocked h (fun hmay => .acks _ _ (.inl ⟨topic, partition, offset, rfl, rfl⟩) hmay rfl)
  | handleAck id topic partition offset =>
    refine hlocked h (fun hmay => ?_)
    split
    · exact .acks _ _ (.inr ⟨id, topic, partition, offset, rfl, rfl⟩) hmay
        (ReplicationManager.commitIndexByLog_handleAck ..)
    · exact .none _
  | markCommitted topic partition offset =>
    exact hlocked h (fun hmay => .markCommitted topic partition offset hmay)
  | markFollowerFailed | handleHeartbeat | failExpired =>
    exact hlocked h (fun hmay => .liveness _ _ _ _ hmay rfl rfl rfl)
  | maybeElectLeader =>
    refine hlocked h (fun hmay => ?_)
    rw [ReplicationManager.maybeElectLeader_snd]
    split
    · exact .liveness _ _ _ _ hmay rfl rfl rfl
    · exact .liveness _ _ _ _ hmay rfl rfl rfl
  | quorumReached | isCommitted | isPeerAvailable => exact hlocked h (fun _ => .none _)
  | isLeader | getLeaderEndpoint | fetch | partitionsForTopic | isAssigned | nextOffset =>
    exact hsame h
  | polls => cases c <;> exact hsame h

namespace NodeAct.Effect

variable {τ : Nat} {s s' : Node} {a : NodeAct}

/-- **Every action of a broker only adds.** -/
theorem mono (h : Effect τ s a s') : s.Mono s' := by
  cases h with
  | none => exact .refl s
  | append topic partition message origin _ =>
    exact Node.mono_append s topic partition message
  | markCommitted topic partition offset _ =>
    exact Node.mono_markCommitted s topic partition offset
  | acks _ replication _ _ hcommit => exact .of_eq rfl rfl rfl hcommit
  | liveness _ replication type leaderBrokerId _ hcommit _ _ => exact .of_eq rfl rfl rfl hcommit
  | join | leave | commitOffset | refreshTopic | lock | unlock => exact .of_eq rfl rfl rfl rfl

/-- It respects the mutex of other threads. -/
theorem held (h : Effect τ s a s') {τ' : Nat} (hne : τ' ≠ τ) : s.Held τ' s' := by
  intro hheld
  cases h with
  | lock hfree => rw [hfree] at hheld; exact absurd hheld (by simp)
  | unlock hmine =>
    rw [hmine] at hheld
    exact absurd (Option.some.inj hheld).symm hne
  -- the counts change only under the mutex, which `τ'` holds
  | acks _ replication _ hmay _ => exact (hmay.not_held hne hheld).elim
  | liveness _ replication type leaderBrokerId hmay _ _ _ => exact (hmay.not_held hne hheld).elim
  | markCommitted topic partition offset hmay => exact (hmay.not_held hne hheld).elim
  | none | append | join | leave | commitOffset | refreshTopic => exact ⟨hheld, rfl⟩

/-- What an action does to the logs. -/
theorem storage (h : Effect τ s a s') :
    s'.storage = s.storage ∨ ∃ topic partition message origin,
      a = .append topic partition message origin ∧
        s'.storage = (s.storage.append (messageLogs s.disk) topic partition message).2 := by
  cases h with
  | append topic partition message origin _ =>
    exact .inr ⟨topic, partition, message, origin, rfl, rfl⟩
  | none | join | leave | commitOffset | refreshTopic | lock | unlock | acks | markCommitted
  | liveness => exact .inl rfl

/-- What an action does to the groups: an operation of the group manager, or nothing. -/
theorem groups_cases (h : Effect τ s a s') :
    s'.groups = s.groups ∨
    (∃ groupId memberId topic partitions, a = .join groupId memberId topic partitions ∧
      s'.groups = (s.groups.join groupId memberId topic partitions).2) ∨
    (∃ groupId memberId partitions, a = .leave groupId memberId partitions ∧
      s'.groups = s.groups.leave groupId memberId partitions) ∨
    (∃ groupId memberId topic partition offset,
      a = .commit groupId memberId topic partition offset ∧
      s'.groups = (s.groups.commit groupId memberId topic partition offset).2) ∨
    ∃ topic partitions, a = .refreshTopic topic partitions ∧
      s'.groups = s.groups.refreshTopic topic partitions := by
  cases h with
  | join => exact .inr (.inl ⟨_, _, _, _, rfl, rfl⟩)
  | leave => exact .inr (.inr (.inl ⟨_, _, _, rfl, rfl⟩))
  | commitOffset => exact .inr (.inr (.inr (.inl ⟨_, _, _, _, _, rfl, rfl⟩)))
  | refreshTopic => exact .inr (.inr (.inr (.inr ⟨_, _, rfl, rfl⟩)))
  | none | append | lock | unlock | acks | markCommitted | liveness => exact .inl rfl

end NodeAct.Effect

/-! ### Steps, taken apart -/

namespace World

/-- An action is its effect, recorded. -/
theorem exec_cases {τ : Nat} {a : Act} {r : a.Result} (h : exec τ a c w = some (r, w')) :
    ∃ task w₁, w.tasks[τ]? = some task ∧ w.effect τ task.node a c = some (r, w₁) ∧
      w' = { w₁ with history := w₁.history ++ [⟨τ, a, r⟩] } := by
  unfold exec at h
  split at h
  · exact absurd h (by simp)
  · next task htask =>
    obtain ⟨-, h⟩ := Option.ite_none_right_eq_some.mp h
    obtain ⟨⟨r', w₁⟩, heffect, heq⟩ := Option.map_eq_some_iff.mp h
    obtain ⟨rfl, rfl⟩ := Prod.mk.inj heq
    exact ⟨task, w₁, htask, heffect, rfl⟩

/-- An action on the broker's own state. -/
theorem exec_node {τ : Nat} {a : NodeAct} {r : a.Result} (h : exec τ (.node a) c w = some (r, w')) :
    ∃ task s', w.tasks[τ]? = some task ∧ a.step τ (w.nodes task.node) c = some (r, s') ∧
      w' = { w with
        nodes := Function.update w.nodes task.node s'
        history := w.history ++ [⟨τ, .node a, r⟩] } := by
  obtain ⟨task, w₁, htask, heffect, rfl⟩ := exec_cases h
  obtain ⟨⟨r', s'⟩, hstep, heq⟩ := Option.map_eq_some_iff.mp heffect
  obtain ⟨rfl, rfl⟩ := Prod.mk.inj heq
  exact ⟨task, s', htask, hstep, rfl⟩

/-- A socket operation. -/
theorem exec_net {τ : Nat} {a : NetAct} {r : a.Result} (h : exec τ (.net a) c w = some (r, w')) :
    ∃ task conns, w.tasks[τ]? = some task ∧ a.step w.conns c = some (r, conns) ∧
      w' = { w with conns := conns, history := w.history ++ [⟨τ, .net a, r⟩] } := by
  obtain ⟨task, w₁, htask, heffect, rfl⟩ := exec_cases h
  obtain ⟨⟨r', conns⟩, hstep, heq⟩ := Option.map_eq_some_iff.mp heffect
  obtain ⟨rfl, rfl⟩ := Prod.mk.inj heq
  exact ⟨task, conns, htask, hstep, rfl⟩

/-- Every action is recorded, and nothing else is. -/
theorem exec_history {τ : Nat} {a : Act} {r : a.Result} (h : exec τ a c w = some (r, w')) :
    w'.history = w.history ++ [⟨τ, a, r⟩] ∧ w'.tasks = w.tasks := by
  cases a with
  | node a =>
    obtain ⟨task, s', -, -, rfl⟩ := exec_node h
    exact ⟨rfl, rfl⟩
  | net a =>
    obtain ⟨task, conns, -, -, rfl⟩ := exec_net h
    exact ⟨rfl, rfl⟩

end World

/-- The program a thread is started with. -/
def Task.program (config : BrokerConfig) (task : Task) : Program (Option Response) :=
  match task.source with
  | .client payload => serve config payload none
  | .peer conn payload => serve config payload (some conn)
  | .heartbeat => heartbeat config

/-- What the environment never touches: it moves clocks, stops brokers and takes up
    requests. -/
structure World.EnvFrame (w w' : World) : Prop where
  nodes : ∀ n, ∃ now alive, w'.nodes n = { w.nodes n with now := now, alive := alive }
  alive : ∀ n, (w'.nodes n).alive = true → (w.nodes n).alive = true
  conns : ∀ id : Nat, (w'.conns[id]?).map (fun c => (c.dest, c.payload, c.frames))
    = (w.conns[id]?).map (fun c => (c.dest, c.payload, c.frames))
  history : w'.history = w.history

/-- What a thread can be started for. -/
inductive World.Starts (w : World) : EnvStep → Task → Prop where
  | client (n : Int) (payload : Bytes) : Starts w (.client n payload) ⟨n, .client payload⟩
  | accept (id : Nat) (c : Conn) : w.conns[id]? = some c →
      Starts w (.accept id) ⟨c.dest, .peer id c.payload⟩
  | heartbeat (n : Int) : Starts w (.heartbeat n) ⟨n, .heartbeat⟩

namespace World

theorem EnvFrame.of_tasks (w : World) (tasks : List Task) : EnvFrame w { w with tasks := tasks } :=
  ⟨fun n => ⟨(w.nodes n).now, (w.nodes n).alive, rfl⟩, fun _ h => h, fun _ => rfl, rfl⟩

/-- Clocks and crashes touch no log. -/
theorem EnvFrame.of_update (w : World) (n : Int) (now : Nat) (alive : Bool)
    (halive : alive = true → (w.nodes n).alive = true) :
    EnvFrame w { w with
      nodes := Function.update w.nodes n { w.nodes n with now := now, alive := alive } } := by
  refine ⟨fun k => ?_, fun k hk => ?_, fun _ => rfl, rfl⟩
  · by_cases hkn : k = n
    · subst hkn
      exact ⟨now, alive, Function.update_self ..⟩
    · exact ⟨(w.nodes k).now, (w.nodes k).alive, Function.update_of_ne hkn ..⟩
  · by_cases hkn : k = n
    · subst hkn
      dsimp only at hk
      rw [Function.update_self] at hk
      exact halive hk
    · dsimp only at hk
      rwa [Function.update_of_ne hkn] at hk

/-- A thread that starts is the next one. -/
theorem start_eq_some {task : Task} {program : Program (Option Response)}
    {r : World × Option (Program (Option Response))} (h : w.start k task program = some r) :
    k = w.tasks.length ∧ (w.nodes task.node).alive ∧
      r = ({ w with tasks := w.tasks ++ [task] }, some program) := by
  unfold start at h
  split at h
  · next hc => exact ⟨hc.1, hc.2, (Option.some.inj h).symm⟩
  · exact absurd h (by simp)

/-- **A step of the environment**: it keeps the frame and starts at most one thread. -/
theorem env_cases (h : env k e w = some (w', started)) :
    EnvFrame w w' ∧
      ((started = none ∧ w'.tasks = w.tasks) ∨
        ∃ task, k = w.tasks.length ∧ w.Starts e task ∧ (w.nodes task.node).alive ∧
          w'.tasks = w.tasks ++ [task] ∧
          started = some (task.program (w.nodes task.node).config)) := by
  cases e with
  | client n payload =>
    unfold env at h
    dsimp only at h
    split at h
    · exact absurd h (by simp)
    · obtain ⟨hk, halive, heq⟩ := start_eq_some h
      obtain ⟨rfl, rfl⟩ := Prod.mk.inj heq
      exact ⟨.of_tasks _ _, .inr ⟨_, hk, .client n payload, halive, rfl, rfl⟩⟩
  | accept id =>
    unfold env at h
    dsimp only at h
    split at h
    · exact absurd h (by simp)
    · next c hc =>
      split at h
      · exact absurd h (by simp)
      · obtain ⟨hk, halive, heq⟩ := start_eq_some h
        obtain ⟨rfl, rfl⟩ := Prod.mk.inj heq
        refine ⟨⟨fun n => ⟨(w.nodes n).now, (w.nodes n).alive, rfl⟩, fun _ h => h,
            fun id' => ?_, rfl⟩,
          .inr ⟨_, hk, .accept id c hc, halive, rfl, rfl⟩⟩
        -- only the mark of the accepted connection has changed
        show ((w.conns.set id _)[id']?).map _ = _
        by_cases hid : id = id'
        · subst hid
          have hlt : id < w.conns.length := (List.getElem?_eq_some_iff.mp hc).1
          rw [List.getElem?_set_self hlt, hc]
          rfl
        · rw [List.getElem?_set_ne hid]
  | heartbeat n =>
    obtain ⟨hk, halive, heq⟩ := start_eq_some h
    obtain ⟨rfl, rfl⟩ := Prod.mk.inj heq
    exact ⟨.of_tasks _ _, .inr ⟨_, hk, .heartbeat n, halive, rfl, rfl⟩⟩
  | tick n d =>
    obtain ⟨rfl, rfl⟩ := Prod.mk.inj (Option.some.inj h)
    exact ⟨.of_update w n _ (w.nodes n).alive id, .inl ⟨rfl, rfl⟩⟩
  | crash n =>
    obtain ⟨rfl, rfl⟩ := Prod.mk.inj (Option.some.inj h)
    exact ⟨.of_update w n (w.nodes n).now false (fun h => absurd h (by decide)), .inl ⟨rfl, rfl⟩⟩

/-- A task after a step of the environment is an old one or the one just started. -/
theorem env_task (h : env k e w = some (w', started)) {τ : Nat} {task : Task}
    (hτ : w'.tasks[τ]? = some task) :
    w.tasks[τ]? = some task ∨
      (τ = w.tasks.length ∧ k = τ ∧ w.Starts e task ∧ (w.nodes task.node).alive ∧
        started = some (task.program (w.nodes task.node).config)) := by
  rcases (env_cases h).2 with ⟨-, htasks⟩ | ⟨new, hk, hstarts, halive, htasks, hstarted⟩
  · exact .inl (htasks ▸ hτ)
  rw [htasks] at hτ
  rcases Nat.lt_or_ge τ w.tasks.length with hlt | hge
  · rw [List.getElem?_append_left hlt] at hτ
    exact .inl hτ
  · rw [List.getElem?_append_right hge, List.getElem?_singleton] at hτ
    split at hτ
    · next hzero =>
      have hlast : τ = w.tasks.length := by omega
      obtain rfl := Option.some.inj hτ
      exact .inr ⟨hlast, hk.trans hlast.symm, hstarts, halive, hstarted⟩
    · exact absurd hτ (by simp)

/-! ### Monotonicity -/

/-- What every step of the cluster keeps. -/
structure Mono (w w' : World) : Prop where
  nodes : ∀ n, (w.nodes n).Mono (w'.nodes n)
  conns : ∀ (id : Nat) (c : Conn), w.conns[id]? = some c →
    ∃ c', w'.conns[id]? = some c' ∧ c'.dest = c.dest ∧ c'.payload = c.payload
  tasks : w.tasks <+: w'.tasks
  history : w.history <+: w'.history

theorem Mono.refl (w : World) : Mono w w :=
  ⟨fun _ => .refl _, fun _ c hc => ⟨c, hc, rfl, rfl⟩, List.prefix_refl _, List.prefix_refl _⟩

theorem Mono.trans {w'' : World} (h : Mono w w') (h' : Mono w' w'') : Mono w w'' := by
  refine ⟨fun n => (h.nodes n).trans (h'.nodes n), ?_, h.tasks.trans h'.tasks,
    h.history.trans h'.history⟩
  intro id c hc
  obtain ⟨c₁, hc₁, hd₁, hp₁⟩ := h.conns id c hc
  obtain ⟨c₂, hc₂, hd₂, hp₂⟩ := h'.conns id c₁ hc₁
  exact ⟨c₂, hc₂, hd₂.trans hd₁, hp₂.trans hp₁⟩

/-- Tasks stay. -/
theorem Mono.task (h : Mono w w') {τ : Nat} {task : Task} (ht : w.tasks[τ]? = some task) :
    w'.tasks[τ]? = some task := by
  obtain ⟨rest, hrest⟩ := h.tasks
  rw [← hrest, List.getElem?_append_left (List.getElem?_eq_some_iff.mp ht).1]
  exact ht

/-- So does the history. -/
theorem Mono.event (h : Mono w w') {e : Event} (he : e ∈ w.history) : e ∈ w'.history :=
  h.history.subset he

/-- The connections after a frame has been written. -/
theorem getElem?_writeFrame (conns : List Conn) (conn : Option Nat) (frame : Bytes) (id : Nat) :
    (writeFrame conns conn frame)[id]? = (conns[id]?).map (fun c =>
      if conn = some id then { c with frames := c.frames ++ [frame] } else c) := by
  cases conn with
  | none => simp [writeFrame]
  | some id' =>
    rw [writeFrame, List.getElem?_modify]
    by_cases hid : id' = id
    · subst hid
      simp
    · simp [hid]

end World

/-- What a socket operation does to the connections: one is opened, a frame is written,
    or nothing changes. -/
theorem NetAct.step_cases {a : NetAct} {conns conns' : List Conn} {r : a.Result}
    (h : a.step conns c = some (r, conns')) :
    conns' = conns ∨
      (∃ dest payload, a = .send dest payload ∧
        conns' = conns ++ [{ dest := dest, payload := payload }]) ∨
      (∃ conn ack, a = .sendAck conn ack ∧ conns' = writeFrame conns conn (encodeRequest ack)) ∨
      ∃ conn response, a = .respond conn response ∧
        conns' = writeFrame conns conn (serializeResponse response) := by
  cases a with
  | send dest payload =>
    cases c with
    | succeeds => exact .inr (.inl ⟨dest, payload, rfl, (Prod.mk.inj (Option.some.inj h)).2.symm⟩)
    | fails => exact .inl (Prod.mk.inj (Option.some.inj h)).2.symm
    | writeFails => exact .inl (Prod.mk.inj (Option.some.inj h)).2.symm
    | times n => exact absurd h (by simp [NetAct.step])
  | receive conn =>
    cases c with
    | succeeds =>
      simp only [NetAct.step] at h
      split at h
      · exact .inl (Prod.mk.inj (Option.some.inj h)).2.symm
      · exact absurd h (by simp)
    | fails => exact .inl (Prod.mk.inj (Option.some.inj h)).2.symm
    | writeFails => exact absurd h (by simp [NetAct.step])
    | times n => exact absurd h (by simp [NetAct.step])
  | sendAck conn ack =>
    cases c with
    | succeeds =>
      exact .inr (.inr (.inl ⟨conn, ack, rfl, (Prod.mk.inj (Option.some.inj h)).2.symm⟩))
    | fails => exact .inl (Prod.mk.inj (Option.some.inj h)).2.symm
    | writeFails => exact absurd h (by simp [NetAct.step])
    | times n => exact absurd h (by simp [NetAct.step])
  | respond conn response =>
    cases c with
    | succeeds =>
      exact .inr (.inr (.inr ⟨conn, response, rfl, (Prod.mk.inj (Option.some.inj h)).2.symm⟩))
    | fails => exact .inl (Prod.mk.inj (Option.some.inj h)).2.symm
    | writeFails => exact absurd h (by simp [NetAct.step])
    | times n => exact absurd h (by simp [NetAct.step])

/-- Connections keep their destination and their request. -/
theorem NetAct.step_conns {a : NetAct} {conns conns' : List Conn} {r : a.Result}
    (h : a.step conns c = some (r, conns')) (id : Nat) (conn : Conn) (hc : conns[id]? = some conn) :
    ∃ conn', conns'[id]? = some conn' ∧ conn'.dest = conn.dest ∧ conn'.payload = conn.payload := by
  -- a frame that is written changes neither
  have hwrite : ∀ target frame, ∃ conn', (writeFrame conns target frame)[id]? = some conn' ∧
      conn'.dest = conn.dest ∧ conn'.payload = conn.payload := by
    intro target frame
    rw [World.getElem?_writeFrame, hc, Option.map_some]
    refine ⟨_, rfl, ?_⟩
    split <;> exact ⟨rfl, rfl⟩
  rcases NetAct.step_cases h with rfl | ⟨dest, payload, -, rfl⟩ | ⟨target, ack, -, rfl⟩ |
    ⟨target, response, -, rfl⟩
  · exact ⟨conn, hc, rfl, rfl⟩
  · refine ⟨conn, ?_, rfl, rfl⟩
    rw [List.getElem?_append_left (List.getElem?_eq_some_iff.mp hc).1]
    exact hc
  · exact hwrite target _
  · exact hwrite target _

namespace World

/-- An action only adds, and respects the mutexes that others hold. -/
theorem exec_mono {τ : Nat} {a : Act} {r : a.Result} (h : exec τ a c w = some (r, w')) :
    Mono w w' ∧ ∀ τ', τ' ≠ τ → ∀ n, Node.Held τ' (w.nodes n) (w'.nodes n) := by
  cases a with
  | node a =>
    obtain ⟨task, s', -, hstep, rfl⟩ := exec_node h
    have heffect := NodeAct.step_effect hstep
    refine ⟨⟨fun n => ?_, fun _ c hc => ⟨c, hc, rfl, rfl⟩, List.prefix_refl _,
      List.prefix_append _ _⟩, fun τ' hne n => ?_⟩
    · show (w.nodes n).Mono (Function.update w.nodes task.node s' n)
      by_cases hn : n = task.node
      · subst hn
        rw [Function.update_self]
        exact heffect.mono
      · rw [Function.update_of_ne hn]
        exact .refl _
    · show Node.Held τ' (w.nodes n) (Function.update w.nodes task.node s' n)
      by_cases hn : n = task.node
      · subst hn
        rw [Function.update_self]
        exact heffect.held hne
      · rw [Function.update_of_ne hn]
        exact fun hm => ⟨hm, rfl⟩
  | net a =>
    obtain ⟨task, conns, -, hstep, rfl⟩ := exec_net h
    exact ⟨⟨fun _ => .refl _, fun id conn hc => NetAct.step_conns hstep id conn hc,
      List.prefix_refl _, List.prefix_append _ _⟩, fun _ _ _ hm => ⟨hm, rfl⟩⟩

/-- Connections that agree up to who takes them up. -/
theorem conn_of_map_eq {o o' : Option Conn} {c : Conn}
    (h : o'.map (fun c => (c.dest, c.payload, c.frames))
      = o.map (fun c => (c.dest, c.payload, c.frames)))
    (hc : o = some c) :
    ∃ c', o' = some c' ∧ c'.dest = c.dest ∧ c'.payload = c.payload ∧ c'.frames = c.frames := by
  subst hc
  obtain ⟨c', hc', heq⟩ := Option.map_eq_some_iff.mp h
  rw [Prod.mk.injEq, Prod.mk.injEq] at heq
  exact ⟨c', hc', heq⟩

/-- The environment keeps the frames of a connection. -/
theorem EnvFrame.conn (h : EnvFrame w w') {id : Nat} {c' : Conn} (hc : w'.conns[id]? = some c') :
    ∃ c, w.conns[id]? = some c ∧ c.dest = c'.dest ∧ c.payload = c'.payload ∧
      c.frames = c'.frames :=
  conn_of_map_eq (h.conns id).symm hc

/-- A step of the environment only adds and leaves mutexes and counts alone. -/
theorem env_mono (h : env k e w = some (w', started)) :
    Mono w w' ∧ ∀ τ n, Node.Held τ (w.nodes n) (w'.nodes n) := by
  obtain ⟨hframe, hstart⟩ := env_cases h
  refine ⟨⟨fun n => ?_, fun id c hc => ?_, ?_, hframe.history ▸ List.prefix_refl _⟩,
    fun τ n hm => ?_⟩
  · obtain ⟨now, alive, hn⟩ := hframe.nodes n
    rw [hn]
    exact .of_eq rfl rfl rfl rfl
  · obtain ⟨c', hc', hdest, hpayload, -⟩ := conn_of_map_eq (hframe.conns id) hc
    exact ⟨c', hc', hdest, hpayload⟩
  · rcases hstart with ⟨-, htasks⟩ | ⟨task, -, -, -, htasks, -⟩
    · rw [htasks]
    · rw [htasks]
      exact List.prefix_append _ _
  · obtain ⟨now, alive, hn⟩ := hframe.nodes n
    rw [hn]
    exact ⟨hm, rfl⟩

end World

/-- What thread `τ` relies on: the others only add, and while it holds the mutex of a
    broker they keep away from its acknowledgement counts. -/
def clusterRely : Rely clusterMachine where
  Rel τ w w' := w.Mono w' ∧ ∀ n, Node.Held τ (w.nodes n) (w'.nodes n)
  Mono := World.Mono
  refl _ w := ⟨.refl w, fun _ hm => ⟨hm, rfl⟩⟩
  trans := by
    intro τ w w' w'' h h'
    refine ⟨h.1.trans h'.1, fun n hm => ?_⟩
    obtain ⟨hm₁, hc₁⟩ := h.2 n hm
    obtain ⟨hm₂, hc₂⟩ := h'.2 n hm₁
    exact ⟨hm₂, hc₂.trans hc₁⟩
  mono_refl := .refl
  mono_trans := .trans
  mono_of_rel := fun h => h.1
  exec_rel := fun h hne => ⟨(World.exec_mono h).1, (World.exec_mono h).2 _ hne⟩
  exec_mono := fun h => (World.exec_mono h).1
  env_rel := fun h τ => ⟨(World.env_mono h).1, (World.env_mono h).2 τ⟩

end StreamingPlatform
