import StreamingPlatform.Cluster.Replicas
import StreamingPlatform.Protocol.Frame

namespace StreamingPlatform

open ByteString Interleave

/-!
# Cluster — a leader and its peers, one request at a time

A broker handles a request while nothing else goes on in the cluster.  What it sends to a peer
that can be reached is handled there to the end (`Brokers.step`); which peers can be reached
does not change meanwhile.  Everything a leader does to its peers then has one outcome:

* `Brokers.visit` — a round of one of the three loops over the peers;
* `Brokers.visitAll` — a whole call, which holds the mutex from beginning to end;
* `runs_replicateMessage`, `runs_replicateBatch`, `runs_broadcastCommit` — the programs do
  this, each with its own request and with its own way to take the answer.
-/

/-- An acknowledgement is written before the response. -/
def firstFrame (acks : List Request) (response : Response) : Bytes :=
  match acks with
  | [] => serializeResponse response
  | ack :: _ => encodeRequest ack

/-- Thread `τ` of a broker takes up a request and handles it to the end: the broker's state
    afterwards, and what the sender reads first. -/
def Node.Serves (τ : Nat) (s : Node) (payload : Bytes) (s' : Node) (frame : Bytes) : Prop :=
  ∃ response acks,
    (processRequest s.config (Frame.delivered payload) (some 0)).Runs (Node.replying true τ) (s, [])
      response (s', acks) ∧
    frame = Frame.delivered (firstFrame acks response)

/-- The brokers, by their ids. -/
structure Brokers where
  nodes : Int → Node
  /-- What can be read from the connection that was opened last. -/
  frame : Option Bytes := none

/-- A round of a loop of broker `b` over its peers, at its replication manager. -/
def ReplicationManager.visited (b : Int) (note : Int → ReplicationManager → ReplicationManager)
    (m : ReplicationManager) (p : Int) : ReplicationManager :=
  if p = b ∨ m.failedPeers p = true then m else note p m

namespace Brokers

/-- Broker `n` is in state `s`. -/
def set (w : Brokers) (n : Int) (s : Node) : Brokers :=
  { w with nodes := Function.update w.nodes n s }

/-- The replication manager of broker `n` changes. -/
def manage (w : Brokers) (n : Int) (f : ReplicationManager → ReplicationManager) : Brokers :=
  w.set n { w.nodes n with replication := f (w.nodes n).replication }

/-- Broker `n` has handled a request. -/
def deliver (w : Brokers) (n : Int) (outcome : Node × Bytes) : Brokers :=
  ⟨Function.update w.nodes n outcome.1, some outcome.2⟩

/-- A request to broker `n`, which does `outcome` if it can be reached: the answer, and the
    brokers afterwards. -/
def answered (reachable : Int → Bool) (w : Brokers) (n : Int) (outcome : Node × Bytes) :
    Option Bytes × Brokers :=
  if reachable n = true then (some outcome.2, w.deliver n outcome) else (none, w)

/-- **A round** of a loop of broker `b` over its peers, without the broker itself and failed
    peers.  A peer that can be reached does `reply`; what comes back, if anything, is noted. -/
def visit (b : Int) (reachable : Int → Bool) (reply : Node → Node × Bytes)
    (note : Int → Option Bytes → ReplicationManager → ReplicationManager) (w : Brokers)
    (peer : ClusterPeer) : Brokers :=
  let p := peer.brokerId
  if p = b ∨ (w.nodes b).replication.failedPeers p = true then w
  else
    let r := w.answered reachable p (reply (w.nodes p))
    r.2.manage b (note p r.1)

/-- Broker `b` when a call of thread `τ` has taken the mutex and begun with `start`. -/
def hold (τ : Nat) (b : Int) (start : ReplicationManager → ReplicationManager) (w : Brokers) :
    Brokers :=
  w.set b { w.nodes b with
    mutex := some τ, replication := start (w.nodes b).replication }

/-- Broker `b` gives the mutex back. -/
def release (b : Int) (w : Brokers) : Brokers := w.set b { w.nodes b with mutex := none }

/-- **A call** of thread `τ` of broker `b` that goes through all peers. -/
def visitAll (τ : Nat) (b : Int) (reachable : Int → Bool) (reply : Node → Node × Bytes)
    (note : Int → Option Bytes → ReplicationManager → ReplicationManager)
    (start : ReplicationManager → ReplicationManager) (w : Brokers) : Brokers :=
  release b ((w.nodes b).config.peers.foldl (visit b reachable reply note) (w.hold τ b start))

/-- An action of thread `τ` of broker `b`.  A request that it sends to a broker that can be
    reached is taken up there by thread `τ'`. -/
def step (τ τ' : Nat) (b : Int) (reachable : Int → Bool) (w : Brokers) :
    (a : Act) → a.Result → Brokers → Prop
  | .node a, r, w' => ∃ s', (w.nodes b).alone τ (.node a) r s' ∧ w' = w.set b s'
  | .net (.send dest payload), r, w' =>
    if reachable dest = true then
      ∃ s' frame, (w.nodes dest).Serves τ' payload s' frame ∧
        r = .sent 0 ∧ w' = w.deliver dest (s', frame)
    else r = .unreachable ∧ w' = w
  | .net (.receive _), r, w' => r = w.frame ∧ w' = w
  | .net (.sendAck ..), _, w' => w' = w
  | .net (.respond ..), _, w' => w' = w

section

variable (w : Brokers) {n k : Int}

@[simp] theorem set_nodes_self (s : Node) : (w.set n s).nodes n = s := Function.update_self ..

/-- Setting one broker leaves the others. -/
theorem set_nodes_of_ne (h : k ≠ n) (s : Node) : (w.set n s).nodes k = w.nodes k :=
  Function.update_of_ne h ..

@[simp] theorem set_set (s s' : Node) : (w.set n s).set n s' = w.set n s' := by
  unfold set
  rw [Function.update_idem]

@[simp] theorem set_self : w.set n (w.nodes n) = w := by
  unfold set
  rw [Function.update_eq_self]

theorem manage_nodes_self (f : ReplicationManager → ReplicationManager) :
    (w.manage n f).nodes n = { w.nodes n with replication := f (w.nodes n).replication } :=
  Function.update_self ..

theorem manage_nodes_of_ne (h : k ≠ n) (f : ReplicationManager → ReplicationManager) :
    (w.manage n f).nodes k = w.nodes k := set_nodes_of_ne w h _

/-- Two changes of one manager are one. -/
theorem manage_manage (f f' : ReplicationManager → ReplicationManager) :
    (w.manage n f).manage n f' = w.manage n (fun m => f' (f m)) := by
  simp [manage]

/-- Only the broker that answers changes. -/
theorem answered_nodes_of_ne (h : k ≠ n) (reachable : Int → Bool) (outcome : Node × Bytes) :
    (w.answered reachable n outcome).2.nodes k = w.nodes k := by
  unfold answered
  split
  · exact Function.update_of_ne h ..
  · rfl

/-- The broker that answers changes if it is reached. -/
theorem answered_nodes_self (reachable : Int → Bool) (outcome : Node × Bytes) :
    (w.answered reachable n outcome).2.nodes n
      = if reachable n = true then outcome.1 else w.nodes n := by
  unfold answered
  split
  · exact Function.update_self ..
  · rfl

end

end Brokers

/-! ### Single actions -/

variable {s₀ : Node} {a : NodeAct} {offset : Nat} {r r₀ : a.Result}

/-- An action with one outcome. -/
theorem alone_iff {τ : Nat} {s s' : Node} (h : ∀ c, a.step τ s c = some (r₀, s₀)) :
    s.alone τ (.node a) r s' ↔ r = r₀ ∧ s' = s₀ := by
  constructor
  · rintro ⟨c, hc⟩
    rw [h] at hc
    obtain ⟨rfl, rfl⟩ := Prod.mk.inj (Option.some.inj hc)
    exact ⟨rfl, rfl⟩
  · rintro ⟨rfl, rfl⟩
    exact ⟨.succeeds, h _⟩

/-- An operation under a mutex that is free or held by the thread itself. -/
theorem Node.locked_eq {β : Type} {τ : Nat} {s : Node} (h : s.mayLock τ) (outcome : β × Node) :
    s.locked τ outcome = some outcome := if_pos h

theorem Node.step_isLeader {τ : Nat} {s : Node} (hleader : s.isLeader = true) (c : Choice) :
    NodeAct.step τ s .isLeader c = some (true, s) :=
  congrArg (fun leader => some (leader, s)) hleader

/-- A leader takes note of an acknowledgement. -/
theorem Node.step_handleAck {τ : Nat} {s : Node} (hlock : s.mayLock τ) (hleader : s.isLeader = true)
    {followerId : Int} {topic : Bytes} {partition : Int} (c : Choice) :
    NodeAct.step τ s (.handleAck followerId topic partition offset) c = some ((), { s with
      replication := s.replication.handleAck followerId topic partition offset }) := by
  rw [NodeAct.step, Node.locked_eq hlock, if_pos hleader]

section Actions

variable {τ τ' : Nat} {b : Int} {reachable : Int → Bool} {w w' : Brokers} {α : Type} {x : α}

/-- An action with one outcome is taken, and the program goes on. -/
theorem runs_act {f : a.Result → Program α} (h : ∀ c, a.step τ (w.nodes b) c = some (r₀, s₀)) :
    (node a >>= f).Runs (Brokers.step τ τ' b reachable) w x w'
      ↔ (f r₀).Runs (Brokers.step τ τ' b reachable) (w.set b s₀) x w' := by
  rw [show (node a >>= f) = Prog.perform (Act.node a) >>= f from rfl, Prog.runs_perform_bind]
  constructor
  · rintro ⟨r, w₁, ⟨s', hstep, rfl⟩, hrest⟩
    obtain ⟨rfl, rfl⟩ := (alone_iff h).mp hstep
    exact hrest
  · intro hrest
    exact ⟨r₀, _, ⟨s₀, (alone_iff h).mpr ⟨rfl, rfl⟩, rfl⟩, hrest⟩

/-- The same at the end of a program. -/
theorem runs_lastAct (h : ∀ c, a.step τ (w.nodes b) c = some (r₀, s₀)) :
    (node a).Runs (Brokers.step τ τ' b reachable) w r w' ↔ r = r₀ ∧ w' = w.set b s₀ := by
  rw [show node a = Prog.perform (Act.node a) from rfl, Prog.runs_perform]
  constructor
  · rintro ⟨s', hstep, rfl⟩
    obtain ⟨rfl, rfl⟩ := (alone_iff h).mp hstep
    exact ⟨rfl, rfl⟩
  · rintro ⟨rfl, rfl⟩
    exact ⟨s₀, (alone_iff h).mpr ⟨rfl, rfl⟩, rfl⟩

/-- A question does not change the broker. -/
theorem runs_ask {f : a.Result → Program α}
    (h : ∀ c, a.step τ (w.nodes b) c = some (r₀, w.nodes b)) :
    (node a >>= f).Runs (Brokers.step τ τ' b reachable) w x w'
      ↔ (f r₀).Runs (Brokers.step τ τ' b reachable) w x w' := by
  rw [runs_act h, Brokers.set_self]

theorem runs_lastAsk (h : ∀ c, a.step τ (w.nodes b) c = some (r₀, w.nodes b)) :
    (node a).Runs (Brokers.step τ τ' b reachable) w r w' ↔ r = r₀ ∧ w' = w := by
  rw [runs_lastAct h, Brokers.set_self]

variable {w₁ : Brokers} {outcome : Node × Bytes} {ok : Bool}

/-- A call that holds the mutex. -/
theorem runs_withLock {body : Program α} {y : α} (hfree : (w.nodes b).mutex = none)
    (hbody : ∀ {x w'}, body.Runs (Brokers.step τ τ' b reachable)
      (w.set b { w.nodes b with mutex := some τ }) x w' ↔ x = y ∧ w' = w₁)
    (hheld : (w₁.nodes b).mutex = some τ) :
    (withLock body).Runs (Brokers.step τ τ' b reachable) w x w' ↔
      x = y ∧ w' = w₁.set b { w₁.nodes b with mutex := none } := by
  have hlock : ∀ c, NodeAct.step τ (w.nodes b) .lock c
      = some ((), { w.nodes b with mutex := some τ }) := fun c => if_pos hfree
  have hunlock : ∀ c, NodeAct.step τ (w₁.nodes b) .unlock c
      = some ((), { w₁.nodes b with mutex := none }) := fun c => if_pos hheld
  unfold withLock
  rw [runs_act hlock, Prog.runs_bind]
  constructor
  · rintro ⟨z, w₂, hrun, hrest⟩
    obtain ⟨rfl, rfl⟩ := hbody.mp hrun
    exact (runs_act hunlock).mp hrest
  · rintro ⟨rfl, rfl⟩
    exact ⟨_, _, hbody.mpr ⟨rfl, rfl⟩, (runs_act hunlock).mpr ⟨rfl, rfl⟩⟩

/-! ### Exchanges -/

/-- A request to a broker that, if it can be reached, does `outcome`. -/
theorem runs_send {p : Int} {payload : Bytes} {f : SendResult → Program α}
    (h : reachable p = true → ∀ {s' frame}, (w.nodes p).Serves τ' payload s' frame
      ↔ (s', frame) = outcome) :
    (net (.send p payload) >>= f).Runs (Brokers.step τ τ' b reachable) w x w' ↔
      if reachable p = true then
        (f (.sent 0)).Runs (Brokers.step τ τ' b reachable) (w.deliver p outcome) x w'
      else (f .unreachable).Runs (Brokers.step τ τ' b reachable) w x w' := by
  have hstep : ∀ {r w₁}, Brokers.step τ τ' b reachable w (.net (.send p payload)) r w₁ ↔
      if reachable p = true then
        ∃ s' frame, (w.nodes p).Serves τ' payload s' frame ∧
          r = .sent 0 ∧ w₁ = w.deliver p (s', frame)
      else r = .unreachable ∧ w₁ = w := Iff.rfl
  rw [show (net (.send p payload) >>= f) = Prog.perform (Act.net (.send p payload)) >>= f from rfl,
    Prog.runs_perform_bind]
  by_cases hreach : reachable p = true
  · simp only [hstep, if_pos hreach]
    constructor
    · rintro ⟨_, _, ⟨s', frame, hserves, rfl, rfl⟩, hrest⟩
      rwa [(h hreach).mp hserves] at hrest
    · intro hrest
      exact ⟨_, _, ⟨outcome.1, outcome.2, (h hreach).mpr rfl, rfl, rfl⟩, hrest⟩
  · simp only [hstep, if_neg hreach]
    constructor
    · rintro ⟨_, _, ⟨rfl, rfl⟩, hrest⟩
      exact hrest
    · intro hrest
      exact ⟨_, _, ⟨rfl, rfl⟩, hrest⟩

/-- An exchange runs the handler of the peer, if the peer is reached. -/
theorem runs_exchangeWithPeer {peer : ClusterPeer} {payload : Bytes} {r : Option Bytes}
    (h : reachable peer.brokerId = true → ∀ {s' frame},
      (w.nodes peer.brokerId).Serves τ' payload s' frame ↔ (s', frame) = outcome) :
    (exchangeWithPeer peer payload).Runs (Brokers.step τ τ' b reachable) w r w' ↔
      r = (w.answered reachable peer.brokerId outcome).1 ∧
        w' = (w.answered reachable peer.brokerId outcome).2 := by
  unfold exchangeWithPeer Brokers.answered
  rw [runs_send h]
  split
  · exact Prog.runs_perform
  · exact Iff.rfl

/-- So does a one-shot request, whose answer is dropped. -/
theorem runs_sendOneShotToPeer {peer : ClusterPeer} {payload : Bytes}
    (h : reachable peer.brokerId = true → ∀ {s' frame},
      (w.nodes peer.brokerId).Serves τ' payload s' frame ↔ (s', frame) = outcome) :
    (sendOneShotToPeer peer payload).Runs (Brokers.step τ τ' b reachable) w ok w' ↔
      ok = (w.answered reachable peer.brokerId outcome).1.isSome ∧
        w' = (w.answered reachable peer.brokerId outcome).2 := by
  unfold sendOneShotToPeer Brokers.answered
  rw [runs_send h]
  split <;> exact Iff.rfl

/-! ### What the leader notes -/

/-- Whether an answer acknowledges `offset`, for `replicate_to_peer`. -/
def acknowledges (offset : Nat) : Option Bytes → Bool
  | none => false
  | some payload => decide (payload ≠ [] ∧ (parseRequest payload).type = .ack ∧
      offset ≤ (parseRequest payload).fetchOffset)

/-- The acknowledgement that `replicate_to_peer` finds in an answer is handled. -/
def noteAck (topic : Bytes) (partition : Int) :
    Option Bytes → ReplicationManager → ReplicationManager
  | none, m => m
  | some payload, m =>
    if payload = [] ∨ (parseRequest payload).type ≠ .ack then m
    else
      let ack := parseRequest payload
      m.handleAck ack.brokerId (if ack.topic = [] then topic else ack.topic)
        (if ack.topic = [] then partition else ack.partition) ack.fetchOffset

/-- What `replicate_message` and `broadcast_commit` note of an exchange. -/
def noteExchange (now : Nat) (p : Int) (ok : Bool) (m : ReplicationManager) :
    ReplicationManager :=
  if ok then m.handleHeartbeat now p else m.markFollowerFailed p

/-- What `replicate_message` notes of an answer. -/
def noteReplication (now : Nat) (topic : Bytes) (partition : Int) (offset : Nat) (p : Int)
    (answer : Option Bytes) (m : ReplicationManager) : ReplicationManager :=
  noteExchange now p (acknowledges offset answer) (noteAck topic partition answer m)

/-- What `replicate_batch` notes of an answer. -/
def noteBatch (topic : Bytes) (partition : Int) (lastOffset : Nat) (p : Int) :
    Option Bytes → ReplicationManager → ReplicationManager
  | none, m => m.markFollowerFailed p
  | some payload, m =>
    let ack := parseRequest payload
    if ack.type = .ack ∧ lastOffset ≤ ack.fetchOffset then
      m.handleAck ack.brokerId topic partition ack.fetchOffset
    else m.markFollowerFailed p

/-- What `broadcast_commit` notes. -/
def noteCommit (now : Nat) (p : Int) (answer : Option Bytes) (m : ReplicationManager) :
    ReplicationManager := noteExchange now p answer.isSome m

/-- The outcome of an exchange is noted in one step. -/
theorem runs_recordExchange {peer : ClusterPeer} {u : Unit} (hlock : (w.nodes b).mayLock τ) :
    (recordExchange peer ok).Runs (Brokers.step τ τ' b reachable) w u w' ↔
      w' = w.manage b (noteExchange (w.nodes b).now peer.brokerId ok) := by
  have hheard : ∀ c, NodeAct.step τ (w.nodes b) (.handleHeartbeat peer.brokerId) c
      = some ((), { w.nodes b with replication :=
          (w.nodes b).replication.handleHeartbeat (w.nodes b).now peer.brokerId }) :=
    fun c => Node.locked_eq hlock _
  have hfailed : ∀ c, NodeAct.step τ (w.nodes b) (.markFollowerFailed peer.brokerId) c
      = some ((), { w.nodes b with replication :=
          (w.nodes b).replication.markFollowerFailed peer.brokerId }) :=
    fun c => Node.locked_eq hlock _
  cases ok with
  | true => exact (runs_lastAct hheard).trans (and_iff_right rfl)
  | false => exact (runs_lastAct hfailed).trans (and_iff_right rfl)

/-! ### Rounds -/

/-- What `replicate_to_peer` does with an answer. -/
def takeAnswer (topic : Bytes) (partition : Int) (offset : Nat) : Option Bytes → Program Bool
  | none => return false
  | some payload =>
    if payload = [] ∨ (parseRequest payload).type ≠ .ack then return false
    else
      let ack := parseRequest payload
      node (.handleAck ack.brokerId (if ack.topic = [] then topic else ack.topic)
        (if ack.topic = [] then partition else ack.partition) ack.fetchOffset) >>= fun _ =>
          return decide (offset ≤ ack.fetchOffset)

/-- `replicate_to_peer` is an exchange and the reading of its answer. -/
theorem replicateToPeer_eq (peer : ClusterPeer) (payload topic : Bytes) (partition : Int)
    (offset : Nat) :
    replicateToPeer peer payload topic partition offset
      = exchangeWithPeer peer payload >>= takeAnswer topic partition offset := by
  unfold replicateToPeer
  congr 1
  funext answer
  cases answer with
  | none => rfl
  | some payload =>
    unfold takeAnswer
    by_cases hempty : payload = []
    · simp only [hempty, if_true, true_or]
    · simp only [hempty, if_false, false_or]

/-- What the leader makes of the answer. -/
theorem runs_takeAnswer {topic : Bytes} {partition : Int} {answer : Option Bytes}
    (hlock : (w.nodes b).mayLock τ) (hleader : (w.nodes b).isLeader = true) :
    (takeAnswer topic partition offset answer).Runs (Brokers.step τ τ' b reachable) w ok w' ↔
      ok = acknowledges offset answer ∧ w' = w.manage b (noteAck topic partition answer) := by
  have hself : w.manage b (fun m => m) = w := w.set_self
  cases answer with
  | none =>
    show ok = false ∧ w' = w ↔ ok = false ∧ w' = w.manage b (fun m => m)
    rw [hself]
  | some payload =>
    by_cases hrefused : payload = [] ∨ (parseRequest payload).type ≠ .ack
    · have hno : acknowledges offset (some payload) = false := by
        refine decide_eq_false (fun h => ?_)
        exact hrefused.elim h.1 (fun htype => htype h.2.1)
      have hnote : noteAck topic partition (some payload) = fun m => m :=
        funext fun m => if_pos hrefused
      rw [takeAnswer, if_pos hrefused, hno, hnote, hself]
      exact Iff.rfl
    · have hyes : acknowledges offset (some payload)
          = decide (offset ≤ (parseRequest payload).fetchOffset) := by
        obtain ⟨hsome, htype⟩ := not_or.mp hrefused
        exact decide_eq_decide.mpr ⟨fun h => h.2.2, fun h => ⟨hsome, not_not.mp htype, h⟩⟩
      have hnote : noteAck topic partition (some payload) = fun m => _ :=
        funext fun m => if_neg hrefused
      rw [takeAnswer, if_neg hrefused, hyes, hnote]
      exact runs_act (Node.step_handleAck hlock hleader)

/-- How the rounds of the three loops begin. -/
def unlessSkipped (config : BrokerConfig) (peer : ClusterPeer) (rest : Program Unit) :
    Program Unit :=
  if peer.brokerId = config.brokerId then return ()
  else node (.isPeerAvailable peer.brokerId) >>= fun available =>
    if (!available) = true then return () else rest

/-- A round skips the broker itself, and visits any other peer. -/
theorem runs_unlessSkipped {config : BrokerConfig} {peer : ClusterPeer} {rest : Program Unit}
    {reply : Node → Node × Bytes}
    {note : Int → Option Bytes → ReplicationManager → ReplicationManager} {u : Unit}
    (hid : config.brokerId = b) (hlock : (w.nodes b).mayLock τ)
    (hrest : peer.brokerId ≠ b → (rest.Runs (Brokers.step τ τ' b reachable) w u w' ↔
      w' = (w.answered reachable peer.brokerId (reply (w.nodes peer.brokerId))).2.manage b
        (note peer.brokerId
          (w.answered reachable peer.brokerId (reply (w.nodes peer.brokerId))).1))) :
    (unlessSkipped config peer rest).Runs (Brokers.step τ τ' b reachable) w u w' ↔
      w' = w.visit b reachable reply note peer := by
  unfold unlessSkipped Brokers.visit
  rw [hid]
  by_cases hself : peer.brokerId = b
  · rw [if_pos hself, if_pos (.inl hself)]
    exact and_iff_right rfl
  · have hask : ∀ c, NodeAct.step τ (w.nodes b) (.isPeerAvailable peer.brokerId) c
        = some ((w.nodes b).replication.isPeerAvailable peer.brokerId, w.nodes b) :=
      fun c => Node.locked_eq hlock _
    rw [if_neg hself, runs_ask hask, ReplicationManager.isPeerAvailable, Bool.not_not]
    by_cases hfailed : (w.nodes b).replication.failedPeers peer.brokerId = true
    · rw [if_pos hfailed, if_pos (.inr hfailed)]
      exact and_iff_right rfl
    · rw [if_neg hfailed, if_neg (not_or.mpr ⟨hself, hfailed⟩)]
      exact hrest hself

section Rounds

variable {config : BrokerConfig} {peer : ClusterPeer} {payload topic : Bytes} {partition : Int}
  {reply : Node → Node × Bytes} {u : Unit}

/-- A round of `replicate_message` is a visit. -/
theorem runs_replicateRound (hid : config.brokerId = b) (hlock : (w.nodes b).mayLock τ)
    (hleader : (w.nodes b).isLeader = true)
    (h : peer.brokerId ≠ b → reachable peer.brokerId = true → ∀ {s' frame},
      (w.nodes peer.brokerId).Serves τ' payload s' frame
        ↔ (s', frame) = reply (w.nodes peer.brokerId)) :
    (replicateRound config payload topic partition offset peer).Runs
        (Brokers.step τ τ' b reachable) w u w' ↔
      w' = w.visit b reachable reply
        (noteReplication (w.nodes b).now topic partition offset) peer := by
  have hunfold : replicateRound config payload topic partition offset peer
      = unlessSkipped config peer (replicateToPeer peer payload topic partition offset >>=
          recordExchange peer) := rfl
  rw [hunfold]
  refine runs_unlessSkipped hid hlock (fun hne => ?_)
  generalize hr : w.answered reachable peer.brokerId (reply (w.nodes peer.brokerId)) = r
  have hb : r.2.nodes b = w.nodes b := by
    rw [← hr]
    exact w.answered_nodes_of_ne (Ne.symm hne) _ _
  have hask : ∀ {ok w₁}, (replicateToPeer peer payload topic partition offset).Runs
      (Brokers.step τ τ' b reachable) w ok w₁ ↔
        ok = acknowledges offset r.1 ∧ w₁ = r.2.manage b (noteAck topic partition r.1) := by
    intro ok w₁
    rw [replicateToPeer_eq, Prog.runs_bind_of_iff (runs_exchangeWithPeer (h hne)), hr]
    exact runs_takeAnswer (by rw [hb]; exact hlock) (by rw [hb]; exact hleader)
  have hafter := r.2.manage_nodes_self (n := b) (noteAck topic partition r.1)
  rw [Prog.runs_bind_of_iff hask, runs_recordExchange (by rw [hafter, hb]; exact hlock),
    Brokers.manage_manage, hafter, hb]
  exact Iff.rfl

/-- A round of `replicate_batch` is a visit. -/
theorem runs_batchRound {lastOffset : Nat} (hid : config.brokerId = b)
    (hlock : (w.nodes b).mayLock τ) (hleader : (w.nodes b).isLeader = true)
    (h : peer.brokerId ≠ b → reachable peer.brokerId = true → ∀ {s' frame},
      (w.nodes peer.brokerId).Serves τ' payload s' frame
        ↔ (s', frame) = reply (w.nodes peer.brokerId)) :
    (batchRound config payload topic partition lastOffset peer).Runs
        (Brokers.step τ τ' b reachable) w u w' ↔
      w' = w.visit b reachable reply (noteBatch topic partition lastOffset) peer := by
  have hunfold : batchRound config payload topic partition lastOffset peer
      = unlessSkipped config peer (exchangeWithPeer peer payload >>= fun
        | none => node (.markFollowerFailed peer.brokerId)
        | some ackPayload =>
          if (parseRequest ackPayload).type = .ack ∧
              lastOffset ≤ (parseRequest ackPayload).fetchOffset then
            node (.handleAck (parseRequest ackPayload).brokerId topic partition
              (parseRequest ackPayload).fetchOffset)
          else node (.markFollowerFailed peer.brokerId)) := rfl
  rw [hunfold]
  refine runs_unlessSkipped hid hlock (fun hne => ?_)
  rw [Prog.runs_bind_of_iff (runs_exchangeWithPeer (h hne))]
  generalize hr : w.answered reachable peer.brokerId (reply (w.nodes peer.brokerId)) = r
  -- the exchange changes the peer only
  have hb : r.2.nodes b = w.nodes b := by
    rw [← hr]
    exact w.answered_nodes_of_ne (Ne.symm hne) _ _
  have hlock' : (r.2.nodes b).mayLock τ := by rw [hb]; exact hlock
  have hfailed : ∀ c, NodeAct.step τ (r.2.nodes b) (.markFollowerFailed peer.brokerId) c
      = some ((), { r.2.nodes b with replication :=
          (r.2.nodes b).replication.markFollowerFailed peer.brokerId }) :=
    fun c => Node.locked_eq hlock' _
  obtain ⟨answer, w₁⟩ := r
  cases answer with
  | none => exact (runs_lastAct hfailed).trans (and_iff_right rfl)
  | some ackPayload =>
    dsimp only [noteBatch]
    split
    · next hack =>
      have hnote : noteBatch topic partition lastOffset peer.brokerId (some ackPayload)
          = fun m => _ := funext fun m => if_pos hack
      rw [hnote]
      exact (runs_lastAct (Node.step_handleAck hlock' (by rw [hb]; exact hleader))).trans
        (and_iff_right rfl)
    · next hack =>
      have hnote : noteBatch topic partition lastOffset peer.brokerId (some ackPayload)
          = fun m => _ := funext fun m => if_neg hack
      rw [hnote]
      exact (runs_lastAct hfailed).trans (and_iff_right rfl)

/-- A round of `broadcast_commit` is a visit. -/
theorem runs_commitRound (hid : config.brokerId = b) (hlock : (w.nodes b).mayLock τ)
    (h : peer.brokerId ≠ b → reachable peer.brokerId = true → ∀ {s' frame},
      (w.nodes peer.brokerId).Serves τ' payload s' frame
        ↔ (s', frame) = reply (w.nodes peer.brokerId)) :
    (commitRound config payload peer).Runs (Brokers.step τ τ' b reachable) w u w' ↔
      w' = w.visit b reachable reply (noteCommit (w.nodes b).now) peer := by
  have hunfold : commitRound config payload peer
      = unlessSkipped config peer (sendOneShotToPeer peer payload >>= recordExchange peer) := rfl
  rw [hunfold]
  refine runs_unlessSkipped hid hlock (fun hne => ?_)
  have hb := w.answered_nodes_of_ne (Ne.symm hne) reachable (reply (w.nodes peer.brokerId))
  rw [Prog.runs_bind_of_iff (runs_sendOneShotToPeer (h hne)),
    runs_recordExchange (by rw [hb]; exact hlock), hb]
  exact Iff.rfl

end Rounds

/-! ### Loops -/

namespace Brokers

variable {reply : Node → Node × Bytes}
  {note : Int → Option Bytes → ReplicationManager → ReplicationManager} {peer : ClusterPeer}

/-- A visit changes the two brokers that take part in it. -/
theorem visit_nodes_of_ne {n : Int} (hb : n ≠ b) (hn : n ≠ peer.brokerId) :
    (w.visit b reachable reply note peer).nodes n = w.nodes n := by
  unfold visit
  dsimp only
  split
  · rfl
  · rw [manage_nodes_of_ne _ hb, answered_nodes_of_ne _ hn]

/-- A round changes nothing of the broker but its replication manager. -/
theorem visit_leader (w : Brokers) (b : Int) (reachable : Int → Bool)
    (reply : Node → Node × Bytes)
    (note : Int → Option Bytes → ReplicationManager → ReplicationManager) (peer : ClusterPeer) :
    (w.visit b reachable reply note peer).nodes b = { w.nodes b with
      replication := (w.nodes b).replication.visited b
        (fun p => note p (w.answered reachable p (reply (w.nodes p))).1) peer.brokerId } := by
  unfold visit ReplicationManager.visited
  dsimp only
  split
  · rfl
  · next hvisit =>
    rw [manage_nodes_self, answered_nodes_of_ne _ (fun h => hvisit (.inl h.symm))]

/-- What is noted of a peer touches no other peer's mark. -/
def Local (note : Int → Option Bytes → ReplicationManager → ReplicationManager) : Prop :=
  ∀ p answer m q, q ≠ p → (note p answer m).failedPeers q = m.failedPeers q

variable {peers : List ClusterPeer}

/-- **The peers after a loop** in which no broker occurs twice. -/
theorem foldl_visit_nodes (hlocal : Local note) (hnodup : (peers.map ClusterPeer.brokerId).Nodup)
    {n : Int} (hn : n ≠ b) :
    (peers.foldl (visit b reachable reply note) w).nodes n
      = if n ∈ peers.map ClusterPeer.brokerId ∧ (w.nodes b).replication.failedPeers n = false ∧
          reachable n = true then (reply (w.nodes n)).1 else w.nodes n := by
  induction peers generalizing w with
  | nil => exact (if_neg (fun h => absurd h.1 List.not_mem_nil)).symm
  | cons peer peers ih =>
    rw [List.map_cons, List.nodup_cons] at hnodup
    rw [List.foldl_cons, ih hnodup.2]
    simp only [List.map_cons, List.mem_cons]
    by_cases hpeer : n = peer.brokerId
    · -- its only round
      rw [if_neg (fun h => hnodup.1 (hpeer ▸ h.1))]
      unfold visit
      dsimp only
      rw [← hpeer]
      by_cases hfailed : (w.nodes b).replication.failedPeers n = true
      · rw [if_pos (.inr hfailed), if_neg (by rw [hfailed]; simp)]
      · rw [if_neg (not_or.mpr ⟨hn, hfailed⟩), manage_nodes_of_ne _ hn, answered_nodes_self]
        simp only [Bool.not_eq_true] at hfailed
        simp only [hfailed, true_or, true_and]
    · rw [visit_nodes_of_ne hn hpeer, visit_leader]
      have hsame : ((w.nodes b).replication.visited b
          (fun p => note p (w.answered reachable p (reply (w.nodes p))).1)
          peer.brokerId).failedPeers n = (w.nodes b).replication.failedPeers n := by
        unfold ReplicationManager.visited
        split
        · rfl
        · exact hlocal _ _ _ _ hpeer
      simp only [hsame, hpeer, false_or]

/-- A round at the replication manager depends on the state of the peer only. -/
theorem visited_answered {p : Int} (h : p ≠ b → w'.nodes p = w.nodes p) (m : ReplicationManager) :
    ReplicationManager.visited b
        (fun p => note p (w'.answered reachable p (reply (w'.nodes p))).1) m p
      = ReplicationManager.visited b
        (fun p => note p (w.answered reachable p (reply (w.nodes p))).1) m p := by
  unfold ReplicationManager.visited
  split
  · rfl
  · next hvisit =>
    dsimp only
    rw [h (fun heq => hvisit (.inl heq))]
    unfold answered
    split <;> rfl

/-- **The broker after a loop** in which no peer occurs twice: every peer answers as it
    would have at the beginning. -/
theorem foldl_visit_leader (hnodup : (peers.map ClusterPeer.brokerId).Nodup) :
    (peers.foldl (visit b reachable reply note) w).nodes b = { w.nodes b with
      replication := (peers.map ClusterPeer.brokerId).foldl (ReplicationManager.visited b
        (fun p => note p (w.answered reachable p (reply (w.nodes p))).1))
        (w.nodes b).replication } := by
  induction peers generalizing w with
  | nil => rfl
  | cons peer peers ih =>
    rw [List.map_cons, List.nodup_cons] at hnodup
    rw [List.foldl_cons, ih hnodup.2, visit_leader, List.map_cons, List.foldl_cons]
    -- the peers of the later rounds are as they were
    refine congrArg (fun m => { w.nodes b with replication := m })
      (List.foldl_ext _ _ _ (fun m p hp => visited_answered ?_ m))
    exact fun hne => visit_nodes_of_ne hne (fun h => hnodup.1 (h ▸ hp))

/-- **A loop over the peers**, if every round that starts with an unchanged peer is `visit`. -/
theorem runs_rounds {body : ClusterPeer → Program Unit} {u : Unit}
    (hnodup : (peers.map ClusterPeer.brokerId).Nodup)
    (hbody : ∀ {peer} {v : Brokers}, peer ∈ peers →
      (∃ m, v.nodes b = { w.nodes b with replication := m }) →
      (peer.brokerId ≠ b → v.nodes peer.brokerId = w.nodes peer.brokerId) →
      ∀ {u v'}, (body peer).Runs (step τ τ' b reachable) v u v'
        ↔ v' = v.visit b reachable reply note peer) :
    (peers.forM body).Runs (step τ τ' b reachable) w u w'
      ↔ w' = peers.foldl (visit b reachable reply note) w := by
  refine Prog.runs_forM (I := fun rest v => rest ⊆ peers ∧
    (rest.map ClusterPeer.brokerId).Nodup ∧
    (∃ m, v.nodes b = { w.nodes b with replication := m }) ∧
    ∀ p ∈ rest.map ClusterPeer.brokerId, p ≠ b → v.nodes p = w.nodes p) ?_ ?_
    ⟨List.Subset.refl _, hnodup, ⟨_, rfl⟩, fun _ _ _ => rfl⟩
  · intro peer rest v hI u v'
    obtain ⟨hsub, -, hleader, hsame⟩ := hI
    exact hbody (hsub List.mem_cons_self) hleader
      (hsame _ (List.mem_map_of_mem List.mem_cons_self))
  · intro peer rest v hI
    obtain ⟨hsub, hrest, ⟨m, hleader⟩, hsame⟩ := hI
    rw [List.map_cons, List.nodup_cons] at hrest
    refine ⟨fun q hq => hsub (List.mem_cons_of_mem _ hq), hrest.2, ?_, fun p hp hne => ?_⟩
    · rw [visit_leader, hleader]
      exact ⟨_, rfl⟩
    · rw [visit_nodes_of_ne hne (fun h => hrest.1 (h ▸ hp))]
      exact hsame p (List.mem_cons_of_mem _ hp) hne

/-! ### Whole calls -/

variable {start : ReplicationManager → ReplicationManager}

/-- The peers after a call. -/
theorem visitAll_nodes (hlocal : Local note)
    (hnodup : ((w.nodes b).config.peers.map ClusterPeer.brokerId).Nodup) {n : Int} (hn : n ≠ b) :
    (w.visitAll τ b reachable reply note start).nodes n
      = if n ∈ (w.nodes b).config.peers.map ClusterPeer.brokerId ∧
          (start (w.nodes b).replication).failedPeers n = false ∧ reachable n = true
        then (reply (w.nodes n)).1 else w.nodes n := by
  unfold visitAll release
  rw [set_nodes_of_ne _ hn, foldl_visit_nodes hlocal hnodup hn]
  unfold hold
  rw [set_nodes_self, set_nodes_of_ne _ hn]

/-- The broker after a call. -/
theorem visitAll_leader (hfree : (w.nodes b).mutex = none)
    (hnodup : ((w.nodes b).config.peers.map ClusterPeer.brokerId).Nodup) :
    (w.visitAll τ b reachable reply note start).nodes b = { w.nodes b with
      replication := ((w.nodes b).config.peers.map ClusterPeer.brokerId).foldl
        (ReplicationManager.visited b
          (fun p => note p (w.answered reachable p (reply (w.nodes p))).1))
        (start (w.nodes b).replication) } := by
  have hpeers : ∀ m, ∀ p ∈ (w.nodes b).config.peers.map ClusterPeer.brokerId,
      ReplicationManager.visited b (fun p => note p ((w.hold τ b start).answered reachable p
          (reply ((w.hold τ b start).nodes p))).1) m p
      = ReplicationManager.visited b
          (fun p => note p (w.answered reachable p (reply (w.nodes p))).1) m p :=
    fun m p _ => visited_answered (fun hne => set_nodes_of_ne w hne _) m
  unfold visitAll release
  rw [set_nodes_self, foldl_visit_leader hnodup, List.foldl_ext _ _ _ hpeers, hold,
    set_nodes_self, ← hfree]

end Brokers

section Calls

variable {topic : Bytes} {partition : Int} {reply : Node → Node × Bytes}

/-- The peers of broker `b` that can be reached do `reply` when they get `payload`. -/
def Brokers.Answer (w : Brokers) (τ' : Nat) (b : Int) (reachable : Int → Bool) (payload : Bytes)
    (reply : Node → Node × Bytes) : Prop :=
  ∀ p ∈ (w.nodes b).config.peers.map ClusterPeer.brokerId, p ≠ b → reachable p = true →
    ∀ {s' frame}, (w.nodes p).Serves τ' payload s' frame ↔ (s', frame) = reply (w.nodes p)

/-- The loop of a call. -/
theorem runs_loop {body : ClusterPeer → Program Unit} {payload : Bytes}
    {note : Int → Option Bytes → ReplicationManager → ReplicationManager}
    {start : ReplicationManager → ReplicationManager} {u : Unit}
    (hnodup : ((w.nodes b).config.peers.map ClusterPeer.brokerId).Nodup)
    (hpeers : w.Answer τ' b reachable payload reply)
    (hbody : ∀ {peer} {v : Brokers},
      (∃ m, v.nodes b = { w.nodes b with mutex := some τ, replication := m }) →
      (peer.brokerId ≠ b → reachable peer.brokerId = true → ∀ {s' frame},
        (v.nodes peer.brokerId).Serves τ' payload s' frame
          ↔ (s', frame) = reply (v.nodes peer.brokerId)) →
      ∀ {u v'}, (body peer).Runs (Brokers.step τ τ' b reachable) v u v'
        ↔ v' = v.visit b reachable reply note peer) :
    ((w.nodes b).config.peers.forM body).Runs (Brokers.step τ τ' b reachable)
        (w.hold τ b start) u w' ↔
      w' = (w.nodes b).config.peers.foldl (Brokers.visit b reachable reply note)
        (w.hold τ b start) := by
  refine Brokers.runs_rounds hnodup (fun {peer v} hmem hleader hsame => hbody ?_ ?_)
  · obtain ⟨m, hm⟩ := hleader
    rw [Brokers.hold, Brokers.set_nodes_self] at hm
    exact ⟨m, hm⟩
  · intro hne hreach s' frame
    rw [hsame hne, Brokers.hold, Brokers.set_nodes_of_ne _ hne]
    exact hpeers _ (List.mem_map_of_mem hmem) hne hreach

/-- A call has the mutex until its end. -/
theorem Brokers.mutex_foldl_visit
    {note : Int → Option Bytes → ReplicationManager → ReplicationManager}
    {start : ReplicationManager → ReplicationManager}
    (hnodup : ((w.nodes b).config.peers.map ClusterPeer.brokerId).Nodup) :
    (((w.nodes b).config.peers.foldl (visit b reachable reply note)
      (w.hold τ b start)).nodes b).mutex = some τ := by
  rw [foldl_visit_leader hnodup, hold, set_nodes_self]

/-- What `replicate_message` and `replicate_batch` do under the mutex. -/
def replicating (config : BrokerConfig) (topic : Bytes) (partition : Int) (offset : Nat)
    (round : ClusterPeer → Program Unit) : Program Bool := do
  node (.openAcks topic partition offset)
  config.peers.forM round
  node (.quorumReached topic partition offset)

/-- A broker without peers need not be told apart. -/
theorem replicateMessage_eq (config : BrokerConfig) (offset : Nat) (message : Bytes) :
    replicateMessage config topic partition offset message = withLock (do
      if !(← node .isLeader) then return false
      replicating config topic partition offset (replicateRound config
        (encodeRequest (replicationRequest topic partition offset message)) topic partition
        offset)) := by
  unfold replicateMessage replicating
  congr 1
  cases config.peers with
  | nil => rfl
  | cons peer peers => rfl

/-- The loop under the mutex, with the number of peers that acknowledged. -/
theorem runs_replicating {round : ClusterPeer → Program Unit} {payload : Bytes}
    {note : Int → Option Bytes → ReplicationManager → ReplicationManager} {ok : Bool}
    (hnodup : ((w.nodes b).config.peers.map ClusterPeer.brokerId).Nodup)
    (hpeers : w.Answer τ' b reachable payload reply) (hround : ∀ {peer} {v : Brokers},
      (∃ m, v.nodes b = { w.nodes b with mutex := some τ, replication := m }) →
      (peer.brokerId ≠ b → reachable peer.brokerId = true → ∀ {s' frame},
        (v.nodes peer.brokerId).Serves τ' payload s' frame
          ↔ (s', frame) = reply (v.nodes peer.brokerId)) →
      ∀ {u v'}, (round peer).Runs (Brokers.step τ τ' b reachable) v u v'
        ↔ v' = v.visit b reachable reply note peer)
    (hw₁ : w₁ = (w.nodes b).config.peers.foldl (Brokers.visit b reachable reply note)
      (w.hold τ b (fun m => m.openAcks (w.nodes b).config topic partition offset))) :
    (replicating (w.nodes b).config topic partition offset round).Runs
        (Brokers.step τ τ' b reachable) (w.set b { w.nodes b with mutex := some τ }) ok w' ↔
      ok = ((w₁.release b).nodes b).replication.quorumReached (w.nodes b).config topic partition
          offset ∧ w' = w₁ := by
  have hopen : ∀ c, NodeAct.step τ ((w.set b { w.nodes b with mutex := some τ }).nodes b)
      (.openAcks topic partition offset) c = some ((), { w.nodes b with
        mutex := some τ
        replication :=
          (w.nodes b).replication.openAcks (w.nodes b).config topic partition offset }) := by
    intro c
    rw [Brokers.set_nodes_self]
    exact Node.locked_eq (.inr rfl) _
  have hloop : ∀ {u v}, ((w.nodes b).config.peers.forM round).Runs
      (Brokers.step τ τ' b reachable)
      (w.hold τ b (fun m => m.openAcks (w.nodes b).config topic partition offset)) u v ↔
        u = () ∧ v = w₁ := by
    intro u v
    rw [runs_loop hnodup hpeers hround, hw₁]
    exact (and_iff_right rfl).symm
  -- the rounds keep the mutex and the configuration
  have hmutex : (w₁.nodes b).mutex = some τ := hw₁ ▸ Brokers.mutex_foldl_visit hnodup
  have hconfig : (w₁.nodes b).config = (w.nodes b).config := by
    rw [hw₁, Brokers.foldl_visit_leader hnodup, Brokers.hold, Brokers.set_nodes_self]
  have hquorum : ∀ c, NodeAct.step τ (w₁.nodes b) (.quorumReached topic partition offset) c
      = some ((w₁.nodes b).replication.quorumReached (w.nodes b).config topic partition offset,
          w₁.nodes b) := by
    intro c
    rw [← hconfig]
    exact Node.locked_eq (.inr hmutex) _
  unfold replicating
  rw [runs_act hopen, Brokers.set_set, Brokers.release, Brokers.set_nodes_self]
  exact (Prog.runs_bind_of_iff hloop).trans (runs_lastAsk hquorum)

/-- **`replicate_message`** on a leader. -/
theorem runs_replicateMessage {message : Bytes} (hid : (w.nodes b).config.brokerId = b)
    (hfree : (w.nodes b).mutex = none) (hleader : (w.nodes b).isLeader = true)
    (hnodup : ((w.nodes b).config.peers.map ClusterPeer.brokerId).Nodup)
    (hpeers : w.Answer τ' b reachable
      (encodeRequest (replicationRequest topic partition offset message)) reply)
    (hw₁ : w₁ = w.visitAll τ b reachable reply
      (noteReplication (w.nodes b).now topic partition offset)
      (fun m => m.openAcks (w.nodes b).config topic partition offset)) :
    (replicateMessage (w.nodes b).config topic partition offset message).Runs
        (Brokers.step τ τ' b reachable) w ok w' ↔
      ok = (w₁.nodes b).replication.quorumReached (w.nodes b).config topic partition offset ∧
        w' = w₁ := by
  have hrole : ((w.set b { w.nodes b with mutex := some τ }).nodes b).isLeader = true := by
    rw [Brokers.set_nodes_self]
    exact hleader
  rw [replicateMessage_eq]
  subst hw₁
  refine runs_withLock hfree (fun {ok w'} => ?_) (Brokers.mutex_foldl_visit hnodup)
  rw [runs_ask (Node.step_isLeader hrole)]
  refine runs_replicating hnodup hpeers (fun {peer v} hv h u v' => ?_) rfl
  obtain ⟨m, hm⟩ := hv
  rw [show (w.nodes b).now = (v.nodes b).now by rw [hm]]
  exact runs_replicateRound hid (by rw [hm]; exact .inr rfl) (by rw [hm]; exact hleader) h

/-- **`replicate_batch`** on a leader. -/
theorem runs_replicateBatch {firstOffset lastOffset : Nat} {messages : List Bytes}
    (hid : (w.nodes b).config.brokerId = b) (hfree : (w.nodes b).mutex = none)
    (hleader : (w.nodes b).isLeader = true) (hmessages : messages ≠ [])
    (hlast : lastOffset = (firstOffset + messages.length - 1) % 2 ^ 64)
    (hnodup : ((w.nodes b).config.peers.map ClusterPeer.brokerId).Nodup)
    (hpeers : w.Answer τ' b reachable
      (encodeRequest (batchRequest topic partition firstOffset messages)) reply)
    (hw₁ : w₁ = w.visitAll τ b reachable reply (noteBatch topic partition lastOffset)
      (fun m => m.openAcks (w.nodes b).config topic partition lastOffset)) :
    (replicateBatch (w.nodes b).config topic partition firstOffset messages).Runs
        (Brokers.step τ τ' b reachable) w ok w' ↔
      ok = (w₁.nodes b).replication.quorumReached (w.nodes b).config topic partition
          lastOffset ∧ w' = w₁ := by
  have hunfold : replicateBatch (w.nodes b).config topic partition firstOffset messages
      = node .isLeader >>= fun leader =>
        if (!leader) = true then return false
        else if messages = [] then return false
        else withLock (replicating (w.nodes b).config topic partition
          ((firstOffset + messages.length - 1) % 2 ^ 64) (batchRound (w.nodes b).config
            (encodeRequest (batchRequest topic partition firstOffset messages)) topic partition
            ((firstOffset + messages.length - 1) % 2 ^ 64))) := rfl
  rw [hunfold, runs_ask (Node.step_isLeader hleader), if_neg (by decide), if_neg hmessages,
    ← hlast]
  subst hw₁
  refine runs_withLock hfree (fun {ok w'} => ?_) (Brokers.mutex_foldl_visit hnodup)
  refine runs_replicating hnodup hpeers (fun {peer v} hv h u v' => ?_) rfl
  obtain ⟨m, hm⟩ := hv
  exact runs_batchRound hid (by rw [hm]; exact .inr rfl) (by rw [hm]; exact hleader) h

/-- **`broadcast_commit`** on a leader. -/
theorem runs_broadcastCommit {u : Unit} (hid : (w.nodes b).config.brokerId = b)
    (hfree : (w.nodes b).mutex = none) (hleader : (w.nodes b).isLeader = true)
    (hnodup : ((w.nodes b).config.peers.map ClusterPeer.brokerId).Nodup)
    (hpeers : w.Answer τ' b reachable (encodeRequest (commitRequest topic partition offset))
      reply) :
    (broadcastCommit (w.nodes b).config topic partition offset).Runs
        (Brokers.step τ τ' b reachable) w u w' ↔
      w' = w.visitAll τ b reachable reply (noteCommit (w.nodes b).now) (fun m => m) := by
  have hrole : ((w.set b { w.nodes b with mutex := some τ }).nodes b).isLeader = true := by
    rw [Brokers.set_nodes_self]
    exact hleader
  have hloop : ∀ {u v}, ((w.nodes b).config.peers.forM (commitRound (w.nodes b).config
      (encodeRequest (commitRequest topic partition offset)))).Runs
      (Brokers.step τ τ' b reachable) (w.hold τ b (fun m => m)) u v ↔
        v = (w.nodes b).config.peers.foldl
          (Brokers.visit b reachable reply (noteCommit (w.nodes b).now))
          (w.hold τ b (fun m => m)) := by
    refine runs_loop hnodup hpeers (fun {peer v} hv h u v' => ?_)
    obtain ⟨m, hm⟩ := hv
    rw [show (w.nodes b).now = (v.nodes b).now by rw [hm]]
    exact runs_commitRound hid (by rw [hm]; exact .inr rfl) h
  refine (runs_withLock (y := ()) hfree (fun {u w'} => ?_)
    (Brokers.mutex_foldl_visit hnodup)).trans (and_iff_right rfl)
  rw [runs_ask (Node.step_isLeader hrole), if_neg (by decide)]
  exact hloop.trans (and_iff_right rfl).symm

end Calls

end Actions

/-! ### What a peer makes of a request -/

/-- A request that arrives as it was sent. -/
def Request.Travels (request : Request) : Prop :=
  parseRequest (Frame.delivered (encodeRequest request)) = request

/-- A canonical request that fits a frame arrives as it was sent. -/
theorem Request.travels_of_fits {request : Request} (hfits : request.Fits)
    (hcarried : request.carried = request) (hlength : (encodeRequest request).length < 2 ^ 32) :
    request.Travels := by
  unfold Request.Travels
  rw [Frame.delivered_eq hlength, parseRequest_encode hfits, hcarried]

/-- Only a batch can be too long for the 32 bits of a frame's header. -/
theorem Request.length_encode_lt {request : Request} (h : request.Sized)
    (hsingle : request.type ≠ .batchProduce ∧ request.type ≠ .batchReplicate) :
    (encodeRequest request).length < 2 ^ 32 := by
  obtain ⟨htopic, -, hmessage, -, -, hgroup, hmember, -, -⟩ := h
  unfold kMaxStringBytes at htopic hmessage hgroup hmember
  by_cases herror : request.type = .error
  · rw [encodeRequest, if_pos herror]
    decide
  · have hfields : (encodeFields request).length ≤ 40 + 3 * (16 * 1024 * 1024) := by
      unfold encodeFields Codec.putTopicPartition
      cases htype : request.type with
      | batchProduce => exact absurd htype hsingle.1
      | batchReplicate => exact absurd htype hsingle.2
      | _ =>
        simp only [List.length_append, Codec.length_putString, Codec.length_putI32,
          Codec.length_putU64, List.length_nil]
        omega
    rw [length_encodeRequest herror]
    omega

section Travels

variable {request : Request}

/-- What a leader derives from a produce arrives as it was sent, if a batch is not too long. -/
theorem travels_derived (hfits : request.Fits) (hoffset : offset < 2 ^ 64) :
    (replicationRequest request.topic request.partition offset request.message).Travels ∧
      (commitRequest request.topic request.partition offset).Travels ∧
      ((encodeRequest (batchRequest request.topic request.partition offset
          request.messages)).length < 2 ^ 32 →
        (batchRequest request.topic request.partition offset request.messages).Travels) := by
  obtain ⟨hreplication, hcommit, hbatch⟩ := derived_fits hfits hoffset
  refine ⟨?_, ?_, ?_⟩
  · exact Request.travels_of_fits hreplication rfl
      (Request.length_encode_lt hreplication.toSized (by simp [replicationRequest]))
  · exact Request.travels_of_fits hcommit rfl
      (Request.length_encode_lt hcommit.toSized (by simp [commitRequest]))
  · exact Request.travels_of_fits hbatch rfl

/-- So does the acknowledgement. -/
theorem travels_acknowledgement (hfits : request.Fits) {config : BrokerConfig}
    (hid : IsInt32 config.brokerId) : (request.acknowledgement config).Travels := by
  have hlast : (request.acknowledgement config).fetchOffset < 2 ^ 64 := by
    unfold Request.acknowledgement
    dsimp only
    split
    · exact Nat.mod_lt _ (Nat.two_pow_pos 64)
    · exact hfits.fetchOffset
  have hack : (request.acknowledgement config).Fits := ack_fits hfits hid hlast
  exact Request.travels_of_fits hack rfl
    (Request.length_encode_lt hack.toSized (by simp [Request.acknowledgement]))

end Travels

/-- A broker that gets a replication request: its state afterwards, and the answer. -/
def Node.taken (request : Request) (s : Node) : Node × Bytes :=
  ((s.replicated s.config request).1,
    Frame.delivered (firstFrame (s.replicated s.config request).2 ⟨true, [], 0, []⟩))

/-- A broker that learns of a commit. -/
def Node.informed (topic : Bytes) (partition : Int) (offset : Nat) (s : Node) : Node × Bytes :=
  ({ s with replication := s.replication.markCommitted topic partition offset },
    Frame.delivered (serializeResponse ⟨true, [], 0, []⟩))

section Serves

variable {τ : Nat} {s s' : Node} {frame : Bytes}

/-- A free follower answers a replication request in one way. -/
theorem serves_replication {request : Request}
    (htype : request.type = .replicate ∨ request.type = .batchReplicate)
    (htravels : request.Travels) (hoffset : request.fetchOffset < 2 ^ 64)
    (hroom : (s.contents request.logKey).length + request.records.length < 2 ^ 64) :
    s.Serves τ (encodeRequest request) s' frame ↔ (s', frame) = s.taken request := by
  have hprogram : processRequest s.config (Frame.delivered (encodeRequest request)) (some 0)
      = handleReplicationRequest s.config request (some 0) >>= fun _ =>
        return ⟨true, [], 0, []⟩ := by
    unfold processRequest
    dsimp only
    rw [htravels]
    unfold handleInterBrokerRequest
    rcases htype with htype | htype <;> simp only [htype] <;> rfl
  unfold Node.Serves Node.taken
  rw [hprogram]
  constructor
  · rintro ⟨_, acks, hrun, rfl⟩
    obtain ⟨_, w₁, hhandle, rfl, rfl⟩ := Prog.runs_bind.mp hrun
    obtain ⟨rfl, rfl⟩ := Prod.mk.inj (runs_handleReplicationRequest htype hoffset hhandle)
    rfl
  · intro heq
    obtain ⟨rfl, rfl⟩ := Prod.mk.inj heq
    obtain ⟨w₁, hhandle⟩ := exists_runs_handleReplicationRequest true τ s [] s.config request
      (some 0) htype hoffset hroom
    obtain rfl := runs_handleReplicationRequest htype hoffset hhandle
    exact ⟨_, _, Prog.runs_bind.mpr ⟨(), _, hhandle, rfl, rfl⟩, rfl⟩

/-- So it does a commit. -/
theorem serves_commit {topic : Bytes} {partition : Int} (htopic : topic ≠ [])
    (hpartition : 0 ≤ partition) (htravels : (commitRequest topic partition offset).Travels)
    (hfree : s.mutex = none) :
    s.Serves τ (encodeRequest (commitRequest topic partition offset)) s' frame
      ↔ (s', frame) = s.informed topic partition offset := by
  have hvalid : ¬ (topic = [] ∨ partition < 0) :=
    not_or.mpr ⟨htopic, Int.not_lt.mpr hpartition⟩
  have hprogram : processRequest s.config
      (Frame.delivered (encodeRequest (commitRequest topic partition offset))) (some 0)
      = node (.markCommitted topic partition offset) >>= fun _ =>
        return ⟨true, [], 0, []⟩ := by
    unfold processRequest
    dsimp only
    rw [htravels]
    show (handleCommitRequest (commitRequest topic partition offset) >>= fun _ => _) = _
    have hhandle : handleCommitRequest (commitRequest topic partition offset)
        = node (.markCommitted topic partition offset) := by
      unfold handleCommitRequest
      rw [if_neg (by simp [commitRequest])]
      exact if_neg hvalid
    rw [hhandle]
  have hstep : ∀ {r s₁}, s.alone τ (.node (.markCommitted topic partition offset)) r s₁ ↔
      r = () ∧ s₁ = { s with replication := s.replication.markCommitted topic partition offset } :=
    alone_iff (fun c => Node.locked_eq (.inl hfree) _)
  unfold Node.Serves Node.informed
  rw [hprogram]
  constructor
  · rintro ⟨_, acks, ⟨_, w₁, ⟨s₁, hmark, rfl⟩, rfl, heq⟩, rfl⟩
    obtain ⟨-, rfl⟩ := hstep.mp hmark
    obtain ⟨rfl, rfl⟩ := Prod.mk.inj heq
    rfl
  · intro heq
    obtain ⟨rfl, rfl⟩ := Prod.mk.inj heq
    exact ⟨_, [], ⟨(), _, ⟨_, hstep.mpr ⟨rfl, rfl⟩, rfl⟩, rfl, rfl⟩, rfl⟩

end Serves

end StreamingPlatform
