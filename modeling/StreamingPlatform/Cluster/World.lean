import StreamingPlatform.Broker.Handlers

namespace StreamingPlatform

open ByteString Interleave

/-!
# Cluster — brokers, connections and threads

The whole system as a machine in the sense of `Lib/Interleave`.  A `World` holds the state
of every broker, the connections that brokers have opened to each other, what each thread
was started for and the history of all actions.  The environment starts threads: a client
request arrives, a broker takes up a request that another one has sent it, a heartbeat
round begins.  It also lets clocks advance and brokers crash for good.

A connection carries one request and the frames written back on it.  The code reads at
most one frame from a connection it has opened, so reading leaves the frames in place.
Nothing is said about when a request that was sent is taken up, or that it ever is.
-/

/-- A connection from a broker to another one. -/
structure Conn where
  dest : Int
  payload : Bytes
  accepted : Bool := false
  frames : List Bytes := []
  deriving DecidableEq, Repr

/-- What a thread was started for. -/
inductive Source where
  | client (payload : Bytes)
  | peer (conn : Nat) (payload : Bytes)
  | heartbeat
  deriving DecidableEq, Repr

/-- A thread's broker and what it was started for. -/
structure Task where
  node : Int
  source : Source
  deriving DecidableEq, Repr

/-- The request a thread serves. -/
def Task.request? (task : Task) : Option Request :=
  match task.source with
  | .client payload => some (parseRequest payload)
  | .peer _ payload => some (parseRequest payload)
  | .heartbeat => none

/-- An action that a thread has performed, and what it returned. -/
structure Event where
  thread : Nat
  act : Act
  result : act.Result

/-- The state of the system. -/
structure World where
  nodes : Int → Node
  conns : List Conn := []
  tasks : List Task := []
  history : List Event := []

/-! ### Actions -/

/-- Write a frame to a connection; a client's connection is not modelled. -/
def writeFrame (conns : List Conn) (conn : Option Nat) (frame : Bytes) : List Conn :=
  match conn with
  | none => conns
  | some id => conns.modify id (fun c => { c with frames := c.frames ++ [frame] })

/-- The effect of a socket operation on the connections.  Payloads arrive whole, also
    those of `2 ^ 32` bytes or more, which a frame would cut short. -/
def NetAct.step (conns : List Conn) : (a : NetAct) → Choice → Option (a.Result × List Conn)
  | .send dest payload, .succeeds =>
    some (.sent conns.length, conns ++ [{ dest := dest, payload := payload }])
  | .send _ _, .fails => some (.unreachable, conns)
  | .send _ _, .writeFails => some (.writeFailed, conns)
  -- a blocking read: not possible before a frame has been written
  | .receive conn, .succeeds =>
    match (conns[conn]?).bind (fun c => c.frames.head?) with
    | some frame => some (some frame, conns)
    | none => none
  | .receive _, .fails => some (none, conns)
  | .sendAck conn ack, .succeeds => some ((), writeFrame conns conn (encodeRequest ack))
  | .sendAck _ _, .fails => some ((), conns)
  | .respond conn response, .succeeds =>
    some ((), writeFrame conns conn (serializeResponse response))
  | .respond _ _, .fails => some ((), conns)
  | _, _ => none

namespace World

/-- The effect of an action of thread `τ` at broker `n`. -/
def effect (w : World) (τ : Nat) (n : Int) : (a : Act) → Choice → Option (a.Result × World)
  | .node a, c =>
    (a.step τ (w.nodes n) c).map
      (fun r => (r.1, { w with nodes := Function.update w.nodes n r.2 }))
  | .net a, c => (a.step w.conns c).map (fun r => (r.1, { w with conns := r.2 }))

/-- An action of thread `τ`: its effect, recorded in the history.  A thread of a broker
    that has crashed does nothing any more. -/
def exec (τ : Nat) (a : Act) (c : Choice) (w : World) : Option (a.Result × World) :=
  match w.tasks[τ]? with
  | none => none
  | some task =>
    if (w.nodes task.node).alive then
      (w.effect τ task.node a c).map
        (fun r => (r.1, { r.2 with history := r.2.history ++ [⟨τ, a, r.1⟩] }))
    else none

end World

/-! ### The environment -/

/-- A step of the environment. -/
inductive EnvStep where
  | client (n : Int) (payload : Bytes)
  | accept (conn : Nat)
  | heartbeat (n : Int)
  | tick (n : Int) (milliseconds : Nat)
  | crash (n : Int)
  deriving DecidableEq, Repr

namespace World

/-- Start a thread.  Threads are numbered in the order of their tasks. -/
def start (w : World) (k : Nat) (task : Task) (program : Program (Option Response)) :
    Option (World × Option (Program (Option Response))) :=
  if k = w.tasks.length ∧ (w.nodes task.node).alive then
    some ({ w with tasks := w.tasks ++ [task] }, some program)
  else none

/-- The steps of the environment. -/
def env (k : Nat) (e : EnvStep) (w : World) :
    Option (World × Option (Program (Option Response))) :=
  match e with
  | .client n payload =>
    -- an empty frame ends the connection before anything is processed
    if payload = [] then none
    else w.start k ⟨n, .client payload⟩ (serve (w.nodes n).config payload none)
  | .accept conn =>
    match w.conns[conn]? with
    | none => none
    | some c =>
      -- a request is taken up once
      if c.accepted then none
      else
        { w with conns := w.conns.set conn { c with accepted := true } }.start k
          ⟨c.dest, .peer conn c.payload⟩ (serve (w.nodes c.dest).config c.payload (some conn))
  | .heartbeat n => w.start k ⟨n, .heartbeat⟩ (heartbeat (w.nodes n).config)
  | .tick n d =>
    some ({ w with
      nodes := Function.update w.nodes n { w.nodes n with now := (w.nodes n).now + d } }, none)
  | .crash n =>
    some ({ w with
      nodes := Function.update w.nodes n { w.nodes n with alive := false } }, none)

end World

/-- The cluster as a machine. -/
def clusterMachine :
    Machine Act Act.Result (Option Response) World Choice EnvStep where
  exec := World.exec
  env := World.env

/-- A cluster with its threads. -/
abbrev ClusterPool := Pool Act Act.Result (Option Response) World

/-! ### Starting a cluster -/

/-- How a cluster is started: its members, their roles and leader ids as configured, and
    what the log directories contain. -/
structure Setup where
  cluster : Membership
  type : Int → BrokerType
  leaderBrokerId : Int → Int
  disk : Int → Bytes → List Bytes

namespace Setup

variable (setup : Setup)

/-- A broker that has just been started; an id that is not a member's stands for no
    process. -/
def node (id : Int) : Node :=
  match setup.cluster.broker? id with
  | some config =>
    { config, type := setup.type id, leaderBrokerId := setup.leaderBrokerId id,
      disk := setup.disk id, replication := ReplicationManager.construct config 0 }
  | none =>
    { config := ⟨0, id, [], []⟩, type := .follower, leaderBrokerId := id,
      disk := setup.disk id, replication := {}, alive := false }

/-- The cluster before anything has happened. -/
def pool : ClusterPool := ⟨{ nodes := setup.node }, []⟩

end Setup

end StreamingPlatform
