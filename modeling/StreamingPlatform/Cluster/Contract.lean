import StreamingPlatform.Cluster.Monotone
import StreamingPlatform.Protocol.Parsed

namespace StreamingPlatform

open ByteString Interleave

/-!
# Cluster — what messages mean

The contract between the brokers, as a protocol in the sense of `Lib/Interleave`:

* what a request that one broker sends to another says about the logs and the history
  (`PayloadOk`): a replicated record is a record that a client's request put into some log,
  a commit names an offset that a quorum has acknowledged;
* what a frame that comes back says (`FrameOk`): an ACK is from a broker that holds the
  record, a response to a produce is from a broker that knows it on a majority;
* what a thread owes at each of its actions (`Pre`).

What messages say is true as long as inter-broker requests come from brokers only
(`Honest`).  All of it is monotone: once said, it stays true (`World.Mono`).  `contract`
puts it together; that the programs of a broker honour it is shown in the next two modules.
-/

variable {τ : Nat} {a : Act} {c : Choice} {r : a.Result}

namespace World

section Facts

variable (w : World)

/-- Broker `n` holds `message` at `offset` of a log. -/
def Holds (n : Int) (topic : Bytes) (partition : Int) (offset : Nat) (message : Bytes) : Prop :=
  ((w.nodes n).contents (makeKey topic partition))[offset]? = some message

/-- Thread `τ` has performed `a`, which returned `r`. -/
def Did (τ : Nat) (a : Act) (r : a.Result) : Prop := (⟨τ, a, r⟩ : Event) ∈ w.history

/-- No client has sent an inter-broker request. -/
def Honest : Prop :=
  ∀ (τ : Nat) (n : Int) (payload : Bytes), w.tasks[τ]? = some ⟨n, .client payload⟩ →
    (parseRequest payload).type.isInterBroker = false

/-- A majority of the brokers, none counted twice, satisfies `P`. -/
def Majority (cluster : Membership) (P : Int → Prop) : Prop :=
  ∃ ids : List Int, ids.Nodup ∧
    (∀ id ∈ ids, id ∈ cluster.brokers.map BrokerConfig.brokerId ∧ P id) ∧
    cluster.brokers.length < 2 * ids.length

/-- A client's record: a thread that took its broker for the leader has appended it, as
    the first record of a request, at `offset`, or as a later record of a batch that
    belongs at `offset` if the batch is contiguous. -/
def Sourced (topic : Bytes) (partition : Int) (offset : Nat) (message : Bytes) : Prop :=
  ∃ τ, w.Did τ (.node .isLeader) true ∧
    (w.Did τ (.node (.append topic partition message .client)) offset ∨
      ∃ actual, w.Did τ (.node (.append topic partition message (.batch offset))) actual)

/-- The request that thread `τ` serves, and where. -/
def Serves (τ : Nat) (n : Int) (request : Request) : Prop :=
  ∃ task, w.tasks[τ]? = some task ∧ task.node = n ∧ task.request? = some request

/-- Thread `τ` serves a produce to a log. -/
def Produces (τ : Nat) (topic : Bytes) (partition : Int) : Prop :=
  ∃ n request, w.Serves τ n request ∧
    (request.type = .produce ∨ request.type = .batchProduce) ∧
    request.topic = topic ∧ request.partition = partition

/-- A produce that has appended a record at `offset` or later found that its record had
    reached quorum. -/
def Quorate (topic : Bytes) (partition : Int) (offset : Nat) : Prop :=
  ∃ τ last message origin, offset ≤ last ∧ w.Produces τ topic partition ∧
    w.Did τ (.node (.append topic partition message origin)) last ∧
    w.Did τ (.node (.quorumReached topic partition last)) true

/-- Broker `n` has committed `offset`. -/
def Committed (n : Int) (topic : Bytes) (partition : Int) (offset : Nat) : Prop :=
  ∃ c, offset ≤ c ∧
    (w.nodes n).replication.commitIndexByLog (makeKey topic partition) = some c

/-- Broker `n` has a record in an open log and has committed it. -/
structure Readable (n : Int) (topic : Bytes) (partition : Int) (offset : Nat) (message : Bytes) :
    Prop where
  topic_ne : topic ≠ []
  partition_nonneg : 0 ≤ partition
  holds : w.Holds n topic partition offset message
  opened : ((w.nodes n).storage.find? (makeKey topic partition)).isSome
  committed : w.Committed n topic partition offset

end Facts

/-! ### Messages -/

variable (cluster : Membership) (w : World)

/-- What a request from broker to broker says. -/
def PayloadOk (payload : Bytes) : Prop :=
  w.Honest →
  let request := parseRequest payload
  match request.type with
  | .replicate =>
    w.Sourced request.topic request.partition request.fetchOffset request.message
  | .batchReplicate => ∀ (i : Nat) (message : Bytes), request.messages[i]? = some message →
      w.Sourced request.topic request.partition (request.fetchOffset + i) message
  | .commit => w.Quorate request.topic request.partition request.fetchOffset
  | .ack => False
  | _ => True

/-- What an ACK from broker `dest` to a request says. -/
def AckOk (dest : Int) (request ack : Request) : Prop :=
  ack.Fits ∧ ack.type = .ack ∧ (request.type = .replicate ∨ request.type = .batchReplicate) ∧
    (request.type = .replicate →
      ack = { type := .ack, topic := request.topic, partition := request.partition,
              fetchOffset := request.fetchOffset, brokerId := dest } ∧
      w.Holds dest request.topic request.partition request.fetchOffset request.message)

/-- Broker `id` holds a record, and is the broker `n` of thread `τ`, or that thread has counted
    an acknowledgement of `id` for it. -/
def Backs (τ : Nat) (n : Int) (topic : Bytes) (partition : Int) (offset : Nat) (message : Bytes)
    (id : Int) : Prop :=
  w.Holds id topic partition offset message ∧
    (id = n ∨ w.Did τ (.node (.handleAck id topic partition offset)) ())

/-- What the response to a request says to whoever forwarded it: the record of a produce is
    where its acknowledgements came from. -/
def ResponseOk (request : Request) (response : Response) : Prop :=
  w.Honest → request.type = .produce → response.Fits ∧ (response.success →
    ∃ τ n, Majority cluster (w.Backs τ n request.topic request.partition
      response.appendedOffset request.message))

/-- What a frame written back on a connection says. -/
def FrameOk (dest : Int) (payload frame : Bytes) : Prop :=
  w.Honest → (∃ ack, frame = encodeRequest ack ∧ w.AckOk dest (parseRequest payload) ack) ∨
    ∃ response, frame = serializeResponse response ∧
      w.ResponseOk cluster (parseRequest payload) response

/-- How thread `τ` of broker `n` came to its answer to a FETCH. -/
def FetchOk (τ : Nat) (n : Int) (request : Request) (response : Response) : Prop :=
  (∃ message, message ≠ [] ∧ response = ⟨true, message, request.fetchOffset, []⟩ ∧
    w.Did τ (.node (.fetch request.topic request.partition request.fetchOffset)) (.ok message) ∧
    w.Holds n request.topic request.partition request.fetchOffset message) ∨
  (response.success = false ∧ (request.topic = [] ∨ request.partition < 0 ∨
    w.Did τ (.node (.isCommitted request.topic request.partition request.fetchOffset)) false ∨
    ∃ r, w.Did τ (.node (.fetch request.topic request.partition request.fetchOffset)) r ∧
      ∀ message, r = .ok message → message = []))

/-- What is true when thread `τ` of broker `n` answers a request.  A broker that does not
    take itself for the leader has forwarded the request. -/
structure Served (τ : Nat) (n : Int) (request : Request) (response : Response) : Prop where
  forwarded : w.ResponseOk cluster request response
  fetched : request.type = .fetch → w.FetchOk τ n request response
  promised : response.success = true →
    match request.type with
    | .groupFetch => w.Did τ (.node .isLeader) false ∨
        (w.Holds n request.topic request.partition response.appendedOffset response.message ∧
          w.Did τ (.node (.nextOffset request.groupId request.topic request.partition))
            response.appendedOffset)
    | .produce => w.Did τ (.node .isLeader) false ∨
        w.Readable n request.topic request.partition response.appendedOffset request.message
    | .batchProduce => w.Did τ (.node .isLeader) false ∨
        List.Forall₂ (w.Readable n request.topic request.partition) response.appendedOffsets
          request.messages
    | _ => True

/-- Thread `τ` runs on broker `n`. -/
def RunsAt (τ : Nat) (n : Int) : Prop := ∃ task, w.tasks[τ]? = some task ∧ task.node = n

instance (τ : Nat) (n : Int) : Decidable (w.RunsAt τ n) :=
  decidable_of_iff (∃ task ∈ w.tasks[τ]?, task.node = n) Iff.rfl

/-! ### All of it is monotone -/

variable {request : Request}

namespace Mono

variable {cluster : Membership} {w w' : World} {n : Int} {topic : Bytes} {partition : Int}
  {offset : Nat} {message payload : Bytes}

/-- Records stay where they are. -/
theorem holds (h : w.Mono w') (hw : w.Holds n topic partition offset message) :
    w'.Holds n topic partition offset message := by
  obtain ⟨rest, hrest⟩ := (h.nodes n).contents (makeKey topic partition)
  unfold Holds at hw ⊢
  rw [← hrest, List.getElem?_append_left (List.getElem?_eq_some_iff.mp hw).1]
  exact hw

theorem honest (h : w.Mono w') (hw : w'.Honest) : w.Honest :=
  fun τ n payload ht => hw τ n payload (h.task ht)

theorem serves (h : w.Mono w') (hw : w.Serves τ n request) : w'.Serves τ n request := by
  obtain ⟨task, htask, hnode, hrequest⟩ := hw
  exact ⟨task, h.task htask, hnode, hrequest⟩

theorem did (h : w.Mono w') (hw : w.Did τ a r) : w'.Did τ a r :=
  h.event hw

/-- A broker that backs a record keeps doing so. -/
theorem backs (h : w.Mono w') {id : Int} (hw : w.Backs τ n topic partition offset message id) :
    w'.Backs τ n topic partition offset message id :=
  ⟨h.holds hw.1, hw.2.imp_right h.did⟩

theorem majority {P P' : Int → Prop} (hP : ∀ n, P n → P' n) (hw : Majority cluster P) :
    Majority cluster P' := by
  obtain ⟨ids, hnodup, hids, hlen⟩ := hw
  exact ⟨ids, hnodup, fun id hid => ⟨(hids id hid).1, hP id (hids id hid).2⟩, hlen⟩

/-- A record keeps its source. -/
theorem sourced (h : w.Mono w') (hw : w.Sourced topic partition offset message) :
    w'.Sourced topic partition offset message := by
  obtain ⟨τ, hleader, happend⟩ := hw
  refine ⟨τ, h.did hleader, ?_⟩
  rcases happend with happend | ⟨actual, happend⟩
  · exact .inl (h.did happend)
  · exact .inr ⟨actual, h.did happend⟩

theorem produces (h : w.Mono w') (hw : w.Produces τ topic partition) :
    w'.Produces τ topic partition := by
  obtain ⟨n, request, hserves, hrest⟩ := hw
  exact ⟨n, request, h.serves hserves, hrest⟩

/-- A quorum is not lost. -/
theorem quorate (h : w.Mono w') (hw : w.Quorate topic partition offset) :
    w'.Quorate topic partition offset := by
  obtain ⟨τ, last, message, origin, hle, hproduces, happend, hquorum⟩ := hw
  exact ⟨τ, last, message, origin, hle, h.produces hproduces, h.did happend, h.did hquorum⟩

/-- Neither is a commit. -/
theorem committed (h : w.Mono w') (hw : w.Committed n topic partition offset) :
    w'.Committed n topic partition offset := by
  obtain ⟨c, hle, hc⟩ := hw
  obtain ⟨c', hle', hc'⟩ := (h.nodes n).commit _ c hc
  exact ⟨c', hle.trans hle', hc'⟩

/-- What is readable stays readable. -/
theorem readable (h : w.Mono w') (hw : w.Readable n topic partition offset message) :
    w'.Readable n topic partition offset message :=
  ⟨hw.topic_ne, hw.partition_nonneg, h.holds hw.holds, (h.nodes n).opened _ hw.opened,
    h.committed hw.committed⟩

/-- A payload stays in order. -/
theorem payloadOk (h : w.Mono w') (hw : w.PayloadOk payload) : w'.PayloadOk payload := by
  intro hhonest
  have hw := hw (h.honest hhonest)
  dsimp only at hw ⊢
  split
  · next htype => rw [htype] at hw; exact h.sourced hw
  · next htype => rw [htype] at hw; exact fun i message hi => h.sourced (hw i message hi)
  · next htype => rw [htype] at hw; exact h.quorate hw
  · next htype => rw [htype] at hw; exact hw
  · trivial

variable {response : Response}

theorem responseOk (h : w.Mono w') {response : Response}
    (hw : w.ResponseOk cluster request response) : w'.ResponseOk cluster request response := by
  intro hhonest htype
  obtain ⟨hfits, hmajority⟩ := hw (h.honest hhonest) htype
  refine ⟨hfits, fun hs => ?_⟩
  obtain ⟨τ, n, hbacks⟩ := hmajority hs
  exact ⟨τ, n, majority (fun _ => h.backs) hbacks⟩

/-- So does a frame. -/
theorem frameOk (h : w.Mono w') {dest : Int} {frame : Bytes}
    (hw : w.FrameOk cluster dest payload frame) : w'.FrameOk cluster dest payload frame := by
  intro hhonest
  rcases hw (h.honest hhonest) with ⟨ack, hframe, hfits, htype, hkind, hack⟩ |
    ⟨response, hframe, hresponse⟩
  · exact .inl ⟨ack, hframe, hfits, htype, hkind,
      fun hrep => ⟨(hack hrep).1, h.holds (hack hrep).2⟩⟩
  · exact .inr ⟨response, hframe, h.responseOk hresponse⟩

theorem fetchOk (h : w.Mono w') (hw : w.FetchOk τ n request response) :
    w'.FetchOk τ n request response := by
  rcases hw with ⟨m, hm, hresponse, hdid, hholds⟩ | ⟨hs, hwhy⟩
  · exact .inl ⟨m, hm, hresponse, h.did hdid, h.holds hholds⟩
  · refine .inr ⟨hs, hwhy.imp_right (Or.imp_right (Or.imp h.did ?_))⟩
    exact fun ⟨r, hdid, hr⟩ => ⟨r, h.did hdid, hr⟩

/-- An answer stays justified. -/
theorem served (h : w.Mono w') (hw : w.Served cluster τ n request response) :
    w'.Served cluster τ n request response := by
  refine ⟨h.responseOk hw.forwarded, fun hf => h.fetchOk (hw.fetched hf), fun hs => ?_⟩
  have hlocal := hw.promised hs
  cases htype : request.type <;> simp only [htype] at hlocal ⊢
  case groupFetch =>
    rcases hlocal with hforward | ⟨hholds, hnext⟩
    · exact .inl (h.did hforward)
    · exact .inr ⟨h.holds hholds, h.did hnext⟩
  case produce =>
    rcases hlocal with hforward | hread
    · exact .inl (h.did hforward)
    · exact .inr (h.readable hread)
  case batchProduce =>
    rcases hlocal with hforward | hread
    · exact .inl (h.did hforward)
    · exact .inr (hread.imp (fun _ _ hr => h.readable hr))

theorem runsAt (h : w.Mono w') (hw : w.RunsAt τ n) : w'.RunsAt τ n := by
  obtain ⟨task, htask, hnode⟩ := hw
  exact ⟨task, h.task htask, hnode⟩

end Mono

/-- A thread that serves a request runs at the broker. -/
theorem Serves.runsAt {w : World} {n : Int} (h : w.Serves τ n request) : w.RunsAt τ n := by
  obtain ⟨task, htask, hnode, -⟩ := h
  exact ⟨task, htask, hnode⟩

/-- It serves one request. -/
theorem Serves.unique {w : World} {n n' : Int} {request' : Request} (h : w.Serves τ n request)
    (h' : w.Serves τ n' request') : n = n' ∧ request = request' := by
  obtain ⟨task, htask, rfl, hrequest⟩ := h
  obtain ⟨task', htask', rfl, hrequest'⟩ := h'
  rw [htask, Option.some.injEq] at htask'
  subst htask'
  rw [hrequest, Option.some.injEq] at hrequest'
  exact ⟨rfl, hrequest'⟩

/-- It runs at one broker. -/
theorem RunsAt.unique {w : World} {n n' : Int} (h : w.RunsAt τ n) (h' : w.RunsAt τ n') :
    n = n' := by
  obtain ⟨task, htask, rfl⟩ := h
  obtain ⟨task', htask', rfl⟩ := h'
  rw [htask, Option.some.injEq] at htask'
  rw [htask']

/-- An action is on record once it is performed. -/
theorem did_exec {w w' : World} (h : exec τ a c w = some (r, w')) : w'.Did τ a r := by
  unfold Did
  rw [(exec_history h).1]
  exact List.mem_append_right _ (List.mem_singleton.mpr rfl)

/-- An action on the state of the broker where the thread runs. -/
theorem exec_node_at {w w' : World} {n : Int} {a : NodeAct} {r : a.Result}
    (h : exec τ (.node a) c w = some (r, w')) (hn : w.RunsAt τ n) :
    a.step τ (w.nodes n) c = some (r, w'.nodes n) := by
  obtain ⟨task, s', htask, hstep, rfl⟩ := exec_node h
  -- a thread runs on one broker
  obtain rfl := RunsAt.unique ⟨task, htask, rfl⟩ hn
  dsimp only
  rw [hstep, Function.update_self]

/-- What an action does to one broker. -/
theorem exec_effect {w w' : World} (h : exec τ a c w = some (r, w')) (n : Int) :
    w'.nodes n = w.nodes n ∨
      ∃ act, a = .node act ∧ w.RunsAt τ n ∧ NodeAct.Effect τ (w.nodes n) act (w'.nodes n) := by
  cases a with
  | net a =>
    obtain ⟨task, conns, -, -, rfl⟩ := exec_net h
    exact .inl rfl
  | node a =>
    obtain ⟨task, s', htask, hstep, rfl⟩ := exec_node h
    dsimp only
    by_cases hn : n = task.node
    · subst hn
      rw [Function.update_self]
      exact .inr ⟨a, rfl, ⟨task, htask, rfl⟩, NodeAct.step_effect hstep⟩
    · rw [Function.update_of_ne hn]
      exact .inl rfl

/-- What an action keeps of the broker where it takes place, it keeps of every broker. -/
theorem exec_keeps {w w' : World} (h : exec τ a c w = some (r, w')) {P : Node → Prop} {n : Int}
    (hn : P (w.nodes n)) (heffect : ∀ act, a = .node act → w.RunsAt τ n →
      NodeAct.Effect τ (w.nodes n) act (w'.nodes n) → P (w'.nodes n)) : P (w'.nodes n) := by
  rcases exec_effect h n with heq | ⟨act, ha, hat, hact⟩
  · rw [heq]
    exact hn
  · exact heffect act ha hat hact

end World

/-! ### The protocol -/

/-- No condition on the steps. -/
def anyStep : Guard Act World EnvStep := ⟨fun _ _ _ => True, fun _ _ => True⟩

/-- What a thread owes when it appends.  Client records are appended where the broker has
    been found to be the leader, replicated ones where it has not, and they are those a
    leader sent. -/
def AppendOk (w : World) (τ : Nat) (topic : Bytes) (partition : Int) (message : Bytes) :
    AppendOrigin → Prop
  | .client | .batch _ => w.Did τ (.node .isLeader) true
  | .replica expected => w.Did τ (.node .isLeader) false ∧ (w.Honest →
      ∃ offset, expected = offset % 2 ^ 64 ∧ w.Sourced topic partition offset message)

/-- What a thread owes at an action. -/
def Pre (cluster : Membership) (τ : Nat) (a : Act) (w : World) : Prop :=
  match a with
  | .node (.append topic partition message origin) => AppendOk w τ topic partition message origin
  | .node (.markCommitted topic partition offset) =>
    0 ≤ partition ∧ (w.Honest → w.Quorate topic partition offset)
  -- a group's topic is never empty, so that cursors of different logs stay apart
  | .node (.join _ _ topic _) => topic ≠ []
  | .node (.commit groupId _ topic partition offset) =>
    ∃ n request, w.Serves τ n request ∧ request.type = .commitOffset ∧
      request.groupId = groupId ∧ request.topic = topic ∧ request.partition = partition ∧
      request.fetchOffset = offset
  | .net (.send _ payload) => w.PayloadOk payload
  | .net (.sendAck conn ack) => ∀ id c, conn = some id → w.conns[id]? = some c →
      w.AckOk c.dest (parseRequest c.payload) ack
  | .net (.respond conn response) =>
    ∃ n request, w.Serves τ n request ∧ w.Served cluster τ n request response ∧
      ∀ id c, conn = some id → w.conns[id]? = some c → parseRequest c.payload = request
  | _ => True

/-- What is true of the whole cluster at any time. -/
structure Inv (cluster : Membership) (w : World) : Prop where
  alive : ∀ n, (w.nodes n).alive = true →
    (w.nodes n).config ∈ cluster.brokers ∧ (w.nodes n).config.brokerId = n
  tasks : ∀ (τ : Nat) (task : Task), w.tasks[τ]? = some task →
    (w.nodes task.node).config ∈ cluster.brokers ∧
      (w.nodes task.node).config.brokerId = task.node
  sources : ∀ (τ : Nat) (n : Int) (id : Nat) (payload : Bytes),
    w.tasks[τ]? = some ⟨n, .peer id payload⟩ →
      ∃ c, w.conns[id]? = some c ∧ c.dest = n ∧ c.payload = payload
  ran : ∀ e ∈ w.history, ∃ n, w.RunsAt e.thread n
  payloads : ∀ (id : Nat) (c : Conn), w.conns[id]? = some c → w.PayloadOk c.payload
  frames : ∀ (id : Nat) (c : Conn), w.conns[id]? = some c → ∀ frame ∈ c.frames,
    w.FrameOk cluster c.dest c.payload frame
  committed : w.Honest → ∀ n key c, (w.nodes n).replication.commitIndexByLog key = some c →
    ∃ topic partition, 0 ≤ partition ∧ key = makeKey topic partition ∧
      w.Quorate topic partition c

section Protocol

variable {cluster : Membership} {w w' : World} {id : Nat} {conn : Conn}

/-- The source of a task stays what it is. -/
theorem Inv.sources_mono (hI : Inv cluster w) (hmono : w.Mono w') {n : Int} {payload : Bytes}
    (htask : w.tasks[τ]? = some ⟨n, .peer id payload⟩) :
    ∃ c, w'.conns[id]? = some c ∧ c.dest = n ∧ c.payload = payload := by
  obtain ⟨c, hc, hdest, hpayload⟩ := hI.sources τ n id payload htask
  obtain ⟨c', hc', hdest', hpayload'⟩ := hmono.conns id c hc
  exact ⟨c', hc', hdest'.trans hdest, hpayload'.trans hpayload⟩

/-- Whoever is in the history runs somewhere. -/
theorem Inv.ran_exec (hI : Inv cluster w) (h : World.exec τ a c w = some (r, w')) :
    ∀ e ∈ w'.history, ∃ n, w'.RunsAt e.thread n := by
  obtain ⟨hhistory, htasks⟩ := World.exec_history h
  intro e he
  rw [hhistory] at he
  unfold World.RunsAt
  rw [htasks]
  rcases List.mem_append.mp he with he | he
  · exact hI.ran e he
  · rw [List.mem_singleton.mp he]
    cases a with
    | node a =>
      obtain ⟨task, s', htask, -, -⟩ := World.exec_node h
      exact ⟨task.node, task, htask, rfl⟩
    | net a =>
      obtain ⟨task, conns, htask, -, -⟩ := World.exec_net h
      exact ⟨task.node, task, htask, rfl⟩

/-- An action leaves a broker alive and, unless it commits, its commit indexes alone. -/
theorem NodeAct.Effect.commitIndex {s s' : Node} {a : NodeAct} (h : NodeAct.Effect τ s a s') :
    s'.alive = s.alive ∧
      (s'.replication.commitIndexByLog = s.replication.commitIndexByLog ∨
        ∃ topic partition offset, a = .markCommitted topic partition offset ∧
          s'.replication = s.replication.markCommitted topic partition offset) := by
  cases h with
  | markCommitted topic partition offset _ =>
    exact ⟨rfl, .inr ⟨topic, partition, offset, rfl, rfl⟩⟩
  | acks _ replication _ _ hcommit => exact ⟨rfl, .inl hcommit⟩
  | liveness _ replication type leaderBrokerId _ hcommit _ _ => exact ⟨rfl, .inl hcommit⟩
  | none | append | join | leave | commitOffset | refreshTopic | lock | unlock =>
    exact ⟨rfl, .inl rfl⟩

/-- No action crashes a broker or revives it. -/
theorem World.exec_alive (h : World.exec τ a c w = some (r, w')) (n : Int) :
    (w'.nodes n).alive = (w.nodes n).alive := by
  rcases World.exec_effect h n with hsame | ⟨act, -, -, heffect⟩
  · rw [hsame]
  · exact heffect.commitIndex.1

/-- A commit index is an old one or the offset just committed. -/
theorem World.exec_commitIndex (h : World.exec τ a c w = some (r, w')) {n : Int} {key : Bytes}
    {committed : Nat} (hc : (w'.nodes n).replication.commitIndexByLog key = some committed) :
    (w.nodes n).replication.commitIndexByLog key = some committed ∨
      ∃ topic partition, a = .node (.markCommitted topic partition committed) ∧
        key = makeKey topic partition := by
  rcases World.exec_effect h n with hsame | ⟨act, rfl, -, heffect⟩
  · exact .inl (hsame ▸ hc)
  rcases heffect.commitIndex.2 with hsame | ⟨topic, partition, offset, rfl, hmark⟩
  · exact .inl (hsame ▸ hc)
  rw [hmark, ReplicationManager.commitIndexByLog_markCommitted] at hc
  split at hc
  · next hkey =>
    cases hbefore : (w.nodes n).replication.commitIndexByLog key with
    | none =>
      rw [hbefore, Option.getD_none, Nat.zero_max, Option.some.injEq] at hc
      exact .inr ⟨topic, partition, hc ▸ rfl, hkey⟩
    | some before =>
      -- the index is the maximum of the old one and the offset
      rw [hbefore, Option.getD_some, Option.some.injEq] at hc
      rcases max_choice before offset with hmax | hmax
      · exact .inl (by rw [← hc, hmax])
      · exact .inr ⟨topic, partition, by rw [← hc, hmax], hkey⟩
  · exact .inl hc

/-- A frame is added to the connection that it is written to. -/
theorem World.mem_writeFrame {on : Option Nat} {new : Bytes}
    (h : (writeFrame w.conns on new)[id]? = some conn) :
    ∃ old, w.conns[id]? = some old ∧ old.dest = conn.dest ∧ old.payload = conn.payload ∧
      ∀ frame ∈ conn.frames, frame ∈ old.frames ∨ (on = some id ∧ frame = new) := by
  rw [World.getElem?_writeFrame] at h
  obtain ⟨old, hold, heq⟩ := Option.map_eq_some_iff.mp h
  split at heq
  · next hon =>
    subst heq
    refine ⟨old, hold, rfl, rfl, fun frame hframe => ?_⟩
    exact (List.mem_append.mp hframe).imp_right (fun hf => ⟨hon, List.mem_singleton.mp hf⟩)
  · subst heq
    exact ⟨old, hold, rfl, rfl, fun _ => .inl⟩

/-- A connection was there before, with all frames but the one that the action has written to
    it, or the action has just opened it. -/
theorem World.exec_conn (h : World.exec τ a c w = some (r, w'))
    (hconn : w'.conns[id]? = some conn) :
    (∃ old, w.conns[id]? = some old ∧ old.dest = conn.dest ∧ old.payload = conn.payload ∧
      ∀ frame ∈ conn.frames, frame ∈ old.frames ∨
        (∃ ack, a = .net (.sendAck (some id) ack) ∧ frame = encodeRequest ack) ∨
        ∃ response, a = .net (.respond (some id) response) ∧
          frame = serializeResponse response) ∨
      (a = .net (.send conn.dest conn.payload) ∧ conn.frames = []) := by
  cases a with
  | node a =>
    obtain ⟨task, s', -, -, rfl⟩ := World.exec_node h
    exact .inl ⟨conn, hconn, rfl, rfl, fun _ => .inl⟩
  | net a =>
    obtain ⟨task, conns, -, hstep, rfl⟩ := World.exec_net h
    rcases NetAct.step_cases hstep with rfl | ⟨dest, payload, rfl, rfl⟩ | ⟨on, ack, rfl, rfl⟩ |
      ⟨on, response, rfl, rfl⟩
    · exact .inl ⟨conn, hconn, rfl, rfl, fun _ => .inl⟩
    · rcases Nat.lt_or_ge id w.conns.length with hlt | hge
      · refine .inl ⟨conn, ?_, rfl, rfl, fun _ => .inl⟩
        rwa [List.getElem?_append_left hlt] at hconn
      · -- the connection just opened
        rw [List.getElem?_append_right hge, List.getElem?_singleton] at hconn
        split at hconn
        · rw [← Option.some.inj hconn]
          exact .inr ⟨rfl, rfl⟩
        · exact absurd hconn (by simp)
    · obtain ⟨old, hold, hdest, hpayload, hwritten⟩ := World.mem_writeFrame hconn
      refine .inl ⟨old, hold, hdest, hpayload, fun frame hframe => ?_⟩
      rcases hwritten frame hframe with hf | ⟨rfl, hf⟩
      · exact .inl hf
      · exact .inr (.inl ⟨ack, rfl, hf⟩)
    · obtain ⟨old, hold, hdest, hpayload, hwritten⟩ := World.mem_writeFrame hconn
      refine .inl ⟨old, hold, hdest, hpayload, fun frame hframe => ?_⟩
      rcases hwritten frame hframe with hf | ⟨rfl, hf⟩
      · exact .inl hf
      · exact .inr (.inr ⟨response, rfl, hf⟩)

/-- What the connections say after an action: a request that was sent and a frame that was
    written are covered by the action's precondition. -/
theorem Inv.conns_exec (hI : Inv cluster w) (hpre : Pre cluster τ a w)
    (h : World.exec τ a c w = some (r, w')) (hconn : w'.conns[id]? = some conn) :
    w.PayloadOk conn.payload ∧ ∀ f ∈ conn.frames, w.FrameOk cluster conn.dest conn.payload f := by
  rcases World.exec_conn h hconn with ⟨old, hold, hdest, hpayload, hwritten⟩ | ⟨rfl, hnone⟩
  · rw [← hdest, ← hpayload]
    refine ⟨hI.payloads id old hold, fun f hf => ?_⟩
    rcases hwritten f hf with hf | ⟨ack, rfl, rfl⟩ | ⟨response, rfl, rfl⟩
    · exact hI.frames id old hold f hf
    · exact fun _ => .inl ⟨ack, rfl, hpre id old rfl hold⟩
    · obtain ⟨n, request, -, hserved, hrequest⟩ := hpre
      exact fun _ => .inr ⟨response, rfl, (hrequest id old rfl hold).symm ▸ hserved.forwarded⟩
  · rw [hnone]
    exact ⟨hpre, fun f hf => absurd hf List.not_mem_nil⟩

/-- **An action** performed under its precondition keeps the invariant. -/
theorem Inv.exec (hI : Inv cluster w) (hpre : Pre cluster τ a w)
    (h : World.exec τ a c w = some (r, w')) : Inv cluster w' := by
  have hmono := (World.exec_mono h).1
  refine ⟨fun n hn => ?_, fun τ' task ht => ?_, fun τ' n id payload ht => ?_, hI.ran_exec h,
    fun id conn hconn => ?_, fun id conn hconn f hf => ?_, fun hhonest n key committed hc => ?_⟩
  · rw [World.exec_alive h] at hn
    rw [(hmono.nodes n).config]
    exact hI.alive n hn
  · rw [(World.exec_history h).2] at ht
    rw [(hmono.nodes task.node).config]
    exact hI.tasks τ' task ht
  · rw [(World.exec_history h).2] at ht
    exact hI.sources_mono hmono ht
  · exact hmono.payloadOk (hI.conns_exec hpre h hconn).1
  · exact hmono.frameOk ((hI.conns_exec hpre h hconn).2 f hf)
  · -- an offset is committed under its precondition, or was before
    have hhonest' := hmono.honest hhonest
    rcases World.exec_commitIndex h hc with hold | ⟨topic, partition, rfl, hkey⟩
    · obtain ⟨topic, partition, hp, hkey, hq⟩ := hI.committed hhonest' n key committed hold
      exact ⟨topic, partition, hp, hkey, hmono.quorate hq⟩
    · exact ⟨topic, partition, hpre.1, hkey, hmono.quorate (hpre.2 hhonest')⟩

/-- The environment keeps the invariant. -/
theorem Inv.env {k : Nat} {e : EnvStep} {started : Option (Program (Option Response))}
    (hI : Inv cluster w) (h : World.env k e w = some (w', started)) : Inv cluster w' := by
  have hmono := (World.env_mono h).1
  have hframe := (World.env_cases h).1
  have hconfig : ∀ n, (w'.nodes n).config = (w.nodes n).config := fun n => (hmono.nodes n).config
  refine ⟨fun n hn => ?_, fun τ task ht => ?_, fun τ n id payload ht => ?_, fun event he => ?_,
    fun id c hc => ?_, fun id c hc frame hf => ?_, fun hhonest n key c hc => ?_⟩
  · rw [hconfig]
    exact hI.alive n (hframe.alive n hn)
  · rw [hconfig]
    rcases World.env_task h ht with hold | ⟨-, -, -, halive, -⟩
    · exact hI.tasks τ task hold
    · -- a thread starts only on a live broker
      exact hI.alive task.node halive
  · rcases World.env_task h ht with hold | ⟨-, -, hnew, -, -⟩
    · exact hI.sources_mono hmono hold
    · cases hnew with
      | accept id c hc => exact hmono.conns id c hc
  · rw [hframe.history] at he
    obtain ⟨n, hn⟩ := hI.ran event he
    exact ⟨n, hmono.runsAt hn⟩
  · obtain ⟨c₀, hc₀, -, hpayload, -⟩ := hframe.conn hc
    rw [← hpayload]
    exact hmono.payloadOk (hI.payloads id c₀ hc₀)
  · obtain ⟨c₀, hc₀, hdest, hpayload, hframes⟩ := hframe.conn hc
    rw [← hdest, ← hpayload]
    exact hmono.frameOk (hI.frames id c₀ hc₀ frame (hframes ▸ hf))
  · obtain ⟨now, alive, hn⟩ := hframe.nodes n
    rw [hn] at hc
    obtain ⟨topic, partition, hp, hkey, hq⟩ := hI.committed (hmono.honest hhonest) n key c hc
    exact ⟨topic, partition, hp, hkey, hmono.quorate hq⟩

end Protocol

/-- **The contract of the cluster.** -/
def contract (cluster : Membership) : Protocol clusterMachine anyStep where
  Inv := Inv cluster
  Pre := Pre cluster
  exec_inv := fun hI _ hpre h => hI.exec hpre h
  env_inv := fun hI _ h => hI.env h

end StreamingPlatform
