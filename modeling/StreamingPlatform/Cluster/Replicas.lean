import StreamingPlatform.Cluster.Alone
import StreamingPlatform.Cluster.Runs
import StreamingPlatform.Lib.Path

namespace StreamingPlatform

open ByteString Interleave

/-!
# Cluster — a follower takes over records

`handle_replication_request` as a sequential program: what it does to the follower's log
and which acknowledgements it sends is a function of the state it starts in
(`Node.replicated`, `runs_handleReplicationRequest`).  A follower whose log ends where the
request begins takes all records over and acknowledges them.  Any other follower appends
the first record all the same, since a record is written before its offset is compared,
and then stops without an acknowledgement.

So a refused request leaves the log alone only if it was refused for its form or by a
leader (`replication_atomic_iff`).  A follower does not notice that its acknowledgement could
not be written, either: it keeps the records.
-/

/-! ### Records of one log -/

/-- Records are appended to one log. -/
def Node.appendRecords (s : Node) (topic : Bytes) (partition : Int) (messages : List Bytes) :
    Node :=
  { s with
    storage := s.storage.appendAll (messageLogs s.disk)
      (messages.map (fun message => (topic, partition, message))) }

variable {message : Bytes} {origin : AppendOrigin} {ok : Bool}

section Append

variable {τ : Nat} {s s' : Node} {topic : Bytes} {partition : Int}

theorem Node.step_append (hroom : (s.contents (makeKey topic partition)).length + 1 < 2 ^ 64)
    (c : Choice) :
    NodeAct.step τ s (.append topic partition message origin) c
      = some ((s.contents (makeKey topic partition)).length,
        s.appendRecords topic partition [message]) := by
  have hlength := StorageEngine.append_fst s.disk s.storage topic partition message
  rw [NodeAct.step, if_pos hroom]
  exact congrArg some (Prod.ext hlength rfl)

/-- An append is possible as long as the log has room for the record. -/
theorem alone_append_iff {r : Nat} :
    s.alone τ (.node (.append topic partition message origin)) r s' ↔
      (s.contents (makeKey topic partition)).length + 1 < 2 ^ 64 ∧
        r = (s.contents (makeKey topic partition)).length ∧
        s' = s.appendRecords topic partition [message] := by
  constructor
  · rintro ⟨c, h⟩
    obtain ⟨hroom, -⟩ := Option.ite_none_right_eq_some.mp h
    rw [Node.step_append hroom] at h
    obtain ⟨rfl, rfl⟩ := Prod.mk.inj (Option.some.inj h)
    exact ⟨hroom, rfl, rfl⟩
  · rintro ⟨hroom, rfl, rfl⟩
    exact ⟨.succeeds, Node.step_append hroom _⟩

theorem Node.appendRecords_cons (s : Node) (topic : Bytes) (partition : Int) (message : Bytes)
    (messages : List Bytes) : s.appendRecords topic partition (message :: messages)
      = (s.appendRecords topic partition [message]).appendRecords topic partition messages := rfl

/-- The records go to one log. -/
theorem Node.contents_appendRecords (s : Node) (topic : Bytes) (partition : Int)
    (messages : List Bytes) (key : Bytes) :
    (s.appendRecords topic partition messages).contents key
      = if key = makeKey topic partition then s.contents key ++ messages else s.contents key := by
  induction messages generalizing s with
  | nil =>
    rw [List.append_nil, ite_self]
    rfl
  | cons message messages ih =>
    have hone : (s.appendRecords topic partition [message]).contents key
        = if key = makeKey topic partition then s.contents key ++ [message]
          else s.contents key :=
      StorageEngine.contents_append s.disk s.storage topic partition message key
    rw [Node.appendRecords_cons, ih, hone]
    split
    · rw [List.append_assoc]
      rfl
    · rfl

theorem Node.contents_appendRecords_self (s : Node) (topic : Bytes) (partition : Int)
    (messages : List Bytes) :
    (s.appendRecords topic partition messages).contents (makeKey topic partition)
      = s.contents (makeKey topic partition) ++ messages := by
  rw [Node.contents_appendRecords, if_pos rfl]

end Append

/-! ### A broker and its acknowledgements -/

/-- An action of thread `τ` at a broker on its own.  The acknowledgements that it sends are
    written down; whether they can be sent (`written`) is up to the connection, and
    `handle_replication_request` does not look. -/
def Node.replying (written : Bool) (τ : Nat) (w : Node × List Request) :
    (a : Act) → a.Result → Node × List Request → Prop
  | .node a, r, w' => ∃ s', w.1.alone τ (.node a) r s' ∧ w' = (s', w.2)
  | .net (.sendAck _ ack), _, w' => w' = (w.1, w.2 ++ if written then [ack] else [])
  | .net _, _, w' => w' = w

section Replying

variable {written : Bool} {τ : Nat} {s : Node} {acks : List Request} {w' : Node × List Request}
  {topic : Bytes} {partition : Int}

/-- An append has one outcome as long as there is room. -/
theorem replying_append_iff {r : Nat} :
    Node.replying written τ (s, acks) (.node (.append topic partition message origin)) r w' ↔
      (s.contents (makeKey topic partition)).length + 1 < 2 ^ 64 ∧
        r = (s.contents (makeKey topic partition)).length ∧
        w' = (s.appendRecords topic partition [message], acks) := by
  constructor
  · rintro ⟨s', happend, rfl⟩
    obtain ⟨hroom, hr, rfl⟩ := alone_append_iff.mp happend
    exact ⟨hroom, hr, rfl⟩
  · rintro ⟨hroom, hr, rfl⟩
    exact ⟨_, alone_append_iff.mpr ⟨hroom, hr, rfl⟩, rfl⟩

/-- A replica is written first and compared afterwards. -/
theorem runs_appendReplica {expected : Nat} :
    (appendReplica topic partition message expected).Runs (Node.replying written τ) (s, acks) ok
        w' ↔
      (s.contents (makeKey topic partition)).length + 1 < 2 ^ 64 ∧
        ok = decide ((s.contents (makeKey topic partition)).length = expected) ∧
        w' = (s.appendRecords topic partition [message], acks) := by
  constructor
  · rintro ⟨offset, w₁, happend, rfl, rfl⟩
    obtain ⟨hroom, rfl, rfl⟩ := replying_append_iff.mp happend
    exact ⟨hroom, rfl, rfl⟩
  · rintro ⟨hroom, rfl, rfl⟩
    exact ⟨_, _, replying_append_iff.mpr ⟨hroom, rfl, rfl⟩, rfl, rfl⟩

/-- A log that ends where the batch begins takes it over, if there is room for it. -/
theorem runs_appendReplicas_inSync {messages : List Bytes}
    (hsmall : (s.contents (makeKey topic partition)).length < 2 ^ 64) :
    (appendReplicas topic partition messages (s.contents (makeKey topic partition)).length).Runs
        (Node.replying written τ) (s, acks) ok w' ↔
      (s.contents (makeKey topic partition)).length + messages.length < 2 ^ 64 ∧
        ok = true ∧ w' = (s.appendRecords topic partition messages, acks) := by
  induction messages generalizing s with
  | nil => exact ⟨fun h => ⟨hsmall, h⟩, fun h => h.2⟩
  | cons message messages ih =>
    have hlength := Node.contents_appendRecords_self s topic partition [message]
    have hnext : ((s.appendRecords topic partition [message]).contents
        (makeKey topic partition)).length
          = (s.contents (makeKey topic partition)).length + 1 := by
      rw [hlength, List.length_append]
      rfl
    rw [appendReplicas, Prog.runs_bind, ← hnext, Nat.mod_eq_of_lt hsmall]
    constructor
    · rintro ⟨first, w₁, hfirst, hrest⟩
      obtain ⟨hroom, rfl, rfl⟩ := runs_appendReplica.mp hfirst
      rw [decide_eq_true rfl, if_pos rfl, ih (hnext ▸ hroom), hnext] at hrest
      obtain ⟨hall, rfl, rfl⟩ := hrest
      exact ⟨by rw [List.length_cons]; omega, rfl, rfl⟩
    · rintro ⟨hroom, rfl, rfl⟩
      rw [List.length_cons] at hroom
      refine ⟨true, _, runs_appendReplica.mpr ⟨by omega, (decide_eq_true rfl).symm, rfl⟩, ?_⟩
      rw [if_pos rfl, ih (by omega), hnext]
      exact ⟨by omega, rfl, rfl⟩

/-- Any other log takes over the first record, and no more. -/
theorem runs_appendReplicas_outOfSync {messages : List Bytes} {expected : Nat}
    (hne : (s.contents (makeKey topic partition)).length ≠ expected % 2 ^ 64) :
    (appendReplicas topic partition (message :: messages) expected).Runs (Node.replying written τ)
        (s, acks) ok w' ↔
      (s.contents (makeKey topic partition)).length + 1 < 2 ^ 64 ∧
        ok = false ∧ w' = (s.appendRecords topic partition [message], acks) := by
  rw [appendReplicas, Prog.runs_bind]
  constructor
  · rintro ⟨first, w₁, hfirst, hrest⟩
    obtain ⟨hroom, rfl, rfl⟩ := runs_appendReplica.mp hfirst
    rw [decide_eq_false hne] at hrest
    exact ⟨hroom, hrest⟩
  · rintro ⟨hroom, hrest⟩
    refine ⟨false, _, runs_appendReplica.mpr ⟨hroom, (decide_eq_false hne).symm, rfl⟩, hrest⟩

end Replying

/-! ### A whole request -/

namespace Request

/-- The records that a replication request carries. -/
def records (request : Request) : List Bytes :=
  if request.type = .replicate then [request.message] else request.messages

/-- The form that a follower asks for. -/
def Replicable (request : Request) : Prop :=
  request.topic ≠ [] ∧ 0 ≤ request.partition ∧
    (request.type = .replicate → request.message ≠ []) ∧
    (request.type = .batchReplicate → request.messages ≠ [])

instance (request : Request) : Decidable request.Replicable :=
  inferInstanceAs (Decidable (_ ∧ _))

/-- The log of the request. -/
def logKey (request : Request) : Bytes := makeKey request.topic request.partition

/-- The acknowledgement of a request whose records have all been appended. -/
def acknowledgement (config : BrokerConfig) (request : Request) : Request :=
  { type := .ack, topic := request.topic, partition := request.partition,
    fetchOffset := if request.type = .batchReplicate then
        (request.fetchOffset + (request.messages.length - 1)) % 2 ^ 64
      else request.fetchOffset,
    brokerId := config.brokerId }

end Request

/-- What a broker makes of a replication request: its state afterwards, and the
    acknowledgements to send. -/
def Node.replicated (s : Node) (config : BrokerConfig) (request : Request) :
    Node × List Request :=
  if s.isLeader ∨ ¬ request.Replicable then (s, [])
  else if (s.contents request.logKey).length = request.fetchOffset then
    (s.appendRecords request.topic request.partition request.records,
      [request.acknowledgement config])
  else (s.appendRecords request.topic request.partition (request.records.take 1), [])

section Request

variable {written : Bool} {τ : Nat} {s : Node} {acks : List Request} {w' : Node × List Request}
  {config : BrokerConfig} {request : Request} {conn : Option Nat}

/-- The appends of `handle_replication_request`. -/
def appendRequest (request : Request) : Program Bool :=
  if request.type = .replicate then
    appendReplica request.topic request.partition request.message request.fetchOffset
  else appendReplicas request.topic request.partition request.messages request.fetchOffset

/-- The handler, with its checks gathered in one. -/
theorem handleReplicationRequest_eq
    (htype : request.type = .replicate ∨ request.type = .batchReplicate) :
    handleReplicationRequest config request conn = (node .isLeader >>= fun leader =>
      if leader = true ∨ ¬ request.Replicable then pure ()
      else appendRequest request >>= fun appended =>
        if appended = true then net (.sendAck conn (request.acknowledgement config))
        else pure ()) := by
  have hkind : (request.type != .replicate && request.type != .batchReplicate) = false := by
    rcases htype with htype | htype <;> rw [htype] <;> rfl
  unfold handleReplicationRequest
  simp only [hkind, Bool.or_false]
  congr 1
  funext leader
  cases leader with
  | true => rfl
  | false =>
    -- the checks of the code in the order in which it makes them
    have hform : (request.topic = [] ∨ request.partition < 0 ∨
        (request.type = .replicate ∧ request.message = []) ∨
        (request.type = .batchReplicate ∧ request.messages = [])) ↔ ¬ request.Replicable := by
      unfold Request.Replicable
      constructor
      · rintro (h | h | h | h) hrep
        · exact hrep.1 h
        · exact absurd hrep.2.1 (Int.not_le.mpr h)
        · exact hrep.2.2.1 h.1 h.2
        · exact hrep.2.2.2 h.1 h.2
      · intro h
        by_contra hall
        simp only [not_or, not_and] at hall
        exact h ⟨hall.1, Int.not_lt.mp hall.2.1, hall.2.2.1, hall.2.2.2⟩
    simp only [Bool.false_eq_true, if_false, false_or, hform]
    split
    · rfl
    · unfold appendRequest
      split
      · congr 1
        funext appended
        cases appended <;> rfl
      · congr 1
        funext appended
        cases appended <;> rfl

/-- The follower takes the request over, or keeps what it has written. -/
theorem runs_appendRequest (hrep : request.Replicable)
    (htype : request.type = .replicate ∨ request.type = .batchReplicate)
    (hoffset : request.fetchOffset < 2 ^ 64)
    (h : (appendRequest request).Runs (Node.replying written τ) (s, acks) ok w') :
    ok = decide ((s.contents request.logKey).length = request.fetchOffset) ∧
      w' = (s.appendRecords request.topic request.partition
        (if (s.contents request.logKey).length = request.fetchOffset then request.records
          else request.records.take 1), acks) := by
  unfold appendRequest at h
  unfold Request.records
  split at h
  · next hsingle =>
    obtain ⟨-, rfl, rfl⟩ := runs_appendReplica.mp h
    rw [if_pos hsingle]
    refine ⟨rfl, ?_⟩
    split <;> rfl
  · next hbatch =>
    rw [if_neg hbatch]
    by_cases hsync : (s.contents request.logKey).length = request.fetchOffset
    · rw [if_pos hsync]
      rw [← hsync] at h hoffset
      obtain ⟨-, rfl, rfl⟩ := (runs_appendReplicas_inSync hoffset).mp h
      exact ⟨(decide_eq_true hsync).symm, rfl⟩
    · rw [if_neg hsync]
      cases hmessages : request.messages with
      | nil => exact absurd hmessages (hrep.2.2.2 (htype.resolve_left hbatch))
      | cons message messages =>
        rw [hmessages, runs_appendReplicas_outOfSync
          (by rw [Nat.mod_eq_of_lt hoffset]; exact hsync)] at h
        obtain ⟨-, rfl, rfl⟩ := h
        exact ⟨(decide_eq_false hsync).symm, rfl⟩

/-- There is such a run as long as the log has room for the records. -/
theorem exists_runs_appendRequest (written : Bool) (τ : Nat) (s : Node) (acks : List Request)
    (hrep : request.Replicable)
    (htype : request.type = .replicate ∨ request.type = .batchReplicate)
    (hoffset : request.fetchOffset < 2 ^ 64)
    (hroom : (s.contents request.logKey).length + request.records.length < 2 ^ 64) :
    ∃ ok w', (appendRequest request).Runs (Node.replying written τ) (s, acks) ok w' := by
  unfold Request.records at hroom
  unfold appendRequest
  split
  · next hsingle =>
    rw [if_pos hsingle] at hroom
    exact ⟨_, _, runs_appendReplica.mpr ⟨hroom, rfl, rfl⟩⟩
  · next hbatch =>
    rw [if_neg hbatch] at hroom
    by_cases hsync : (s.contents request.logKey).length = request.fetchOffset
    · rw [← hsync] at hoffset ⊢
      exact ⟨_, _, (runs_appendReplicas_inSync hoffset).mpr ⟨hroom, rfl, rfl⟩⟩
    · cases hmessages : request.messages with
      | nil => exact absurd hmessages (hrep.2.2.2 (htype.resolve_left hbatch))
      | cons message messages =>
        rw [hmessages, List.length_cons] at hroom
        refine ⟨_, _, (runs_appendReplicas_outOfSync ?_).mpr ⟨?_, rfl, rfl⟩⟩
        · rw [Nat.mod_eq_of_lt hoffset]
          exact hsync
        · show (s.contents request.logKey).length + 1 < 2 ^ 64
          omega

/-- **A replication request** does what `Node.replicated` says. -/
theorem runs_handleReplicationRequest {u : Unit}
    (htype : request.type = .replicate ∨ request.type = .batchReplicate)
    (hoffset : request.fetchOffset < 2 ^ 64)
    (h : (handleReplicationRequest config request conn).Runs (Node.replying written τ) (s, acks) u
      w') :
    w' = ((s.replicated config request).1,
      acks ++ if written then (s.replicated config request).2 else []) := by
  rw [handleReplicationRequest_eq htype] at h
  obtain ⟨leader, w₁, ⟨s₁, hrole, rfl⟩, h⟩ := Prog.runs_perform_bind.mp h
  obtain ⟨rfl, rfl⟩ := alone_isLeader hrole
  unfold Node.replicated
  split at h
  · next hrefused =>
    obtain ⟨-, rfl⟩ := h
    rw [if_pos hrefused, ite_self, List.append_nil]
  · next htaken =>
    rw [if_neg htaken]
    obtain ⟨ok, w₂, happend, h⟩ := Prog.runs_bind.mp h
    obtain ⟨rfl, rfl⟩ := runs_appendRequest (not_not.mp (not_or.mp htaken).2) htype hoffset happend
    by_cases hsync : (s₁.contents request.logKey).length = request.fetchOffset
    · rw [if_pos (decide_eq_true hsync)] at h
      obtain ⟨_, _, rfl, -, rfl⟩ := h
      rw [if_pos hsync, if_pos hsync]
    · rw [if_neg (by simpa using hsync)] at h
      obtain ⟨-, rfl⟩ := h
      rw [if_neg hsync, if_neg hsync, ite_self, List.append_nil]

/-- The handler always comes to an end. -/
theorem exists_runs_handleReplicationRequest (written : Bool) (τ : Nat) (s : Node)
    (acks : List Request) (config : BrokerConfig) (request : Request) (conn : Option Nat)
    (htype : request.type = .replicate ∨ request.type = .batchReplicate)
    (hoffset : request.fetchOffset < 2 ^ 64)
    (hroom : (s.contents request.logKey).length + request.records.length < 2 ^ 64) :
    ∃ w', (handleReplicationRequest config request conn).Runs (Node.replying written τ) (s, acks) ()
      w' := by
  rw [handleReplicationRequest_eq htype]
  have hrole : Node.replying written τ (s, acks) (.node .isLeader) s.isLeader (s, acks) :=
    ⟨s, ⟨.succeeds, rfl⟩, rfl⟩
  by_cases hrefused : s.isLeader = true ∨ ¬ request.Replicable
  · refine ⟨(s, acks), Prog.runs_perform_bind.mpr ⟨_, _, hrole, ?_⟩⟩
    rw [if_pos hrefused]
    exact ⟨rfl, rfl⟩
  · obtain ⟨ok, w₁, happend⟩ := exists_runs_appendRequest written τ s acks
      (not_not.mp (not_or.mp hrefused).2) htype hoffset hroom
    cases ok with
    | true =>
      refine ⟨(w₁.1, w₁.2 ++ if written then [request.acknowledgement config] else []),
        Prog.runs_perform_bind.mpr ⟨_, _, hrole, ?_⟩⟩
      rw [if_neg hrefused]
      exact Prog.runs_bind.mpr ⟨true, w₁, happend, Prog.runs_perform.mpr rfl⟩
    | false =>
      refine ⟨w₁, Prog.runs_perform_bind.mpr ⟨_, _, hrole, ?_⟩⟩
      rw [if_neg hrefused]
      exact Prog.runs_bind.mpr ⟨false, w₁, happend, rfl, rfl⟩

/-- What a request should do to the follower's log: without an acknowledgement nothing,
    with one it ends in the request's records, from the request's offset on. -/
def AllOrNothing (s : Node) (request : Request) (s' : Node) (acks : List Request) : Prop :=
  (acks = [] → s'.contents request.logKey = s.contents request.logKey) ∧
    (acks ≠ [] → (s.contents request.logKey).length = request.fetchOffset ∧
      s'.contents request.logKey = s.contents request.logKey ++ request.records)

theorem Request.Replicable.records_ne_nil (hrep : request.Replicable)
    (htype : request.type = .replicate ∨ request.type = .batchReplicate) :
    request.records ≠ [] := by
  unfold Request.records
  rcases htype with htype | htype
  · rw [if_pos htype]
    exact List.cons_ne_nil _ _
  · rw [if_neg (by rw [htype]; decide)]
    exact hrep.2.2.2 htype

/-- All or nothing, except for records that are kept without an acknowledgement. -/
theorem allOrNothing_replicated_iff (s : Node) (config : BrokerConfig) (written : Bool)
    (htype : request.type = .replicate ∨ request.type = .batchReplicate) :
    AllOrNothing s request (s.replicated config request).1
        (if written then (s.replicated config request).2 else []) ↔
      s.isLeader = true ∨ ¬ request.Replicable ∨
        ((s.contents request.logKey).length = request.fetchOffset ∧ written = true) := by
  unfold Node.replicated AllOrNothing
  by_cases hrefused : s.isLeader = true ∨ ¬ request.Replicable
  · rw [if_pos hrefused, ← or_assoc, ite_self]
    exact iff_of_true ⟨fun _ => rfl, fun h => absurd rfl h⟩ (.inl hrefused)
  rw [if_neg hrefused, ← or_assoc, or_iff_right hrefused]
  have hne := (not_not.mp (not_or.mp hrefused).2).records_ne_nil htype
  -- records are in the log, and nobody is told
  have hgrown : ∀ {records : List Bytes}, records ≠ [] →
      (s.appendRecords request.topic request.partition records).contents request.logKey
        ≠ s.contents request.logKey := by
    intro records hrecords hsame
    rw [Request.logKey, Node.contents_appendRecords_self, List.append_right_eq_self] at hsame
    exact hrecords hsame
  by_cases hsync : (s.contents request.logKey).length = request.fetchOffset
  · rw [if_pos hsync]
    cases written with
    | true =>
      refine iff_of_true ⟨fun h => absurd h (List.cons_ne_nil _ _), fun _ => ⟨hsync, ?_⟩⟩
        ⟨hsync, rfl⟩
      exact Node.contents_appendRecords_self s request.topic request.partition request.records
    | false => exact iff_of_false (fun h => hgrown hne (h.1 rfl)) (fun h => by cases h.2)
  · rw [if_neg hsync, ite_self]
    refine iff_of_false (fun h => hgrown ?_ (h.1 rfl)) (fun h => hsync h.1)
    intro hnil
    rcases List.take_eq_nil_iff.mp hnil with hzero | hnil
    · exact absurd hzero (by decide)
    · exact hne hnil

/-- **Refused or taken over.**  A broker can serve every replication request for which it
    has room, and leaves its log alone or takes over and acknowledges all records exactly
    if it is a leader, or the request is malformed, or the log ends where the request
    begins and the acknowledgement can be written.  A topic with `/` may share its files with
    another one. -/
theorem replication_atomic_iff (written : Bool) (τ : Nat) (s : Node) (config : BrokerConfig)
    (request : Request) (conn : Option Nat)
    (htype : request.type = .replicate ∨ request.type = .batchReplicate)
    (hoffset : request.fetchOffset < 2 ^ 64) (_hplain : Path.slash ∉ request.topic) :
    ((s.contents request.logKey).length + request.records.length < 2 ^ 64 → ∃ s' acks,
      (handleReplicationRequest config request conn).Runs (Node.replying written τ) (s, []) ()
        (s', acks)) ∧
    ∀ s' acks, (handleReplicationRequest config request conn).Runs (Node.replying written τ)
        (s, []) () (s', acks) →
      (AllOrNothing s request s' acks ↔ s.isLeader = true ∨ ¬ request.Replicable ∨
        ((s.contents request.logKey).length = request.fetchOffset ∧ written = true)) := by
  constructor
  · intro hroom
    obtain ⟨w', hrun⟩ := exists_runs_handleReplicationRequest written τ s [] config request conn
      htype hoffset hroom
    exact ⟨w'.1, w'.2, hrun⟩
  · intro s' acks hrun
    obtain ⟨rfl, rfl⟩ := Prod.mk.inj (runs_handleReplicationRequest htype hoffset hrun)
    rw [List.nil_append]
    exact allOrNothing_replicated_iff s config written htype

end Request

/-- Record `A` of partition 0 of topic `t`, replicated at offset 0. -/
def replicationOfA : Request := replicationRequest (ofString "t") 0 0 [65]

/-- The first record of an empty log. -/
theorem replication_atomic_iff_fresh : ∃ s' acks,
    (handleReplicationRequest (twoBrokers.node 2).config replicationOfA none).Runs
      (Node.replying true 0) (twoBrokers.node 2, []) () (s', acks) ∧
    AllOrNothing (twoBrokers.node 2) replicationOfA s' acks := by
  obtain ⟨hexists, hall⟩ := replication_atomic_iff true 0 (twoBrokers.node 2)
    (twoBrokers.node 2).config replicationOfA none (.inl rfl) (by decide) (by decide)
  obtain ⟨s', acks, hrun⟩ := hexists (by decide +kernel)
  exact ⟨s', acks, hrun, (hall s' acks hrun).mpr (.inr (.inr ⟨by decide +kernel, rfl⟩))⟩

/-- A follower that holds the record receives it once more: no acknowledgement, and the
    record is in its log twice. -/
theorem redelivery_appends :
    let follower := (twoBrokers.node 2).appendRecords (ofString "t") 0 [[65]]
    follower.contents replicationOfA.logKey = [[65]] ∧ ∃ s',
      (handleReplicationRequest follower.config replicationOfA none).Runs
        (Node.replying true 0) (follower, []) () (s', []) ∧
      s'.contents replicationOfA.logKey = [[65], [65]] := by
  intro follower
  obtain ⟨w', hrun⟩ := exists_runs_handleReplicationRequest true 0 follower [] follower.config
    replicationOfA none (.inl rfl) (by decide) (by decide +kernel)
  have hw' := runs_handleReplicationRequest (.inl rfl) (by decide) hrun
  have hacks : (follower.replicated follower.config replicationOfA).2 = [] := by decide +kernel
  rw [hacks, ite_self] at hw'
  refine ⟨by decide +kernel, _, hw' ▸ hrun, ?_⟩
  decide +kernel

end StreamingPlatform
