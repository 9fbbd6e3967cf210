import StreamingPlatform.Cluster.Exchanges
import StreamingPlatform.Core.Assignment

namespace StreamingPlatform

open ByteString Interleave

/-!
# Cluster — what a produce does to the brokers

The effect of `replicate_message`, `replicate_batch` and `broadcast_commit` on all brokers, when
nothing else goes on and no peer is listed twice.  A peer in sync with the leader
(`Brokers.InSync`) takes the records over and acknowledges them; any other peer that is reached
is marked as failed, and is left with the first record if it is a follower (`Brokers.share`).

* `Replicates.replicated` — both ways to replicate have this effect;
* `Brokers.Idle.committed_foldl` — the commits reach the peers that have acknowledged;
* `Brokers.Produced.cons` — produces add up: the peers in sync stay so, the others are out of
  reach from then on.
-/

/-! ### Counting acknowledgements -/

section Tally

variable {b : Int} {key : Bytes} {acks : Int → Bool} {ids : List Int} {m m' : ReplicationManager}

/-- A peer whose acknowledgement a loop over the peers counts. -/
def Acking (b : Int) (acks : Int → Bool) (m : ReplicationManager) (p : Int) : Prop :=
  p ≠ b ∧ m.failedPeers p = false ∧ acks p = true

instance (b : Int) (acks : Int → Bool) (m : ReplicationManager) (p : Int) :
    Decidable (Acking b acks m p) := inferInstanceAs (Decidable (_ ∧ _))

/-- What a loop over the peers `ids` makes of the replication manager, if the peers in `acks`
    acknowledge. -/
structure Tallied (b : Int) (key : Bytes) (acks : Int → Bool) (ids : List Int)
    (m m' : ReplicationManager) : Prop where
  count : m'.ackCounts key = (m.ackCounts key).map (· + ids.countP (Acking b acks m))
  others : ∀ key', key' ≠ key → m'.ackFollowers key' = m.ackFollowers key'
  commits : m'.commitIndexByLog = m.commitIndexByLog
  failed : ∀ p, m'.failedPeers p = true
    ↔ m.failedPeers p = true ∨ (p ∈ ids ∧ p ≠ b ∧ acks p = false)
  followers : ∀ p, p ∈ m'.ackFollowers key → p ∈ m.ackFollowers key ∨ p ∈ ids

/-- No answer adds nothing. -/
theorem Tallied.nil (m : ReplicationManager) : Tallied b key acks [] m m where
  count := by cases m.ackCounts key <;> rfl
  others := fun _ _ => rfl
  commits := rfl
  failed := fun p => ⟨.inl, fun h => h.elim id (fun h => absurd h.1 List.not_mem_nil)⟩
  followers := fun p => .inl

/-- One round before the others. -/
theorem Tallied.cons {p : Int} {m₁ : ReplicationManager} (hp : p ∉ ids)
    (hfirst : Tallied b key acks [p] m m₁) (hrest : Tallied b key acks ids m₁ m') :
    Tallied b key acks (p :: ids) m m' := by
  -- the marks of the other peers are as they were
  have hsame : ∀ q ∈ ids, m₁.failedPeers q = m.failedPeers q := by
    intro q hq
    have hne : q ∉ [p] := fun h => hp (List.mem_singleton.mp h ▸ hq)
    rw [Bool.eq_iff_iff, hfirst.failed]
    exact ⟨fun h => h.elim id (fun h => absurd h.1 hne), .inl⟩
  have hcount : ids.countP (Acking b acks m₁) = ids.countP (Acking b acks m) := by
    refine List.countP_congr (fun q hq => ?_)
    have hq : Acking b acks m₁ q ↔ Acking b acks m q := by
      unfold Acking
      rw [hsame q hq]
    rw [decide_eq_true_eq, decide_eq_true_eq, hq]
  refine ⟨?_, ?_, ?_, ?_, ?_⟩
  · rw [hrest.count, hfirst.count, hcount, Option.map_map]
    congr 1
    funext c
    simp only [Function.comp_apply, List.countP_cons, List.countP_nil]
    omega
  · intro key' hkey
    rw [hrest.others key' hkey, hfirst.others key' hkey]
  · rw [hrest.commits, hfirst.commits]
  · intro q
    rw [hrest.failed, hfirst.failed, List.mem_singleton, List.mem_cons]
    tauto
  · intro q hq
    rcases hrest.followers q hq with hq | hq
    · rcases hfirst.followers q hq with hq | hq
      · exact .inl hq
      · exact .inr (List.mem_cons.mpr (.inl (List.mem_singleton.mp hq)))
    · exact .inr (List.mem_cons_of_mem _ hq)

variable {topic : Bytes} {partition : Int} {offset : Nat}
  {note : Int → ReplicationManager → ReplicationManager}

/-- **One round.**  An acknowledgement is counted if it is the peer's first. -/
theorem Tallied.visited {p : Int} {c : Nat} (hkey : key = makeAckKey topic partition offset)
    (hopen : m.ackCounts key = some c) (hnew : p ≠ b → p ∉ m.ackFollowers key)
    (hyes : p ≠ b → acks p = true → m.failedPeers p = false →
      ∃ h, note p m = { m.handleAck p topic partition offset with lastHeartbeat := h })
    (hno : p ≠ b → acks p = false → note p m = m.markFollowerFailed p) :
    Tallied b key acks [p] m (m.visited b note p) := by
  unfold ReplicationManager.visited
  by_cases hskip : p = b ∨ m.failedPeers p = true
  · -- no exchange
    have hcount : ¬ Acking b acks m p := by
      rintro ⟨hne, hfailed, -⟩
      rcases hskip with h | h
      · exact hne h
      · rw [hfailed] at h
        exact absurd h (by decide)
    rw [if_pos hskip]
    refine ⟨?_, fun _ _ => rfl, rfl, fun q => ⟨.inl, ?_⟩, fun _ => .inl⟩
    · rw [hopen, List.countP_cons, List.countP_nil, if_neg (by simpa using hcount)]
      rfl
    · rintro (h | ⟨hq, hne, -⟩)
      · exact h
      · rw [List.mem_singleton] at hq
        subst hq
        exact hskip.resolve_left hne
  · obtain ⟨hne, hfailed⟩ := not_or.mp hskip
    rw [Bool.not_eq_true] at hfailed
    rw [if_neg hskip]
    cases hack : acks p with
    | true =>
      obtain ⟨h, heq⟩ := hyes hne hack hfailed
      rw [heq, ReplicationManager.handleAck, ← hkey, if_neg (hnew hne)]
      refine ⟨?_, fun key' hne' => Function.update_of_ne hne' .., rfl, fun q => ⟨.inl, ?_⟩,
        fun q hq => ?_⟩
      · have hcount : Acking b acks m p := ⟨hne, hfailed, hack⟩
        rw [List.countP_cons, List.countP_nil, if_pos (decide_eq_true hcount)]
        dsimp only
        rw [Function.update_self, hopen]
        rfl
      · rintro (h | ⟨hq, -, hno⟩)
        · exact h
        · rw [List.mem_singleton] at hq
          rw [hq, hack] at hno
          exact absurd hno (by decide)
      · dsimp only at hq
        rw [Function.update_self, List.mem_insert_iff] at hq
        exact hq.symm.imp_right List.mem_singleton.mpr
    | false =>
      rw [hno hne hack]
      refine ⟨?_, fun _ _ => rfl, rfl, fun q => ?_, fun _ => .inl⟩
      · have hcount : ¬ Acking b acks m p := fun h => by simp [h.2.2] at hack
        rw [List.countP_cons, List.countP_nil, if_neg (by simpa using hcount)]
        show m.ackCounts key = _
        rw [hopen]
        rfl
      · show Function.update m.failedPeers p true q = true ↔ _
        rw [List.mem_singleton]
        by_cases hq : q = p
        · subst hq
          rw [Function.update_self]
          exact iff_of_true rfl (.inr ⟨rfl, hne, hack⟩)
        · rw [Function.update_of_ne hq]
          exact ⟨.inl, fun h => h.elim id (fun h => absurd h.1 hq)⟩

/-- **All rounds.** -/
theorem tallied_foldl {c : Nat} (hkey : key = makeAckKey topic partition offset)
    (hnodup : ids.Nodup) (hopen : m.ackCounts key = some c)
    (hnew : ∀ p ∈ ids, p ≠ b → p ∉ m.ackFollowers key)
    (hyes : ∀ p ∈ ids, p ≠ b → acks p = true → ∀ m : ReplicationManager,
      m.failedPeers p = false →
        ∃ h, note p m = { m.handleAck p topic partition offset with lastHeartbeat := h })
    (hno : ∀ p ∈ ids, p ≠ b → acks p = false → ∀ m, note p m = m.markFollowerFailed p) :
    Tallied b key acks ids m (ids.foldl (ReplicationManager.visited b note) m) := by
  induction ids generalizing m c with
  | nil => exact .nil m
  | cons p ids ih =>
    obtain ⟨hp, hnodup⟩ := List.nodup_cons.mp hnodup
    have hfirst : Tallied b key acks [p] m (m.visited b note p) :=
      Tallied.visited hkey hopen (hnew p List.mem_cons_self)
        (fun hne hack hfailed => hyes p List.mem_cons_self hne hack m hfailed)
        (fun hne hack => hno p List.mem_cons_self hne hack m)
    have hopen₁ := hfirst.count
    rw [hopen, Option.map_some] at hopen₁
    refine hfirst.cons hp (ih hnodup hopen₁ (fun q hq hne hmem => ?_)
      (fun q hq => hyes q (List.mem_cons_of_mem _ hq))
      (fun q hq => hno q (List.mem_cons_of_mem _ hq)))
    rcases hfirst.followers q hmem with hold | hone
    · exact hnew q (List.mem_cons_of_mem _ hq) hne hold
    · exact hp (List.mem_singleton.mp hone ▸ hq)

end Tally

/-! ### Answers to a replication request -/

theorem ReplicationManager.failedPeers_handleAck (m : ReplicationManager) (followerId : Int)
    (topic : Bytes) (partition : Int) (offset : Nat) :
    (m.handleAck followerId topic partition offset).failedPeers = m.failedPeers := by
  unfold ReplicationManager.handleAck
  dsimp only
  split <;> rfl

/-- The broker takes the records of a replication request over and acknowledges them. -/
def Node.TakesOver (s : Node) (request : Request) : Prop :=
  s.isLeader = false ∧ request.Replicable ∧
    (s.contents request.logKey).length = request.fetchOffset

instance (s : Node) (request : Request) : Decidable (s.TakesOver request) :=
  inferInstanceAs (Decidable (_ ∧ _))

section Answers

variable {s : Node} {request : Request} {config : BrokerConfig}

/-- A follower that takes the request over appends its records and acknowledges. -/
theorem Node.replicated_takesOver (h : s.TakesOver request) :
    s.replicated config request
      = (s.appendRecords request.topic request.partition request.records,
        [request.acknowledgement config]) := by
  obtain ⟨hrole, hrep, hlength⟩ := h
  unfold Node.replicated
  rw [if_neg (by simp [hrole, hrep]), if_pos hlength]

/-- A follower that does not answers nothing. -/
theorem Node.replicated_not_takesOver (h : ¬ s.TakesOver request) :
    (s.replicated config request).2 = [] := by
  unfold Node.replicated
  split
  · rfl
  · next htaken =>
    obtain ⟨hrole, hrep⟩ := not_or.mp htaken
    have hlength : (s.contents request.logKey).length ≠ request.fetchOffset :=
      fun heq => h ⟨Bool.not_eq_true _ ▸ hrole, not_not.mp hrep, heq⟩
    rw [if_neg hlength]

/-- The answer of a broker that takes the records over. -/
theorem parseRequest_taken (h : s.TakesOver request) (hfits : request.Fits)
    (hid : IsInt32 s.config.brokerId) :
    parseRequest (s.taken request).2 = request.acknowledgement s.config := by
  unfold Node.taken
  rw [Node.replicated_takesOver h]
  exact travels_acknowledgement hfits hid

/-- The answer of any other broker is a response. -/
theorem parseRequest_not_taken (h : ¬ s.TakesOver request) :
    (parseRequest (s.taken request).2).type ≠ .ack := by
  unfold Node.taken
  rw [Node.replicated_not_takesOver h]
  show (parseRequest (Frame.delivered (serializeResponse _))).type ≠ .ack
  rw [Frame.delivered_eq (by decide)]
  exact type_parseRequest_serializeResponse _

variable {topic : Bytes} {partition : Int} {offset now : Nat} {p : Int} {m : ReplicationManager}

/-- An acknowledgement of broker `p`. -/
def ackOf (topic : Bytes) (partition : Int) (offset : Nat) (p : Int) : Request :=
  { type := .ack, topic, partition, fetchOffset := offset, brokerId := p }

variable {payload : Bytes}

theorem ne_nil_of_ack {payload : Bytes} (h : (parseRequest payload).type = .ack) :
    payload ≠ [] := by
  rintro rfl
  exact absurd h (by decide)

/-- An acknowledgement is counted, and the peer has been heard of. -/
theorem noteReplication_ack (h : parseRequest payload = ackOf topic partition offset p)
    (hfailed : m.failedPeers p = false) :
    ∃ heard, noteReplication now topic partition offset p (some payload) m
      = { m.handleAck p topic partition offset with lastHeartbeat := heard } := by
  have htype : (parseRequest payload).type = .ack := by rw [h]; rfl
  have hsome := ne_nil_of_ack htype
  have hacks : acknowledges offset (some payload) = true := by
    refine decide_eq_true ⟨hsome, htype, ?_⟩
    rw [h]
    exact Nat.le_refl _
  have hnote : noteAck topic partition (some payload) m = m.handleAck p topic partition offset := by
    rw [noteAck, if_neg (not_or.mpr ⟨hsome, not_not.mpr htype⟩), h]
    show m.handleAck p (if topic = [] then topic else topic)
      (if topic = [] then partition else partition) offset = _
    rw [ite_self, ite_self]
  -- a peer that is not marked as failed stays so
  have hmarks : Function.update (m.handleAck p topic partition offset).failedPeers p false
      = (m.handleAck p topic partition offset).failedPeers := by
    rw [ReplicationManager.failedPeers_handleAck]
    exact hfailed ▸ Function.update_eq_self p m.failedPeers
  refine ⟨Function.update (m.handleAck p topic partition offset).lastHeartbeat p (some now), ?_⟩
  rw [noteReplication, hacks, hnote, noteExchange, if_pos rfl, ReplicationManager.handleHeartbeat,
    hmarks]

/-- Any other answer marks the peer as failed. -/
theorem noteReplication_refused {answer : Option Bytes}
    (h : ∀ payload, answer = some payload → (parseRequest payload).type ≠ .ack) :
    noteReplication now topic partition offset p answer m = m.markFollowerFailed p := by
  unfold noteReplication noteExchange
  cases answer with
  | none => rfl
  | some payload =>
    have htype := h payload rfl
    have hno : acknowledges offset (some payload) = false :=
      decide_eq_false (fun hack => htype hack.2.1)
    have hnote : noteAck topic partition (some payload) m = m := if_pos (.inr htype)
    rw [hno, hnote]
    rfl

/-- The same for the answer to a batch. -/
theorem noteBatch_ack (h : parseRequest payload = ackOf topic partition offset p) :
    noteBatch topic partition offset p (some payload) m
      = m.handleAck p topic partition offset := by
  rw [noteBatch, h]
  exact if_pos ⟨rfl, Nat.le_refl _⟩

/-- Any other answer to a batch marks the peer as failed. -/
theorem noteBatch_refused {answer : Option Bytes}
    (h : ∀ payload, answer = some payload → (parseRequest payload).type ≠ .ack) :
    noteBatch topic partition offset p answer m = m.markFollowerFailed p := by
  cases answer with
  | none => rfl
  | some payload => exact if_neg (fun hack => h payload rfl hack.1)

theorem local_noteExchange {q : Int} (hq : q ≠ p) (ok : Bool) :
    (noteExchange now p ok m).failedPeers q = m.failedPeers q := by
  cases ok <;> exact Function.update_of_ne hq ..

/-- An answer is about the peer that gave it. -/
theorem local_noteReplication :
    Brokers.Local (noteReplication now topic partition offset) := by
  intro p answer m q hq
  rw [noteReplication, local_noteExchange hq]
  cases answer with
  | none => rfl
  | some payload =>
    rw [noteAck]
    split
    · rfl
    · rw [ReplicationManager.failedPeers_handleAck]

theorem local_noteBatch : Brokers.Local (noteBatch topic partition offset) := by
  intro p answer m q hq
  cases answer with
  | none => exact Function.update_of_ne hq ..
  | some payload =>
    rw [noteBatch]
    split
    · rw [ReplicationManager.failedPeers_handleAck]
    · exact Function.update_of_ne hq ..

end Answers

/-! ### Two ways to replicate -/

/-- A request that carries `messages` from offset `first` on, whose acknowledgements are for
    `last`, and what the leader notes of an answer. -/
structure Replicates (request : Request)
    (note : Int → Option Bytes → ReplicationManager → ReplicationManager) (topic : Bytes)
    (partition : Int) (first last : Nat) (messages : List Bytes) : Prop where
  type : request.type = .replicate ∨ request.type = .batchReplicate
  topic_eq : request.topic = topic
  partition_eq : request.partition = partition
  fetchOffset : request.fetchOffset = first
  records : request.records = messages
  replicable : request.Replicable
  fits : request.Fits
  travels : request.Travels
  acknowledgement : ∀ config, request.acknowledgement config
    = ackOf topic partition last config.brokerId
  noted : ∀ {p m payload}, parseRequest payload = ackOf topic partition last p →
    m.failedPeers p = false → ∃ heard, note p (some payload) m
      = { m.handleAck p topic partition last with lastHeartbeat := heard }
  refused : ∀ {p m answer}, (∀ payload, answer = some payload →
    (parseRequest payload).type ≠ .ack) → note p answer m = m.markFollowerFailed p
  others : Brokers.Local note

section Ways

variable {request : Request} {offset now : Nat}

/-- `replicate_message`. -/
theorem replicates_message (hfits : request.Fits) (hoffset : offset < 2 ^ 64)
    (htopic : request.topic ≠ []) (hpartition : 0 ≤ request.partition)
    (hmessage : request.message ≠ []) :
    Replicates (replicationRequest request.topic request.partition offset request.message)
      (noteReplication now request.topic request.partition offset) request.topic
      request.partition offset offset [request.message] where
  type := .inl rfl
  topic_eq := rfl
  partition_eq := rfl
  fetchOffset := rfl
  records := rfl
  replicable := ⟨htopic, hpartition, fun _ => hmessage,
    fun h => absurd h (by simp [replicationRequest])⟩
  fits := (derived_fits hfits hoffset).1
  travels := (travels_derived hfits hoffset).1
  acknowledgement := fun _ => rfl
  noted := noteReplication_ack
  refused := noteReplication_refused
  others := local_noteReplication

/-- `replicate_batch`. -/
theorem replicates_batch (hfits : request.Fits)
    (hroom : offset + request.messages.length < 2 ^ 64)
    (htopic : request.topic ≠ []) (hpartition : 0 ≤ request.partition)
    (hmessages : request.messages ≠ [])
    (hlength : (encodeRequest (batchRequest request.topic request.partition offset
      request.messages)).length < 2 ^ 32) :
    Replicates (batchRequest request.topic request.partition offset request.messages)
      (noteBatch request.topic request.partition (offset + (request.messages.length - 1)))
      request.topic request.partition offset (offset + (request.messages.length - 1))
      request.messages where
  type := .inr rfl
  topic_eq := rfl
  partition_eq := rfl
  fetchOffset := rfl
  records := rfl
  replicable := ⟨htopic, hpartition, fun h => absurd h (by simp [batchRequest]),
    fun _ => hmessages⟩
  fits := (derived_fits hfits (by omega)).2.2
  travels := (travels_derived hfits (by omega)).2.2 hlength
  acknowledgement := fun config => by
    have hmod : (offset + (request.messages.length - 1)) % 2 ^ 64
        = offset + (request.messages.length - 1) := Nat.mod_eq_of_lt (by omega)
    show ackOf request.topic request.partition
      ((offset + (request.messages.length - 1)) % 2 ^ 64) config.brokerId = _
    rw [hmod]
  noted := fun h _ => ⟨_, noteBatch_ack h⟩
  refused := noteBatch_refused
  others := local_noteBatch

end Ways

/-! ### The peers that follow -/

namespace Brokers

/-- No broker is busy, and broker `b` is a leader with different peers. -/
structure Idle (w : Brokers) (b : Int) : Prop where
  ids : ∀ n, (w.nodes n).config.brokerId = n
  free : ∀ n, (w.nodes n).mutex = none
  leader : (w.nodes b).isLeader = true
  distinct : ((w.nodes b).config.peers.map ClusterPeer.brokerId).Nodup
  isInt32 : ∀ p ∈ (w.nodes b).config.peers.map ClusterPeer.brokerId, IsInt32 p

/-- Being idle depends on the configuration, the mutex and the role. -/
theorem Idle.of_same {w w' : Brokers} {b : Int} (hidle : w.Idle b)
    (h : ∀ n, (w'.nodes n).config = (w.nodes n).config ∧ (w'.nodes n).mutex = (w.nodes n).mutex ∧
      (w'.nodes n).type = (w.nodes n).type) : w'.Idle b where
  ids := fun n => (h n).1 ▸ hidle.ids n
  free := fun n => (h n).2.1 ▸ hidle.free n
  leader := by
    unfold Node.isLeader
    rw [(h b).2.2]
    exact hidle.leader
  distinct := (h b).1 ▸ hidle.distinct
  isInt32 := (h b).1 ▸ hidle.isInt32

/-- The broker itself, and the others. -/
theorem Idle.of_same_at {w w' : Brokers} {b : Int} (hidle : w.Idle b)
    (hb : (w'.nodes b).config = (w.nodes b).config ∧ (w'.nodes b).mutex = (w.nodes b).mutex ∧
      (w'.nodes b).type = (w.nodes b).type)
    (hother : ∀ n, n ≠ b → (w'.nodes n).config = (w.nodes n).config ∧
      (w'.nodes n).mutex = (w.nodes n).mutex ∧ (w'.nodes n).type = (w.nodes n).type) :
    w'.Idle b := by
  refine hidle.of_same (fun n => ?_)
  by_cases hn : n = b
  · rw [hn]
    exact hb
  · exact hother n hn

variable (w : Brokers) (b : Int) (reachable : Int → Bool) (key : Bytes) (n : Int)

/-- Broker `b` gets through to its peer `n`. -/
def Reaches : Prop :=
  n ∈ (w.nodes b).config.peers.map ClusterPeer.brokerId ∧ n ≠ b ∧
    (w.nodes b).replication.failedPeers n = false ∧ reachable n = true

instance : Decidable (w.Reaches b reachable n) := inferInstanceAs (Decidable (_ ∧ _))

/-- The peer is a follower whose log is as long as that of broker `b`. -/
def InSync : Prop :=
  w.Reaches b reachable n ∧ (w.nodes n).isLeader = false ∧
    ((w.nodes n).contents key).length = ((w.nodes b).contents key).length

instance : Decidable (w.InSync b reachable key n) := inferInstanceAs (Decidable (_ ∧ _))

/-- Broker `b` and the peers in sync are a majority. -/
def Quorate : Prop :=
  ReplicationManager.quorum (w.nodes b).config ≤
    1 + ((w.nodes b).config.peers.map ClusterPeer.brokerId).countP (w.InSync b reachable key)

instance : Decidable (w.Quorate b reachable key) := inferInstanceAs (Decidable (_ ≤ _))

/-- What of new records ends up at broker `n`: everything, only the first record, or
    nothing. -/
def share (messages : List Bytes) : List Bytes :=
  if w.InSync b reachable key n then messages
  else if w.Reaches b reachable n ∧ (w.nodes n).isLeader = false then messages.take 1
  else []

/-- Broker `b` has appended records and refreshed its groups. -/
def appended (topic : Bytes) (partition : Int) (messages : List Bytes) : Brokers :=
  w.set b ((w.nodes b).afterProduce topic partition messages)

/-- Broker `b` has appended `messages` and sent them to its peers; acknowledgements are for
    `last`. -/
structure Replicated (topic : Bytes) (partition : Int) (messages : List Bytes) (last : Nat)
    (w' : Brokers) : Prop where
  leader : w'.nodes b = { (w.nodes b).afterProduce topic partition messages with
    replication := (w'.nodes b).replication }
  peers : ∀ n, n ≠ b → w'.nodes n = (w.nodes n).appendRecords topic partition
    (w.share b reachable (makeKey topic partition) n messages)
  failed : ∀ p ∈ (w.nodes b).config.peers.map ClusterPeer.brokerId, p ≠ b →
    ((w'.nodes b).replication.failedPeers p = true
      ↔ ¬ w.InSync b reachable (makeKey topic partition) p)
  commits : (w'.nodes b).replication.commitIndexByLog = (w.nodes b).replication.commitIndexByLog
  acks : ∀ o, o ≠ last → (w'.nodes b).replication.ackFollowers (makeAckKey topic partition o)
    = (w.nodes b).replication.ackFollowers (makeAckKey topic partition o)
  quorum : (w'.nodes b).replication.quorumReached (w.nodes b).config topic partition last
    = decide (w.Quorate b reachable (makeKey topic partition))

end Brokers

/-- The offsets of one log have different keys. -/
theorem makeAckKey_injective (topic : Bytes) (partition : Int) :
    Function.Injective (makeAckKey topic partition) :=
  fun _ _ h => decimal_injective (List.append_cancel_left h)

section Replicated

variable {w : Brokers} {b : Int} {reachable : Int → Bool} {request : Request}
  {note : Int → Option Bytes → ReplicationManager → ReplicationManager} {topic : Bytes}
  {partition : Int} {last : Nat} {messages : List Bytes} {τ τ' : Nat} {first : Nat}

/-- The peers' part. -/
theorem Replicates.taken_fst (h : Replicates request note topic partition first last messages)
    (s : Node) :
    (s.taken request).1 = s.appendRecords topic partition
      (if s.isLeader = true then []
        else if (s.contents (makeKey topic partition)).length = first then messages
        else messages.take 1) := by
  have hkey : request.logKey = makeKey topic partition := by
    rw [Request.logKey, h.topic_eq, h.partition_eq]
  unfold Node.taken Node.replicated
  rw [hkey, h.topic_eq, h.partition_eq, h.fetchOffset, h.records]
  by_cases hrole : s.isLeader = true
  · rw [if_pos (.inl hrole), if_pos hrole]
    rfl
  · rw [if_neg (not_or.mpr ⟨hrole, not_not.mpr h.replicable⟩), if_neg hrole]
    split <;> rfl

/-- Which peers acknowledge. -/
theorem Replicates.inSync_iff {p : Int}
    (hfirst : ((w.nodes b).contents (makeKey topic partition)).length = first)
    (h : Replicates request note topic partition first last messages) :
    w.InSync b reachable (makeKey topic partition) p ↔
      w.Reaches b reachable p ∧ (w.nodes p).TakesOver request := by
  unfold Brokers.InSync Node.TakesOver
  rw [Request.logKey, h.topic_eq, h.partition_eq, h.fetchOffset, hfirst]
  exact ⟨fun hsync => ⟨hsync.1, hsync.2.1, h.replicable, hsync.2.2⟩,
    fun hsync => ⟨hsync.1, hsync.2.1, hsync.2.2.2⟩⟩

/-- A peer that is reached ends up with its share of the records. -/
theorem Replicates.taken_eq_share {n : Int}
    (hfirst : ((w.nodes b).contents (makeKey topic partition)).length = first)
    (h : Replicates request note topic partition first last messages) (hn : n ≠ b) :
    (if n ∈ (w.nodes b).config.peers.map ClusterPeer.brokerId ∧
        (w.nodes b).replication.failedPeers n = false ∧ reachable n = true
      then ((w.nodes n).taken request).1 else w.nodes n)
      = (w.nodes n).appendRecords topic partition
          (w.share b reachable (makeKey topic partition) n messages) := by
  rw [h.taken_fst, ← hfirst]
  unfold Brokers.share
  by_cases hreach : w.Reaches b reachable n
  · rw [if_pos ⟨hreach.1, hreach.2.2⟩]
    congr 1
    by_cases hrole : (w.nodes n).isLeader = true
    · rw [if_pos hrole, if_neg (fun hsync => by simp [hsync.2.1] at hrole),
        if_neg (fun hsync => by simp [hsync.2] at hrole)]
    · rw [if_neg hrole]
      rw [Bool.not_eq_true] at hrole
      by_cases hlength : ((w.nodes n).contents (makeKey topic partition)).length
          = ((w.nodes b).contents (makeKey topic partition)).length
      · rw [if_pos hlength, if_pos ⟨hreach, hrole, hlength⟩]
      · rw [if_neg hlength, if_neg (fun hsync => hlength hsync.2.2), if_pos ⟨hreach, hrole⟩]
  · rw [if_neg (fun hall => hreach ⟨hall.1, hn, hall.2⟩), if_neg (fun hsync => hreach hsync.1),
      if_neg (fun hsync => hreach hsync.1)]
    rfl

/-- The manager's part. -/
theorem Replicates.tallied (reachable : Int → Bool) (hidle : w.Idle b)
    (hnone : (w.nodes b).replication.ackFollowers (makeAckKey topic partition last) = [])
    (h : Replicates request note topic partition first last messages) :
    Tallied b (makeAckKey topic partition last)
      (fun p => decide (reachable p = true ∧ (w.nodes p).TakesOver request))
      ((w.nodes b).config.peers.map ClusterPeer.brokerId)
      ((w.nodes b).replication.openAcks (w.nodes b).config topic partition last)
      (((w.nodes b).config.peers.map ClusterPeer.brokerId).foldl
        (ReplicationManager.visited b
          (fun p => note p (w.answered reachable p ((w.nodes p).taken request)).1))
        ((w.nodes b).replication.openAcks (w.nodes b).config topic partition last)) := by
  refine tallied_foldl rfl hidle.distinct (Function.update_self ..) (fun p hp hne hmem => ?_)
    (fun p hp hne hack m hfailed => ?_) (fun p hp hne hack m => ?_)
  · -- only the broker itself has joined so far
    unfold ReplicationManager.openAcks at hmem
    dsimp only at hmem
    rw [Function.update_self, hnone, hidle.ids] at hmem
    exact hne (List.mem_singleton.mp hmem)
  · obtain ⟨hreach, htakes⟩ := of_decide_eq_true hack
    rw [Brokers.answered, if_pos hreach]
    refine h.noted ?_ hfailed
    have hid := hidle.ids p
    rw [parseRequest_taken htakes h.fits (hid.symm ▸ hidle.isInt32 p hp), h.acknowledgement, hid]
  · refine h.refused (fun payload hpayload => ?_)
    unfold Brokers.answered at hpayload
    split at hpayload
    · next hreach =>
      obtain rfl := Option.some.inj hpayload
      exact parseRequest_not_taken (fun htakes => of_decide_eq_false hack ⟨hreach, htakes⟩)
    · exact absurd hpayload (by simp)

/-- An append leaves the cluster idle. -/
theorem Brokers.Idle.appended (hidle : w.Idle b) (topic : Bytes) (partition : Int)
    (messages : List Bytes) : (w.appended b topic partition messages).Idle b := by
  unfold Brokers.appended
  refine hidle.of_same_at ?_ (fun n hn => ?_)
  · rw [Brokers.set_nodes_self]
    exact ⟨rfl, rfl, rfl⟩
  · rw [Brokers.set_nodes_of_ne _ hn]
    exact ⟨rfl, rfl, rfl⟩

/-- **The records at the leader and its peers.** -/
theorem Replicates.replicated (τ : Nat) (reachable : Int → Bool) (hidle : w.Idle b)
    (hfirst : ((w.nodes b).contents (makeKey topic partition)).length = first)
    (hnone : (w.nodes b).replication.ackFollowers (makeAckKey topic partition last) = [])
    (h : Replicates request note topic partition first last messages) :
    w.Replicated b reachable topic partition messages last
      ((w.appended b topic partition messages).visitAll τ b reachable (Node.taken request) note
        (fun m => m.openAcks (w.nodes b).config topic partition last)) := by
  have hidle₁ := hidle.appended topic partition messages
  generalize hw₁ : w.appended b topic partition messages = w₁ at hidle₁
  have hb : w₁.nodes b = (w.nodes b).afterProduce topic partition messages := by
    rw [← hw₁]
    exact w.set_nodes_self _
  have hother : ∀ n, n ≠ b → w₁.nodes n = w.nodes n := fun n hn => by
    rw [← hw₁]
    exact w.set_nodes_of_ne hn _
  have hconfig : (w₁.nodes b).config = (w.nodes b).config := by rw [hb]; rfl
  have hmanager : (w₁.nodes b).replication = (w.nodes b).replication := by rw [hb]; rfl
  have htally := h.tallied reachable hidle₁ (hmanager ▸ hnone)
  have hleader : (w₁.visitAll τ b reachable (Node.taken request) note
      (fun m => m.openAcks (w.nodes b).config topic partition last)).nodes b = _ :=
    Brokers.visitAll_leader (hidle₁.free b) hidle₁.distinct
  have hpeers : ∀ n, n ≠ b → (w₁.visitAll τ b reachable (Node.taken request) note
      (fun m => m.openAcks (w.nodes b).config topic partition last)).nodes n = _ :=
    fun n hn => Brokers.visitAll_nodes h.others hidle₁.distinct hn
  rw [hconfig, hmanager] at htally hleader
  simp only [hconfig, hmanager] at hpeers
  generalize w₁.visitAll τ b reachable (Node.taken request) note
    (fun m => m.openAcks (w.nodes b).config topic partition last) = w₂ at hleader hpeers ⊢
  have hreplication : (w₂.nodes b).replication = _ := congrArg Node.replication hleader
  dsimp only at hreplication
  rw [← hreplication] at htally
  -- the peers that are counted are those in sync
  have hacking : ∀ p ∈ (w.nodes b).config.peers.map ClusterPeer.brokerId, p ≠ b →
      (w.InSync b reachable (makeKey topic partition) p ↔
        (w.nodes b).replication.failedPeers p = false ∧
          reachable p = true ∧ (w₁.nodes p).TakesOver request) := by
    intro p hp hne
    rw [h.inSync_iff hfirst, hother p hne]
    exact ⟨fun hsync => ⟨hsync.1.2.2.1, hsync.1.2.2.2, hsync.2⟩,
      fun hsync => ⟨⟨hp, hne, hsync.1, hsync.2.1⟩, hsync.2.2⟩⟩
  refine ⟨?_, ?_, ?_, ?_, ?_, ?_⟩
  · rw [hreplication, hleader, hb]
  · intro n hn
    rw [hpeers n hn, hother n hn]
    exact h.taken_eq_share hfirst hn
  · intro p hp hne
    rw [htally.failed, hacking p hp hne]
    show (w.nodes b).replication.failedPeers p = true ∨ _ ↔ _
    rw [decide_eq_false_iff_not, ← Bool.not_eq_false]
    tauto
  · rw [htally.commits]
    rfl
  · intro o ho
    have hkey : makeAckKey topic partition o ≠ makeAckKey topic partition last :=
      fun heq => ho (makeAckKey_injective topic partition heq)
    rw [htally.others _ hkey]
    exact Function.update_of_ne hkey ..
  · have hopen : ((w.nodes b).replication.openAcks (w.nodes b).config topic partition
        last).ackCounts (makeAckKey topic partition last) = some 1 := Function.update_self ..
    unfold ReplicationManager.quorumReached
    rw [htally.count, hopen]
    refine decide_eq_decide.mpr ?_
    unfold Brokers.Quorate
    rw [List.countP_congr (fun p hp => ?_)]
    rw [decide_eq_true_eq, decide_eq_true_eq]
    by_cases hne : p = b
    · exact iff_of_false (fun hack => hack.1 hne) (fun hsync => hsync.1.2.1 hne)
    · rw [hacking p hp hne]
      unfold Acking
      rw [decide_eq_true_eq]
      exact and_iff_right hne

end Replicated

/-! ### Commits -/

/-- The commit index after offsets have been marked as committed one after the other. -/
def raise (offsets : List Nat) (index : Option Nat) : Option Nat :=
  offsets.foldl (fun index offset => some (max (index.getD 0) offset)) index

variable {offsets : List Nat}

namespace Brokers

variable (w : Brokers) (b : Int) (reachable : Int → Bool) (topic : Bytes) (partition : Int)

/-- The peers that are not marked as failed can be reached. -/
def Settled : Prop :=
  ∀ p ∈ (w.nodes b).config.peers.map ClusterPeer.brokerId, p ≠ b →
    (w.nodes b).replication.failedPeers p = false → reachable p = true

/-- Broker `b` marks an offset as committed and tells its peers. -/
def committed (τ : Nat) (b : Int) (reachable : Int → Bool) (topic : Bytes) (partition : Int)
    (w : Brokers) (offset : Nat) : Brokers :=
  (w.manage b (fun m => m.markCommitted topic partition offset)).visitAll τ b reachable
    (Node.informed topic partition offset) (noteCommit (w.nodes b).now) (fun m => m)

/-- Broker `b` has committed `offsets`. -/
structure Committed (offsets : List Nat) (w' : Brokers) : Prop where
  nodes : ∀ n, w'.nodes n = { w.nodes n with replication := (w'.nodes n).replication }
  failed : (w'.nodes b).replication.failedPeers = (w.nodes b).replication.failedPeers
  acks : (w'.nodes b).replication.ackFollowers = (w.nodes b).replication.ackFollowers
  commits : ∀ n, (w'.nodes n).replication.commitIndexByLog (makeKey topic partition)
    = if n = b ∨ (n ∈ (w.nodes b).config.peers.map ClusterPeer.brokerId ∧
        (w.nodes b).replication.failedPeers n = false)
      then raise offsets ((w.nodes n).replication.commitIndexByLog (makeKey topic partition))
      else (w.nodes n).replication.commitIndexByLog (makeKey topic partition)

variable {w b reachable topic partition}

theorem Committed.nil : w.Committed b topic partition [] w where
  nodes := fun _ => rfl
  failed := rfl
  acks := rfl
  commits := fun _ => (ite_self _).symm

/-- Commits compose. -/
theorem Committed.cons {w₁ w' : Brokers} {offset : Nat}
    (hfirst : w.Committed b topic partition [offset] w₁)
    (hrest : w₁.Committed b topic partition offsets w') :
    w.Committed b topic partition (offset :: offsets) w' where
  nodes := fun n => by
    have hn := hrest.nodes n
    rw [hfirst.nodes n] at hn
    exact hn
  failed := hrest.failed.trans hfirst.failed
  acks := hrest.acks.trans hfirst.acks
  commits := fun n => by
    have hconfig : (w₁.nodes b).config = (w.nodes b).config := by rw [hfirst.nodes b]
    rw [hrest.commits, hfirst.commits, hconfig, hfirst.failed]
    split
    · rfl
    · rfl

theorem Committed.config {w' : Brokers} (h : w.Committed b topic partition offsets w') :
    (w'.nodes b).config = (w.nodes b).config := by rw [h.nodes b]

/-- A commit fails nobody. -/
theorem Committed.settled {w' : Brokers} (h : w.Committed b topic partition offsets w')
    (hsettled : w.Settled b reachable) : w'.Settled b reachable := by
  unfold Settled
  rw [h.config, h.failed]
  exact hsettled

/-- What only the replication manager notes leaves the cluster idle. -/
theorem Idle.of_nodes {w' : Brokers} (hidle : w.Idle b)
    (h : ∀ n, w'.nodes n = { w.nodes n with replication := (w'.nodes n).replication }) :
    w'.Idle b :=
  hidle.of_same (fun n => by rw [h n]; exact ⟨rfl, rfl, rfl⟩)

theorem nodes_manage (f : ReplicationManager → ReplicationManager) (n : Int) :
    (w.manage b f).nodes n
      = { w.nodes n with replication := ((w.manage b f).nodes n).replication } := by
  by_cases hn : n = b
  · rw [hn, manage_nodes_self]
  · rw [manage_nodes_of_ne _ hn]

end Brokers

/-- A loop that gets through to all peers changes no mark and no commit index. -/
theorem foldl_noteExchange (now : Nat) {b : Int} {ok : Int → Bool} {ids : List Int}
    {m : ReplicationManager}
    (hok : ∀ p ∈ ids, p ≠ b → m.failedPeers p = false → ok p = true) :
    ∃ heard, ids.foldl (ReplicationManager.visited b (fun p => noteExchange now p (ok p))) m
      = { m with lastHeartbeat := heard } := by
  induction ids generalizing m with
  | nil => exact ⟨m.lastHeartbeat, rfl⟩
  | cons p ids ih =>
    have hfirst : ∃ heard, m.visited b (fun p => noteExchange now p (ok p)) p
        = { m with lastHeartbeat := heard } := by
      unfold ReplicationManager.visited
      split
      · exact ⟨m.lastHeartbeat, rfl⟩
      · next hvisit =>
        obtain ⟨hne, hfailed⟩ := not_or.mp hvisit
        rw [Bool.not_eq_true] at hfailed
        have hmarks : Function.update m.failedPeers p false = m.failedPeers :=
          hfailed ▸ Function.update_eq_self p m.failedPeers
        refine ⟨Function.update m.lastHeartbeat p (some now), ?_⟩
        dsimp only
        rw [hok p List.mem_cons_self hne hfailed, noteExchange, if_pos rfl,
          ReplicationManager.handleHeartbeat, hmarks]
    obtain ⟨heard, hfirst⟩ := hfirst
    rw [List.foldl_cons, hfirst]
    obtain ⟨heard', hrest⟩ := @ih { m with lastHeartbeat := heard }
      (fun q hq => hok q (List.mem_cons_of_mem _ hq))
    exact ⟨heard', hrest⟩

section Commits

variable {w w' : Brokers} {b : Int} {reachable : Int → Bool} {topic : Bytes} {partition : Int}
  {τ τ' offset : Nat}

/-- **One commit.** -/
theorem Brokers.Idle.committed (hidle : w.Idle b) (hsettled : w.Settled b reachable) :
    w.Committed b topic partition [offset]
      (w.committed τ b reachable topic partition offset) := by
  have hidle₁ : (w.manage b (fun m => m.markCommitted topic partition offset)).Idle b :=
    hidle.of_nodes (Brokers.nodes_manage _)
  have hb := w.manage_nodes_self (n := b) (fun m => m.markCommitted topic partition offset)
  have hother : ∀ n, n ≠ b →
      (w.manage b (fun m => m.markCommitted topic partition offset)).nodes n = w.nodes n :=
    fun n hn => w.manage_nodes_of_ne hn _
  unfold Brokers.committed
  generalize w.manage b (fun m => m.markCommitted topic partition offset) = w₁ at hidle₁ hb hother ⊢
  have hleader : (w₁.visitAll τ b reachable (Node.informed topic partition offset)
      (noteCommit (w.nodes b).now) (fun m => m)).nodes b = _ :=
    Brokers.visitAll_leader (hidle₁.free b) hidle₁.distinct
  have hpeers : ∀ n, n ≠ b → (w₁.visitAll τ b reachable (Node.informed topic partition offset)
      (noteCommit (w.nodes b).now) (fun m => m)).nodes n = _ :=
    fun n hn => Brokers.visitAll_nodes (fun _ _ _ _ hq => local_noteExchange hq _)
      hidle₁.distinct hn
  have hconfig : (w₁.nodes b).config = (w.nodes b).config := by rw [hb]
  have hmarks : (w₁.nodes b).replication.failedPeers = (w.nodes b).replication.failedPeers := by
    rw [hb]
    rfl
  -- every peer that is not marked as failed learns of the commit
  have hall : ∀ p ∈ (w₁.nodes b).config.peers.map ClusterPeer.brokerId, p ≠ b →
      (w₁.nodes b).replication.failedPeers p = false →
        (w₁.answered reachable p ((w₁.nodes p).informed topic partition offset)).1.isSome
          = true := by
    intro p hp hne hfailed
    rw [hconfig] at hp
    rw [hmarks] at hfailed
    rw [Brokers.answered, if_pos (hsettled p hp hne hfailed)]
    rfl
  obtain ⟨heard, hfold⟩ := foldl_noteExchange (w.nodes b).now hall
  have hleader' := hleader.trans (congrArg
    (fun m => ({ w₁.nodes b with replication := m } : Node)) hfold)
  clear hleader
  simp only [hconfig, hmarks] at hpeers
  generalize w₁.visitAll τ b reachable (Node.informed topic partition offset)
    (noteCommit (w.nodes b).now) (fun m => m) = w₂ at hleader' hpeers ⊢
  rw [hb] at hleader'
  refine ⟨fun n => ?_, ?_, ?_, fun n => ?_⟩
  · by_cases hn : n = b
    · rw [hn, hleader']
    · rw [hpeers n hn, hother n hn]
      split <;> rfl
  · rw [hleader']
    rfl
  · rw [hleader']
    rfl
  · by_cases hn : n = b
    · rw [if_pos (.inl hn), hn, hleader']
      exact (ReplicationManager.commitIndexByLog_markCommitted ..).trans (if_pos rfl)
    · rw [hpeers n hn, hother n hn]
      by_cases hreach : n ∈ (w.nodes b).config.peers.map ClusterPeer.brokerId ∧
          (w.nodes b).replication.failedPeers n = false
      · rw [if_pos ⟨hreach.1, hreach.2, hsettled n hreach.1 hn hreach.2⟩, if_pos (.inr hreach)]
        exact (ReplicationManager.commitIndexByLog_markCommitted ..).trans (if_pos rfl)
      · rw [if_neg (fun h => hreach ⟨h.1, h.2.1⟩), if_neg (not_or.mpr ⟨hn, hreach⟩)]

/-- The peers take a commit. -/
theorem Brokers.Idle.answer_commit (hidle : w.Idle b) (htopic : topic ≠ [])
    (hpartition : 0 ≤ partition) (htravels : (commitRequest topic partition offset).Travels) :
    w.Answer τ' b reachable (encodeRequest (commitRequest topic partition offset))
      (Node.informed topic partition offset) :=
  fun p _ _ _ => serves_commit htopic hpartition htravels (hidle.free p)

/-- One commit, marked and announced. -/
theorem runs_commitOffset (hidle : w.Idle b) (htopic : topic ≠ []) (hpartition : 0 ≤ partition)
    (htravels : (commitRequest topic partition offset).Travels) {u : Unit} :
    (node (.markCommitted topic partition offset) >>= fun _ =>
        broadcastCommit (w.nodes b).config topic partition offset).Runs
        (Brokers.step τ τ' b reachable) w u w' ↔
      w' = w.committed τ b reachable topic partition offset := by
  have hmark : ∀ c, NodeAct.step τ (w.nodes b) (.markCommitted topic partition offset) c
      = some ((), { w.nodes b with
          replication := (w.nodes b).replication.markCommitted topic partition offset }) :=
    fun c => Node.locked_eq (.inl (hidle.free b)) _
  have hidle₁ : (w.manage b (fun m => m.markCommitted topic partition offset)).Idle b :=
    hidle.of_nodes (Brokers.nodes_manage _)
  have hb := w.manage_nodes_self (n := b) (fun m => m.markCommitted topic partition offset)
  have hcast : (broadcastCommit
      ((w.manage b (fun m => m.markCommitted topic partition offset)).nodes b).config topic
        partition offset).Runs (Brokers.step τ τ' b reachable)
        (w.manage b (fun m => m.markCommitted topic partition offset)) u w' ↔ _ :=
    runs_broadcastCommit (hidle₁.ids b) (hidle₁.free b) hidle₁.leader hidle₁.distinct
      (hidle₁.answer_commit htopic hpartition htravels)
  rw [hb] at hcast
  rw [runs_act hmark]
  exact hcast

/-- All commits of a batch, by induction on the offsets. -/
theorem runs_commitBatch (hidle : w.Idle b) (hsettled : w.Settled b reachable) (htopic : topic ≠ [])
    (hpartition : 0 ≤ partition)
    (htravels : ∀ o ∈ offsets, (commitRequest topic partition o).Travels) {u : Unit} :
    (commitBatch (w.nodes b).config topic partition offsets).Runs
        (Brokers.step τ τ' b reachable) w u w' ↔
      w' = offsets.foldl (Brokers.committed τ b reachable topic partition) w := by
  refine Prog.runs_forM (I := fun rest v => v.Idle b ∧ v.Settled b reachable ∧
    (v.nodes b).config = (w.nodes b).config ∧
    ∀ o ∈ rest, (commitRequest topic partition o).Travels) ?_ ?_
    ⟨hidle, hsettled, rfl, htravels⟩
  · intro o rest v hI u v'
    obtain ⟨hidle, -, hconfig, htravels⟩ := hI
    rw [← hconfig]
    exact runs_commitOffset hidle htopic hpartition (htravels o List.mem_cons_self)
  · intro o rest v hI
    obtain ⟨hidle, hsettled, hconfig, htravels⟩ := hI
    have hone : v.Committed b topic partition [o]
      (v.committed τ b reachable topic partition o) := hidle.committed hsettled
    exact ⟨hidle.of_nodes hone.nodes, hone.settled hsettled, hone.config.trans hconfig,
      fun o' ho' => htravels o' (List.mem_cons_of_mem _ ho')⟩

/-- **All commits of a batch.** -/
theorem Brokers.Idle.committed_foldl (hidle : w.Idle b) (hsettled : w.Settled b reachable)
    (offsets : List Nat) :
    w.Committed b topic partition offsets
      (offsets.foldl (Brokers.committed τ b reachable topic partition) w) := by
  induction offsets generalizing w with
  | nil => exact .nil
  | cons o offsets ih =>
    have hone : w.Committed b topic partition [o]
      (w.committed τ b reachable topic partition o) := hidle.committed hsettled
    exact hone.cons (ih (hidle.of_nodes hone.nodes) (hone.settled hsettled))

end Commits

/-! ### What a produce does -/

/-- Broker `b` has handled a produce of `messages`, in one request or in several. -/
structure Brokers.Produced (w : Brokers) (b : Int) (reachable : Int → Bool) (topic : Bytes)
    (partition : Int) (messages : List Bytes) (w' : Brokers) : Prop where
  leader : w'.nodes b = { (w.nodes b).afterProduce topic partition messages with
    replication := (w'.nodes b).replication }
  peers : ∀ n, n ≠ b → w'.nodes n = { (w.nodes n).appendRecords topic partition
      (w.share b reachable (makeKey topic partition) n messages) with
    replication := (w'.nodes n).replication }
  failed : ∀ p ∈ (w.nodes b).config.peers.map ClusterPeer.brokerId, p ≠ b →
    ((w'.nodes b).replication.failedPeers p = true
      ↔ ¬ w.InSync b reachable (makeKey topic partition) p)
  acks : ∀ o, ((w.nodes b).contents (makeKey topic partition)).length + messages.length ≤ o →
    (w'.nodes b).replication.ackFollowers (makeAckKey topic partition o)
      = (w.nodes b).replication.ackFollowers (makeAckKey topic partition o)
  commits : ∀ n, (w'.nodes n).replication.commitIndexByLog (makeKey topic partition)
    = if w.Quorate b reachable (makeKey topic partition) ∧
        (n = b ∨ w.InSync b reachable (makeKey topic partition) n)
      then raise (List.range' ((w.nodes b).contents (makeKey topic partition)).length
          messages.length)
        ((w.nodes n).replication.commitIndexByLog (makeKey topic partition))
      else (w.nodes n).replication.commitIndexByLog (makeKey topic partition)

/-- The groups of the topic are as the last refresh leaves them. -/
theorem Node.afterProduce_afterProduce (s : Node) (topic : Bytes) (partition : Int)
    (message : Bytes) (messages : List Bytes) (m : ReplicationManager) :
    Node.afterProduce { s.afterProduce topic partition [message] with replication := m } topic
        partition messages
      = { s.afterProduce topic partition (message :: messages) with replication := m } := by
  unfold Node.afterProduce
  dsimp only
  rw [ConsumerGroupManager.refreshTopic_refreshTopic]
  rfl

section Produced

variable {w w₁ w' : Brokers} {b : Int} {reachable : Int → Bool} {topic : Bytes} {partition : Int}
  {messages : List Bytes} {last : Nat}

namespace Brokers

theorem Replicated.config (h : w.Replicated b reachable topic partition messages last w₁) :
    (w₁.nodes b).config = (w.nodes b).config := by
  rw [h.leader]
  rfl

theorem Produced.config (h : w.Produced b reachable topic partition messages w₁) :
    (w₁.nodes b).config = (w.nodes b).config := by
  rw [h.leader]
  rfl

theorem Replicated.idle (h : w.Replicated b reachable topic partition messages last w₁)
    (hidle : w.Idle b) : w₁.Idle b := by
  refine hidle.of_same_at ?_ (fun n hn => ?_)
  · rw [h.leader]
    exact ⟨rfl, rfl, rfl⟩
  · rw [h.peers n hn]
    exact ⟨rfl, rfl, rfl⟩

theorem Produced.idle (h : w.Produced b reachable topic partition messages w₁)
    (hidle : w.Idle b) : w₁.Idle b := by
  refine hidle.of_same_at ?_ (fun n hn => ?_)
  · rw [h.leader]
    exact ⟨rfl, rfl, rfl⟩
  · rw [h.peers n hn]
    exact ⟨rfl, rfl, rfl⟩

/-- After a round, the failed peers are those that were not reached. -/
theorem Replicated.settled (h : w.Replicated b reachable topic partition messages last w₁) :
    w₁.Settled b reachable := by
  intro p hp hne hfailed
  rw [h.config] at hp
  have hsync : w.InSync b reachable (makeKey topic partition) p := by
    by_contra hno
    rw [(h.failed p hp hne).mpr hno] at hfailed
    exact absurd hfailed (by decide)
  exact hsync.1.2.2.2

/-- With the commits, or without them if there is no majority. -/
theorem Replicated.produced (h : w.Replicated b reachable topic partition messages last w₁)
    (hlast : last < ((w.nodes b).contents (makeKey topic partition)).length + messages.length)
    (hcommit : if w.Quorate b reachable (makeKey topic partition) then
      w₁.Committed b topic partition
        (List.range' ((w.nodes b).contents (makeKey topic partition)).length messages.length) w'
      else w' = w₁) :
    w.Produced b reachable topic partition messages w' := by
  have hb : ∀ key, (w₁.nodes b).replication.commitIndexByLog key
      = (w.nodes b).replication.commitIndexByLog key := fun key => congrFun h.commits key
  have hn : ∀ n, n ≠ b → (w₁.nodes n).replication = (w.nodes n).replication :=
    fun n hn => by rw [h.peers n hn]; rfl
  by_cases hquorum : w.Quorate b reachable (makeKey topic partition)
  · rw [if_pos hquorum] at hcommit
    refine ⟨?_, fun n hn => ?_, ?_, fun o ho => ?_, fun n => ?_⟩
    · have hnode := hcommit.nodes b
      rw [h.leader] at hnode
      exact hnode
    · have hnode := hcommit.nodes n
      rw [h.peers n hn] at hnode
      exact hnode
    · rw [hcommit.failed]
      exact h.failed
    · rw [hcommit.acks]
      exact h.acks o (by omega)
    · rw [hcommit.commits, h.config]
      by_cases hne : n = b
      · rw [if_pos (.inl hne), if_pos ⟨hquorum, .inl hne⟩, hne, hb]
      · -- the peers that learn of a commit are those that have acknowledged
        have hsync : (n ∈ (w.nodes b).config.peers.map ClusterPeer.brokerId ∧
            (w₁.nodes b).replication.failedPeers n = false)
            ↔ w.InSync b reachable (makeKey topic partition) n := by
          constructor
          · rintro ⟨hmem, hfailed⟩
            by_contra hno
            rw [(h.failed n hmem hne).mpr hno] at hfailed
            exact absurd hfailed (by decide)
          · intro hsync
            refine ⟨hsync.1.1, ?_⟩
            rw [← Bool.not_eq_true, h.failed n hsync.1.1 hne]
            exact not_not.mpr hsync
        simp only [hsync, hquorum, hne, true_and, hn n hne]
  · rw [if_neg hquorum] at hcommit
    subst hcommit
    refine ⟨h.leader, fun n hn => ?_, h.failed, fun o ho => h.acks o (by omega), fun n => ?_⟩
    · rw [h.peers n hn]
    · rw [if_neg (fun hall => hquorum hall.1)]
      by_cases hne : n = b
      · rw [hne, hb]
      · rw [hn n hne]

/-- No follower gets more than was produced. -/
theorem length_share_le (w : Brokers) (b : Int) (reachable : Int → Bool) (key : Bytes) (n : Int)
    (messages : List Bytes) : (w.share b reachable key n messages).length ≤ messages.length := by
  unfold share
  split
  · exact Nat.le_refl _
  · split
    · exact List.length_take_le' _ _
    · exact Nat.zero_le _

/-- A follower in sync gets all of it. -/
theorem share_of_inSync {n : Int} (h : w.InSync b reachable (makeKey topic partition) n) :
    w.share b reachable (makeKey topic partition) n messages = messages := if_pos h

/-- The leader has what was produced. -/
theorem Produced.contents_leader (h : w.Produced b reachable topic partition messages w₁) :
    (w₁.nodes b).contents (makeKey topic partition)
      = (w.nodes b).contents (makeKey topic partition) ++ messages := by
  rw [h.leader]
  exact Node.contents_appendRecords_self ..

/-- A peer has its share of it. -/
theorem Produced.contents_peer (h : w.Produced b reachable topic partition messages w₁) {n : Int}
    (hn : n ≠ b) :
    (w₁.nodes n).contents (makeKey topic partition)
      = (w.nodes n).contents (makeKey topic partition) ++
        w.share b reachable (makeKey topic partition) n messages := by
  rw [h.peers n hn]
  exact Node.contents_appendRecords_self ..

/-- A peer is in sync afterwards if it was before, and then the others are out of reach. -/
theorem Produced.reaches_iff (h : w.Produced b reachable topic partition messages w₁) {n : Int} :
    w₁.Reaches b reachable n ↔ w.InSync b reachable (makeKey topic partition) n := by
  unfold Reaches
  rw [h.config]
  constructor
  · rintro ⟨hmem, hne, hfailed, -⟩
    by_contra hno
    rw [(h.failed n hmem hne).mpr hno] at hfailed
    exact absurd hfailed (by decide)
  · intro hsync
    obtain ⟨hmem, hne, -, hreach⟩ := hsync.1
    refine ⟨hmem, hne, ?_, hreach⟩
    rw [← Bool.not_eq_true, h.failed n hmem hne]
    exact not_not.mpr hsync

/-- Producing brings nobody into sync and nobody out of it. -/
theorem Produced.inSync_iff (h : w.Produced b reachable topic partition messages w₁) {n : Int} :
    w₁.InSync b reachable (makeKey topic partition) n
      ↔ w.InSync b reachable (makeKey topic partition) n := by
  constructor
  · exact fun hsync => h.reaches_iff.mp hsync.1
  · intro hsync
    refine ⟨h.reaches_iff.mpr hsync, ?_, ?_⟩
    · rw [h.peers n hsync.1.2.1]
      exact hsync.2.1
    · rw [h.contents_leader, h.contents_peer hsync.1.2.1, share, if_pos hsync,
        List.length_append, List.length_append, hsync.2.2]

/-- Hence the quorum of a log stays what it was. -/
theorem Produced.quorate_iff (h : w.Produced b reachable topic partition messages w₁) :
    w₁.Quorate b reachable (makeKey topic partition)
      ↔ w.Quorate b reachable (makeKey topic partition) := by
  unfold Quorate
  rw [h.config, List.countP_congr (fun n _ => ?_)]
  rw [decide_eq_true_eq, decide_eq_true_eq, h.inSync_iff]

/-- **One produce after another.** -/
theorem Produced.cons {message : Bytes}
    (hfirst : w.Produced b reachable topic partition [message] w₁)
    (hrest : w₁.Produced b reachable topic partition messages w') :
    w.Produced b reachable topic partition (message :: messages) w' := by
  have hlength : ((w₁.nodes b).contents (makeKey topic partition)).length
      = ((w.nodes b).contents (makeKey topic partition)).length + 1 := by
    rw [hfirst.contents_leader, List.length_append]
    rfl
  refine ⟨?_, fun n hn => ?_, fun p hp hne => ?_, fun o ho => ?_, fun n => ?_⟩
  · have hnode := hrest.leader
    rw [hfirst.leader, Node.afterProduce_afterProduce] at hnode
    exact hnode
  · have hnode := hrest.peers n hn
    rw [hfirst.peers n hn] at hnode
    refine hnode.trans ?_
    by_cases hsync : w.InSync b reachable (makeKey topic partition) n
    · rw [share_of_inSync (hfirst.inSync_iff.mpr hsync), share_of_inSync hsync,
        share_of_inSync hsync]
      rfl
    · -- the peer has been marked as failed, and gets nothing more
      have hnothing : w₁.share b reachable (makeKey topic partition) n messages = [] := by
        rw [share, if_neg (hfirst.inSync_iff.not.mpr hsync),
          if_neg (fun hall => hsync (hfirst.reaches_iff.mp hall.1))]
      have hsame : w.share b reachable (makeKey topic partition) n (message :: messages)
          = w.share b reachable (makeKey topic partition) n [message] := by
        rw [share, share, if_neg hsync, if_neg hsync]
        rfl
      rw [hnothing, hsame]
      rfl
  · rw [← hfirst.config] at hp
    rw [hrest.failed p hp hne, hfirst.inSync_iff]
  · rw [List.length_cons] at ho
    rw [hrest.acks o (by omega), hfirst.acks o (by rw [List.length_singleton]; omega)]
  · rw [hrest.commits, hfirst.commits, hlength, List.length_cons]
    simp only [hfirst.quorate_iff, hfirst.inSync_iff]
    split
    · rfl
    · rfl

end Brokers

end Produced

end StreamingPlatform
