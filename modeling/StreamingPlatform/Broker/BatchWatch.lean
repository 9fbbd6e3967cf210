import StreamingPlatform.Broker.Quiet
import StreamingPlatform.Lib.Monitor

namespace StreamingPlatform

open ByteString Interleave

/-!
# Broker — how a batch is appended

`handle_batch_produce` appends the records of a batch one by one, each in a call of its own
on the storage engine, and `replicate_batch` computes the offset of the last record from
the offset of the first.  `batchWatch` follows a thread in this: it appends the messages of
its request in order, each for the offset after the one before, and it opens the
acknowledgements of the last one when all are appended (`follows_handleBatchProduce_batch`).
-/

/-- A thread that serves a BATCH_PRODUCE: its request and the offsets that its appends have
    returned. -/
structure BatchWatch where
  request : Request
  offsets : List Nat := []

namespace BatchWatch

variable (b : BatchWatch)

/-- How the next record is appended. -/
def origin : AppendOrigin :=
  match b.offsets with
  | [] => .client
  | first :: _ => .batch (first + b.offsets.length)

/-- The offset that `replicate_batch` takes for that of the last record. -/
def lastOffset : Nat := (b.offsets.headD 0 + b.request.messages.length - 1) % 2 ^ 64

/-- The next action is in order. -/
def Ok : Act → Prop
  | .node (.append topic partition message origin) =>
    topic = b.request.topic ∧ partition = b.request.partition ∧
      b.request.messages[b.offsets.length]? = some message ∧ origin = b.origin
  | .node (.openAcks topic partition offset) =>
    topic = b.request.topic ∧ partition = b.request.partition ∧ b.offsets ≠ [] ∧
      b.offsets.length = b.request.messages.length ∧ offset = b.lastOffset
  | _ => True

/-- What the thread knows after an action. -/
def next : (a : Act) → a.Result → BatchWatch
  | .node (.append ..), offset => { b with offsets := b.offsets ++ [offset] }
  | _, _ => b

end BatchWatch

/-- The monitor; threads that do not serve a BATCH_PRODUCE are not watched. -/
def batchWatch : Monitor Act Act.Result (Option BatchWatch) where
  ok s a := ∀ b, s = some b → b.Ok a
  next s a r := s.map (fun b => b.next a r)

/-! ### Actions that neither append nor open acknowledgements -/

/-- The other actions. -/
def Act.Neutral : Act → Prop
  | .node (.append ..) | .node (.openAcks ..) => False
  | _ => True

section Neutral

variable {config : BrokerConfig} {payload : Bytes}

theorem Act.Talks.neutral {a : Act} (h : a.Talks payload) : a.Neutral := by
  cases a with
  | node a => cases a <;> first | exact h.elim | trivial
  | net a => trivial

theorem neutral_talks {α : Type} {p : Program α} (h : p.AllActs (Act.Talks payload)) :
    p.AllActs Act.Neutral :=
  h.mono (fun _ => Act.Talks.neutral)

theorem neutral_commitBatch (topic : Bytes) (partition : Int) (offsets : List Nat) :
    (commitBatch config topic partition offsets).AllActs Act.Neutral :=
  acts_commitBatch (fun _ => trivial)
    (fun offset => neutral_talks (talks_broadcastCommit topic partition offset)) offsets

end Neutral

/-! ### Following -/

section Follows

variable {α : Type} {b : BatchWatch} {config : BrokerConfig} {request : Request}

/-- A thread that is not watched does nothing wrong. -/
theorem follows_unwatched (p : Program α) : Follows batchWatch (fun _ _ => True) p none := by
  induction p with
  | ret a => trivial
  | act a k ih => exact ⟨fun b hb => absurd hb (by simp), fun r => ih r⟩

/-- Neutral actions do not matter. -/
theorem follows_neutral {p : Program α} (hp : p.AllActs Act.Neutral) :
    Follows batchWatch (fun _ s => s = some b) p (some b) := by
  refine Follows.of_allActs (P := fun s => s = some b) ?_ ?_ hp rfl
  · rintro s a rfl ha b' hb'
    cases a with
    | node a => cases a <;> first | exact ha.elim | trivial
    | net a => trivial
  · rintro s a r rfl ha
    cases a with
    | node a => cases a <;> first | exact ha.elim | rfl
    | net a => rfl

theorem follows_neutral_done {p : Program α} (hp : p.AllActs Act.Neutral) :
    Follows batchWatch (fun _ _ => True) p (some b) :=
  (follows_neutral hp).mono (fun _ _ _ => trivial)

/-- The rest of a batch. -/
theorem follows_appendBatch_batch {first : Nat} {done : List Nat} {messages : List Bytes}
    (hmessages : request.messages.drop (done.length + 1) = messages) :
    Follows batchWatch (fun offsets s => s = some ⟨request, first :: done ++ offsets⟩ ∧
        offsets.length = messages.length)
      (appendBatch request.topic request.partition messages (first + (done.length + 1)))
      (some ⟨request, first :: done⟩) := by
  -- on the batch: `done` are the offsets of the records before
  induction messages generalizing done with
  | nil => exact Follows.ret ⟨by rw [List.append_nil], rfl⟩
  | cons message messages ih =>
    have hnext : request.messages[done.length + 1]? = some message := by
      rw [← List.head?_drop, hmessages]
      rfl
    have hrest : request.messages.drop (done.length + 1 + 1) = messages := by
      rw [← List.drop_drop, hmessages]
      rfl
    refine Follows.act ?_ (fun offset => ?_)
    · rintro b hb
      obtain rfl := Option.some.inj hb
      exact ⟨rfl, rfl, hnext, rfl⟩
    · have hlength : (done ++ [offset]).length = done.length + 1 := List.length_append
      have hih := @ih (done ++ [offset]) (by rw [hlength]; exact hrest)
      rw [hlength] at hih
      refine Follows.bind hih (fun offsets s hs => Follows.ret ?_)
      obtain ⟨rfl, hcount⟩ := hs
      refine ⟨?_, congrArg (· + 1) hcount⟩
      simp

/-- The whole batch is appended when its replication begins. -/
theorem follows_replicateBatch_batch {first : Nat} {offsets : List Nat}
    (hcomplete : offsets.length + 1 = request.messages.length) :
    Follows batchWatch (fun _ s => s = some ⟨request, first :: offsets⟩)
      (replicateBatch config request.topic request.partition first request.messages)
      (some ⟨request, first :: offsets⟩) := by
  unfold replicateBatch
  refine Follows.act (fun b _ => trivial) (fun leader => ?_)
  split
  · exact Follows.ret rfl
  · split
    · exact Follows.ret rfl
    · refine Follows.act (fun b _ => trivial) (fun _ => ?_)
      refine Follows.bind (Q := fun _ s => s = some ⟨request, first :: offsets⟩)
        (Follows.act ?_ (fun _ => ?_)) ?_
      · rintro b hb
        obtain rfl := Option.some.inj hb
        exact ⟨rfl, rfl, List.cons_ne_nil _ _, hcomplete, rfl⟩
      · refine follows_neutral (.bind (.forM (fun peer _ => ?_)) (fun _ => .perform trivial))
        exact neutral_talks (talks_batchRound _ _ _ peer)
      · rintro r s rfl
        exact Follows.act (fun b _ => trivial) (fun _ => Follows.ret rfl)

/-- **BATCH_PRODUCE.** -/
theorem follows_handleBatchProduce_batch :
    Follows batchWatch (fun _ _ => True) (handleBatchProduce config request)
      (some { request }) := by
  unfold handleBatchProduce
  split
  · exact Follows.ret trivial
  · next message messages hmessages =>
    refine Follows.act (fun b _ => trivial) (fun leader => ?_)
    split
    · exact follows_neutral_done (neutral_talks (talks_forwardToLeader request))
    · split
      · exact Follows.ret trivial
      · refine Follows.act ?_ (fun first => ?_)
        · rintro b hb
          obtain rfl := Option.some.inj hb
          refine ⟨rfl, rfl, ?_, rfl⟩
          show request.messages[0]? = some message
          rw [hmessages]
          rfl
        · refine Follows.bind (@follows_appendBatch_batch request first [] messages
            (by rw [hmessages]; rfl)) ?_
          rintro offsets s ⟨rfl, hcount⟩
          refine Follows.bind (follows_neutral (acts_refreshTopic trivial (fun _ => trivial))) ?_
          rintro _ s rfl
          -- the batch is replicated after its last record
          have hcomplete : offsets.length + 1 = request.messages.length := by
            rw [hmessages, hcount]
            rfl
          refine Follows.bind (follows_replicateBatch_batch hcomplete) ?_
          rintro replicated s rfl
          split
          · exact Follows.ret trivial
          · refine Follows.bind (follows_neutral (neutral_talks
              (talks_waitForQuorum [] request.topic request.partition _))) ?_
            rintro reached s rfl
            split
            · exact Follows.ret trivial
            · refine Follows.bind (follows_neutral (neutral_commitBatch request.topic
                request.partition _)) (fun _ _ _ => Follows.ret trivial)

/-- A thread that serves a request is watched if it is a BATCH_PRODUCE. -/
theorem follows_serve_batch (payload : Bytes) (conn : Option Nat)
    (htype : (parseRequest payload).type = .batchProduce) :
    Follows batchWatch (fun _ _ => True) (serve config payload conn)
      (some { request := parseRequest payload }) := by
  have hprocess : processRequest config payload conn
      = handleBatchProduce config (parseRequest payload) := by
    unfold processRequest handleRequest
    dsimp only
    rw [htype]
    rfl
  unfold serve
  rw [hprocess]
  refine Follows.bind follows_handleBatchProduce_batch (fun response s _ => ?_)
  refine Follows.act (fun b _ => trivial) (fun _ => Follows.ret trivial)

end Follows

end StreamingPlatform
