import StreamingPlatform.Cluster.Alone
import StreamingPlatform.Cluster.Runs
import StreamingPlatform.Core.Assignment
import StreamingPlatform.Protocol.Canonical

namespace StreamingPlatform

open ByteString Interleave

/-!
# Cluster — a follower forwards requests to the leader

A follower hands on the requests that only a leader can serve: it encodes the request that
it has parsed, sends it to the leader and returns the response that it reads back.  On the
way the request is encoded a second time and the response is encoded, parsed and encoded
again.  `Relay.step` puts the two brokers side by side, connected by a reliable stream, and
`forwarding_transparent` says that client and leader do not notice the difference.
-/

/-- The requests that a follower does not serve itself. -/
def Request.Forwarded (request : Request) : Prop :=
  request.type ∈ [.produce, .joinGroup, .leaveGroup, .groupFetch, .commitOffset,
    .groupAssignment] ∨ (request.type = .batchProduce ∧ request.messages ≠ [])

instance (request : Request) : Decidable request.Forwarded :=
  inferInstanceAs (Decidable (_ ∨ _))

theorem Request.Forwarded.isClient {request : Request} (h : request.Forwarded) :
    request.type.isInterBroker = false ∧ request.type ≠ .error := by
  rcases h with htype | ⟨htype, -⟩
  · generalize request.type = type at htype
    revert type
    decide
  · rw [htype]
    decide

/-- The handlers of these requests ask for the role before anything else. -/
theorem handleRequest_forwarded (config : BrokerConfig) {request : Request}
    (h : request.Forwarded) : ∃ handle, handleRequest config request =
      (node .isLeader >>= fun leader =>
        if (!leader) = true then forwardToLeader request else handle) := by
  rcases h with htype | ⟨htype, hmessages⟩
  · simp only [List.mem_cons, List.not_mem_nil, or_false] at htype
    rcases htype with htype | htype | htype | htype | htype | htype <;>
    · rw [handleRequest, htype]
      exact ⟨_, rfl⟩
  · rw [handleRequest, htype]
    dsimp only
    unfold handleBatchProduce
    split
    · next hnil => exact absurd hnil hmessages
    · exact ⟨_, rfl⟩

/-- Such a request gets to its handler, and is read the same when it is sent on. -/
theorem processRequest_forwarded (config : BrokerConfig) {payload : Bytes} (conn : Option Nat)
    (h : (parseRequest payload).Forwarded) :
    processRequest config payload conn = handleRequest config (parseRequest payload) ∧
      parseRequest (encodeRequest (parseRequest payload)) = parseRequest payload := by
  obtain ⟨hclient, herror⟩ := h.isClient
  constructor
  · unfold processRequest
    dsimp only
    rw [hclient]
    rfl
  · rw [encodeRequest_parse herror]

/-! ### What a leader answers -/

theorem NodeAct.Effect.cursorsFit {τ : Nat} {s s' : Node} {a : NodeAct}
    (h : NodeAct.Effect τ s a s') (hs : s.groups.CursorsFit) : s'.groups.CursorsFit := by
  rcases h.groups_cases with heq | ⟨_, _, _, _, -, heq⟩ | ⟨_, _, _, -, heq⟩ |
    ⟨_, _, _, _, _, -, heq⟩ | ⟨_, _, -, heq⟩ <;> rw [heq]
  · exact hs
  · exact hs.join
  · exact hs.leave
  · exact hs.commit
  · exact hs.refreshTopic

/-- In every state of every run, the cursors of all brokers fit. -/
theorem cursorsFit_of_reachable {G : Guard Act World EnvStep} {setup : Setup} {p : ClusterPool}
    (h : Reachable clusterMachine G setup.pool p) (n : Int) :
    (p.world.nodes n).groups.CursorsFit := by
  induction h with
  | start =>
    intro name group hgroup
    change (setup.node n).groups.groups name = some group at hgroup
    unfold Setup.node at hgroup
    split at hgroup <;> exact absurd hgroup (by simp)
  | step l _ _ hstep ih =>
    rcases Machine.step_cases hstep with ⟨τ, c, a, k, r, -, -, hexec, -⟩ |
      ⟨e, started, -, henv, -⟩
    · exact World.exec_keeps hexec (P := fun s => s.groups.CursorsFit) ih
        (fun act _ _ heffect => heffect.cursorsFit ih)
    · obtain ⟨now, alive, hn⟩ := (World.env_cases henv).1.nodes n
      rw [hn]
      exact ih

section Answers

variable {τ : Nat} {s s' : Node} {config : BrokerConfig} {request : Request}
  {response : Response}

/-- A request that is refused carries no offsets. -/
theorem runs_failure {text : String}
    (h : (pure (.failure text) : Program Response).Runs (Node.alone τ) s response s') :
    response.OffsetsFit := by
  obtain ⟨rfl, -⟩ := h
  exact Response.offsetsFit_failure text

theorem runs_handleFetch (hoffset : request.fetchOffset < 2 ^ 64)
    (h : (handleFetch request).Runs (Node.alone τ) s response s') : response.OffsetsFit := by
  unfold handleFetch at h
  split at h
  · exact runs_failure h
  · split at h
    · exact runs_failure h
    · obtain ⟨committed, s₁, -, h⟩ := runs_node_bind.mp h
      split at h
      · exact runs_failure h
      · obtain ⟨fetched, s₂, -, h⟩ := runs_node_bind.mp h
        split at h
        · exact runs_failure h
        · split at h
          · exact runs_failure h
          · obtain ⟨rfl, -⟩ := h
            exact Response.offsetsFit_single _ _ hoffset

theorem runs_handleGroupFetch (hleader : s.isLeader = true) (hcursors : s.groups.CursorsFit)
    (h : (handleGroupFetch request).Runs (Node.alone τ) s response s') :
    response.OffsetsFit := by
  have h := runs_onLeader hleader h
  split at h
  · exact runs_failure h
  · obtain ⟨assigned, s₁, ⟨c, hassigned⟩, h⟩ := runs_node_bind.mp h
    obtain ⟨-, rfl⟩ := Prod.mk.inj (Option.some.inj hassigned)
    split at h
    · exact runs_failure h
    · -- the offset in the response is the group's cursor
      obtain ⟨offset, s₂, ⟨c, hnext⟩, h⟩ := runs_node_bind.mp h
      obtain ⟨rfl, -⟩ := Prod.mk.inj (Option.some.inj hnext)
      exact runs_handleFetch (hcursors.nextOffset_lt ..) h

theorem runs_handleCommitOffset (hleader : s.isLeader = true)
    (hoffset : request.fetchOffset < 2 ^ 64)
    (h : (handleCommitOffset request).Runs (Node.alone τ) s response s') :
    response.OffsetsFit := by
  have h := runs_onLeader hleader h
  split at h
  · exact runs_failure h
  · obtain ⟨committed, s₁, -, h⟩ := runs_node_bind.mp h
    split at h
    · exact runs_failure h
    · obtain ⟨rfl, -⟩ := h
      exact Response.offsetsFit_single _ _ hoffset

theorem runs_handleGroupAssignment (hleader : s.isLeader = true)
    (h : (handleGroupAssignment request).Runs (Node.alone τ) s response s') :
    response.OffsetsFit := by
  have h := runs_onLeader hleader h
  split at h
  · exact runs_failure h
  · obtain ⟨partitions, s₁, -, h⟩ := runs_node_bind.mp h
    obtain ⟨assigned, s₂, -, rfl, -⟩ := Prog.runs_bind.mp h
    exact Response.offsetsFit_single _ _ (by decide)

/-- **Whatever a leader answers**, its offsets fit the wire. -/
theorem runs_handleRequest (hleader : s.isLeader = true) (hcursors : s.groups.CursorsFit)
    (hforwarded : request.Forwarded) (hfits : request.Fits)
    (h : (handleRequest config request).Runs (Node.alone τ) s response s') :
    response.OffsetsFit := by
  have hall : response.Fits → response.OffsetsFit :=
    fun hfits => ⟨hfits.appendedOffset, hfits.count, hfits.appendedOffsets⟩
  rcases hforwarded with htype | ⟨htype, -⟩
  · simp only [List.mem_cons, List.not_mem_nil, or_false] at htype
    rcases htype with htype | htype | htype | htype | htype | htype <;>
      simp only [handleRequest, htype] at h
    · exact hall (runs_handleProduce hleader h).1
    · exact (runs_handleJoinGroup hleader h).1
    · exact hall (runs_handleLeaveGroup hleader h).1
    · exact runs_handleGroupFetch hleader hcursors h
    · exact runs_handleCommitOffset hleader hfits.fetchOffset h
    · exact runs_handleGroupAssignment hleader h
  · simp only [handleRequest, htype] at h
    exact hall (runs_handleBatchProduce hleader hfits.count h).1

end Answers

/-! ### Follower and leader, connected -/

/-- A follower and the broker that it takes for the leader, with the connection between
    them and what can be read from it. -/
structure Relay where
  follower : Node
  leader : Node
  stream : Option (Nat × Bytes) := none

/-- An action of thread `τ` of the follower.  A request that it sends to the leader is
    taken up there by thread `τ'` and handled to the end; the stream is reliable, so its
    response can be read from the connection. -/
def Relay.step (τ τ' : Nat) (w : Relay) : (a : Act) → a.Result → Relay → Prop
  | .node a, r, w' => ∃ s', w.follower.alone τ (.node a) r s' ∧ w' = { w with follower := s' }
  | .net (.send dest payload), r, w' => dest = w.leader.config.brokerId ∧
    ∃ conn response s',
      (processRequest w.leader.config payload (some conn)).Runs (Node.alone τ') w.leader
        response s' ∧
      r = .sent conn ∧
      w' = { w with leader := s', stream := some (conn, serializeResponse response) }
  | .net (.receive conn), r, w' =>
    ∃ frame, w.stream = some (conn, frame) ∧ r = some frame ∧ w' = w
  | .net (.sendAck ..), _, w' => w' = w
  | .net (.respond ..), _, w' => w' = w

section Relay

variable {τ τ' : Nat} {w w' : Relay} {response : Response}

/-- A handler that asks for the role first. -/
theorem runs_onFollower {forward handle : Program Response} (h : w.follower.isLeader = false) :
    (node .isLeader >>= fun leader => if (!leader) = true then forward else handle).Runs
      (Relay.step τ τ') w response w' ↔ forward.Runs (Relay.step τ τ') w response w' := by
  constructor
  · intro hrun
    obtain ⟨leader, w₁, ⟨s', hrole, rfl⟩, hrun⟩ := Prog.runs_perform_bind.mp hrun
    obtain ⟨rfl, rfl⟩ := alone_isLeader hrole
    rw [h] at hrun
    exact hrun
  · intro hrun
    refine Prog.runs_perform_bind.mpr ⟨false, w, ⟨w.follower, ⟨.succeeds, ?_⟩, rfl⟩, hrun⟩
    rw [← h]
    rfl

/-- **Forwarding**: the leader handles the request, and what it answers is read back. -/
theorem runs_forwardToLeader {request : Request} {endpoint : LeaderEndpoint}
    (hendpoint : w.follower.config.getLeaderEndpoint w.follower.leaderBrokerId = some endpoint)
    (hleader : endpoint.brokerId = w.leader.config.brokerId) :
    (forwardToLeader request).Runs (Relay.step τ τ') w response w' ↔
      ∃ conn answer s', (processRequest w.leader.config (encodeRequest request) (some conn)).Runs
          (Node.alone τ') w.leader answer s' ∧
        response = parseResponse (serializeResponse answer) ∧
        w' = { w with leader := s', stream := some (conn, serializeResponse answer) } := by
  constructor
  · intro hrun
    obtain ⟨found, w₁, ⟨s₁, ⟨c, hfound⟩, rfl⟩, hrun⟩ := Prog.runs_perform_bind.mp hrun
    obtain ⟨rfl, rfl⟩ := Prod.mk.inj (Option.some.inj hfound)
    rw [hendpoint] at hrun
    obtain ⟨sent, w₂, ⟨-, conn, answer, s', hanswer, rfl, rfl⟩, hrun⟩ :=
      Prog.runs_perform_bind.mp hrun
    obtain ⟨read, w₃, ⟨frame, hframe, rfl, rfl⟩, hresponse, hw'⟩ :=
      Prog.runs_perform_bind.mp hrun
    obtain ⟨-, rfl⟩ := Prod.mk.inj (Option.some.inj hframe)
    exact ⟨conn, answer, s', hanswer, hresponse, hw'⟩
  · rintro ⟨conn, answer, s', hanswer, hresponse, hw'⟩
    refine Prog.runs_perform_bind.mpr ⟨some endpoint, w, ⟨w.follower, ⟨.succeeds, ?_⟩, rfl⟩, ?_⟩
    · rw [← hendpoint]
      rfl
    refine Prog.runs_perform_bind.mpr ⟨.sent conn, _,
      ⟨hleader, conn, answer, s', hanswer, rfl, rfl⟩, ?_⟩
    exact Prog.runs_perform_bind.mpr ⟨some (serializeResponse answer), _, ⟨_, rfl, rfl, rfl⟩,
      hresponse, hw'⟩

end Relay

/-- **Transparent forwarding.**  A follower is asked for something that it forwards, and
    the broker that it names as leader is the leader.  What can come back to the client,
    and the state that the leader is left in, is what could come back from the leader for
    the same bytes, and the follower itself does not change. -/
theorem forwarding_transparent (τ τ' : Nat) {follower leader : Node} {endpoint : LeaderEndpoint}
    {b : Bytes} (hb : (parseRequest b).Forwarded) (hfollower : follower.isLeader = false)
    (hendpoint : follower.config.getLeaderEndpoint follower.leaderBrokerId = some endpoint)
    (hnamed : endpoint.brokerId = leader.config.brokerId) (hleader : leader.isLeader = true)
    (hcursors : leader.groups.CursorsFit)
    (hsmall : ∀ response leader',
      (processRequest leader.config b none).Runs (Node.alone τ') leader response leader' →
      response.message.length ≤ kMaxStringBytes)
    (conn : Option Nat) (bytes : Bytes) (leader' : Node) :
    (∃ response w, (processRequest follower.config b conn).Runs (Relay.step τ τ')
        { follower, leader } response w ∧
      serializeResponse response = bytes ∧ w.leader = leader' ∧ w.follower = follower) ↔
    ∃ response, (processRequest leader.config b none).Runs (Node.alone τ') leader response leader' ∧
      serializeResponse response = bytes := by
  obtain ⟨hclient, haccepted⟩ := hb.isClient
  obtain ⟨handle, hhandle⟩ := handleRequest_forwarded follower.config hb
  -- the leader receives the bytes that the follower received
  have hsame : ∀ conn, processRequest leader.config (encodeRequest (parseRequest b)) (some conn)
      = processRequest leader.config b none := by
    intro conn
    rw [encodeRequest_parse haccepted, processRequest_client _ hclient,
      processRequest_client _ hclient]
  -- and the client the bytes that the follower has read
  have hread : ∀ {response leader'},
      (processRequest leader.config b none).Runs (Node.alone τ') leader response leader' →
      parseResponse (serializeResponse response) = response := by
    intro response leader' hrun
    refine parseResponse_serialize (Response.OffsetsFit.fits ?_ (hsmall _ _ hrun))
    rw [processRequest_client _ hclient] at hrun
    exact runs_handleRequest hleader hcursors hb (parseRequest_fits haccepted) hrun
  rw [processRequest_client _ hclient conn, hhandle]
  constructor
  · rintro ⟨response, w, hrun, rfl, rfl, -⟩
    obtain ⟨id, answer, s', hanswer, hresponse, hw⟩ := (runs_forwardToLeader hendpoint hnamed).mp
      ((runs_onFollower (w := { follower, leader }) hfollower).mp hrun)
    rw [hsame] at hanswer
    refine ⟨answer, ?_, ?_⟩
    · rw [hw]
      exact hanswer
    · rw [hresponse, hread hanswer]
  · rintro ⟨response, hrun, rfl⟩
    refine ⟨parseResponse (serializeResponse response),
      ⟨follower, leader', some (0, serializeResponse response)⟩,
      (runs_onFollower (w := { follower, leader }) hfollower).mpr
        ((runs_forwardToLeader hendpoint hnamed).mpr ⟨0, response, leader', ?_, rfl, rfl⟩),
      by rw [hread hrun], rfl, rfl⟩
    rw [hsame]
    exact hrun

/-- A produce sent to the follower of two brokers. -/
theorem forwarding_transparent_produce : ∃ response leader' response' w,
    (processRequest (twoBrokers.node 1).config (produceTo (ofString "t") 0) none).Runs
      (Node.alone 0) (twoBrokers.node 1) response leader' ∧
    (processRequest (twoBrokers.node 2).config (produceTo (ofString "t") 0) none).Runs
      (Relay.step 0 0) { follower := twoBrokers.node 2, leader := twoBrokers.node 1 }
      response' w ∧
    serializeResponse response' = serializeResponse response ∧ w.leader = leader' ∧
    w.follower = twoBrokers.node 2 := by
  have hplayed : ((processRequest (twoBrokers.node 1).config (produceTo (ofString "t") 0)
      none).play (Node.answer none) (twoBrokers.node 1)).isSome = true := by decide +kernel
  obtain ⟨⟨response, leader'⟩, hplay⟩ := Option.isSome_iff_exists.mp hplayed
  have hrun := runs_of_answer hplay
  have htype : (parseRequest (produceTo (ofString "t") 0)).type = .produce := by decide +kernel
  have hsmall : ∀ response leader',
      (processRequest (twoBrokers.node 1).config (produceTo (ofString "t") 0) none).Runs
        (Node.alone 0) (twoBrokers.node 1) response leader' →
      response.message.length ≤ kMaxStringBytes := by
    intro response leader' hrun
    rw [processRequest_client _ (by rw [htype]; decide)] at hrun
    simp only [handleRequest, htype] at hrun
    exact (runs_handleProduce (by decide +kernel) hrun).1.message
  have hendpoint : (twoBrokers.node 2).config.getLeaderEndpoint (twoBrokers.node 2).leaderBrokerId
      = some ⟨1, ofString "127.0.0.1", 9001⟩ := by decide +kernel
  obtain ⟨response', w, hforwarded⟩ := (forwarding_transparent 0 0
    (.inl (by rw [htype]; decide)) (by decide +kernel) hendpoint (by decide +kernel)
    (by decide +kernel)
    (cursorsFit_of_reachable (G := staysLeader 1) (p := twoBrokers.pool) .start 1) hsmall none
    (serializeResponse response) leader').mpr ⟨response, hrun, rfl⟩
  exact ⟨response, leader', response', w, hrun, hforwarded⟩

end StreamingPlatform
