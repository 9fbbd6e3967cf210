import StreamingPlatform.Cluster.Runs

namespace StreamingPlatform

open ByteString Interleave World

/-!
# Cluster — delivery to consumer groups

A consumer group has one cursor for each partition of its topic; GROUP_FETCH delivers the
record at the cursor, COMMIT_OFFSET moves the cursor past an offset.  Members join and
leave, groups disappear and come back at 0, and between the reading of a cursor and the
delivery of the record anything can happen.

As long as consumers commit only what was delivered to their group, nothing is skipped:
the offsets delivered are an initial segment, which includes everything below the cursor
(`deliveries_in_order`).

The invariant behind it (`InSequence`) is that every value a cursor has, or has had when a
GROUP_FETCH read it, is covered: all offsets below were delivered (`Covered`).
-/

/-- A GROUP_FETCH at broker `n` has delivered `offset` to a group. -/
def Delivered (w : World) (n : Int) (groupId topic : Bytes) (partition : Int) (offset : Nat) :
    Prop :=
  ∃ τ request conn response, w.Serves τ n request ∧ request.type = .groupFetch ∧
    request.groupId = groupId ∧ request.topic = topic ∧ request.partition = partition ∧
    w.Did τ (.net (.respond conn response)) () ∧ response.success = true ∧
    response.appendedOffset = offset

/-- Everything below `bound` has been delivered to a group. -/
def Covered (w : World) (n : Int) (groupId topic : Bytes) (partition : Int) (bound : Nat) : Prop :=
  ∀ offset < bound, Delivered w n groupId topic partition offset

/-- Runs in which broker `n` stays leader and a COMMIT_OFFSET that reaches it names an
    offset that was delivered to its group. -/
def honestCommits (n : Int) : Guard Act World EnvStep where
  act w _ _ := (w.nodes n).isLeader = true
  env w e := (w.nodes n).isLeader = true ∧ ∀ task request, w.Starts e task → task.node = n →
    task.request? = some request → request.type = .commitOffset →
    Delivered w n request.groupId request.topic request.partition request.fetchOffset

section Covered

variable {w w' : World} {n : Int} {groupId topic : Bytes} {partition : Int}

/-- What was delivered stays so. -/
theorem Delivered.mono {offset : Nat} (hmono : w.Mono w')
    (h : Delivered w n groupId topic partition offset) :
    Delivered w' n groupId topic partition offset := by
  obtain ⟨τ, request, conn, response, hserves, htype, hg, ht, hp, hdid, hresponse⟩ := h
  exact ⟨τ, request, conn, response, hmono.serves hserves, htype, hg, ht, hp, hmono.did hdid,
    hresponse⟩

theorem Covered.mono {bound : Nat} (hmono : w.Mono w')
    (h : Covered w n groupId topic partition bound) :
    Covered w' n groupId topic partition bound :=
  fun offset hlt => (h offset hlt).mono hmono

theorem Covered.of_le {bound bound' : Nat} (h : Covered w n groupId topic partition bound)
    (hle : bound' ≤ bound) : Covered w n groupId topic partition bound' :=
  fun offset hlt => h offset (hlt.trans_le hle)

/-- The next offset after a covered and delivered one is covered. -/
theorem Covered.succ {offset : Nat} (h : Covered w n groupId topic partition offset)
    (hdelivered : Delivered w n groupId topic partition offset) :
    Covered w n groupId topic partition (offset + 1) := by
  intro i hi
  rcases Nat.lt_succ_iff_lt_or_eq.mp hi with hlt | rfl
  · exact h i hlt
  · exact hdelivered

end Covered

/-! ### What happens to the cursors -/

/-- Only the operations on consumer groups change the groups. -/
theorem NodeAct.Effect.groups {τ : Nat} {s s' : Node} {a : NodeAct}
    (h : NodeAct.Effect τ s a s') (hnamed : s.groups.Named)
    (hjoin : ∀ groupId memberId topic partitions, a = .join groupId memberId topic partitions →
      topic ≠ []) :
    ConsumerGroupManager.Tame s.groups.groups s'.groups.groups ∨
      ∃ groupId memberId topic partition offset,
        a = .commit groupId memberId topic partition offset ∧
        s'.groups = (s.groups.commit groupId memberId topic partition offset).2 := by
  rcases h.groups_cases with heq | ⟨groupId, memberId, topic, partitions, rfl, heq⟩ |
    ⟨_, _, _, rfl, heq⟩ | hcommit | ⟨_, _, rfl, heq⟩
  · rw [heq]
    exact .inl hnamed.tame_refl
  · rw [heq]
    exact .inl (hnamed.join (hjoin groupId memberId topic partitions rfl))
  · rw [heq]
    exact .inl hnamed.leave
  · exact .inr hcommit
  · rw [heq]
    exact .inl hnamed.refreshTopic

/-! ### The invariant -/

/-- What an event says about deliveries: a cursor that was read is covered, and so is what
    was delivered, which is a record of the log. -/
def SeenCovered (n : Int) (w : World) (n' : Int) (e : Event) : Prop :=
  match e with
  | ⟨_, .node (.nextOffset groupId topic partition), offset⟩ =>
    n' = n → Covered w n groupId topic partition offset
  | ⟨τ, .net (.respond _ response), _⟩ =>
    ∃ request, w.Serves τ n' request ∧
      (n' = n → request.type = .groupFetch → response.success = true →
        Covered w n request.groupId request.topic request.partition response.appendedOffset ∧
        w.Holds n request.topic request.partition response.appendedOffset response.message)
  | _ => True

theorem SeenCovered.mono {n : Int} {w w' : World} {n' : Int} {e : Event} (hmono : w.Mono w')
    (h : SeenCovered n w n' e) : SeenCovered n w' n' e := by
  unfold SeenCovered at h ⊢
  split
  · exact fun hn => (h hn).mono hmono
  · obtain ⟨request, hserves, hcovered⟩ := h
    refine ⟨request, hmono.serves hserves, fun hn htype hs => ?_⟩
    exact ⟨(hcovered hn htype hs).1.mono hmono, hmono.holds (hcovered hn htype hs).2⟩
  · trivial

/-- **The invariant of delivery** at broker `n`. -/
structure InSequence (n : Int) (w : World) : Prop where
  told : Recorded (ToldLeader n) w
  seen : Recorded (SeenCovered n) w
  named : (w.nodes n).groups.Named
  cursors : ∀ groupId topic partition,
    Covered w n groupId topic partition ((w.nodes n).groups.nextOffset groupId topic partition)
  commits : ∀ τ request, w.Serves τ n request → request.type = .commitOffset →
    Delivered w n request.groupId request.topic request.partition request.fetchOffset

section InSequence

variable {cluster : Membership} {n : Int} {w w' : World} {τ : Nat} {a : Act} {c : Choice}
  {r : a.Result} {groupId topic : Bytes} {partition : Int} {offset : Nat}

/-- Below a delivered offset everything was delivered. -/
theorem InSequence.covered (h : InSequence n w)
    (hdelivered : Delivered w n groupId topic partition offset) :
    Covered w n groupId topic partition offset ∧
      offset < ((w.nodes n).contents (makeKey topic partition)).length := by
  obtain ⟨τ, request, conn, response, hserves, htype, rfl, rfl, rfl, hdid, hs, rfl⟩ := hdelivered
  obtain ⟨request', hserves', hcovered⟩ := h.seen.did hdid hserves.runsAt
  obtain ⟨-, rfl⟩ := hserves.unique hserves'
  obtain ⟨hbelow, hholds⟩ := hcovered rfl htype hs
  exact ⟨hbelow, (List.getElem?_eq_some_iff.mp hholds).1⟩

/-- A GROUP_FETCH delivers what it has read from the cursor. -/
theorem InSequence.respond (h : InSequence n w) {conn : Option Nat} {response : Response}
    {n' : Int} (hn' : w.RunsAt τ n') (hpre : Pre cluster τ (.net (.respond conn response)) w) :
    ∃ request, w.Serves τ n' request ∧
      (n' = n → request.type = .groupFetch → response.success = true →
        Covered w n request.groupId request.topic request.partition response.appendedOffset ∧
        w.Holds n request.topic request.partition response.appendedOffset response.message) := by
  obtain ⟨n₀, request, hserves, hserved, -⟩ := hpre
  obtain rfl := hserves.runsAt.unique hn'
  refine ⟨request, hserves, ?_⟩
  rintro rfl htype hs
  have hlocal := hserved.promised hs
  simp only [htype] at hlocal
  -- the broker is the leader, so the request was not forwarded
  obtain ⟨hholds, hnext⟩ := hlocal.resolve_left (not_forwarded h.told hn')
  exact ⟨h.seen.did hnext hn' rfl, hholds⟩

/-- **A new delivery** is at an offset below which everything was delivered before. -/
theorem InSequence.delivered_exec (h : InSequence n w) (hpre : Pre cluster τ a w)
    (hexec : World.exec τ a c w = some (r, w'))
    (hdelivered : Delivered w' n groupId topic partition offset) :
    Delivered w n groupId topic partition offset ∨
      Covered w n groupId topic partition offset := by
  obtain ⟨τ', request, conn, response, hserves, htype, rfl, rfl, rfl, hdid, hs, rfl⟩ := hdelivered
  obtain ⟨hhistory, htasks⟩ := World.exec_history hexec
  have hserves : w.Serves τ' n request := by
    unfold World.Serves at hserves ⊢
    rwa [htasks] at hserves
  unfold World.Did at hdid
  rw [hhistory] at hdid
  rcases List.mem_append.mp hdid with hold | hnew
  · exact .inl ⟨τ', request, conn, response, hserves, htype, rfl, rfl, rfl, hold, hs, rfl⟩
  · -- the response just written
    cases List.mem_singleton.mp hnew
    obtain ⟨request', hserves', hcovered⟩ := h.respond hserves.runsAt hpre
    obtain ⟨-, rfl⟩ := hserves.unique hserves'
    exact .inr (hcovered rfl htype hs).1

/-- Whoever is told a cursor is told one whose records were delivered. -/
theorem InSequence.seen_exec (h : InSequence n w) (hpre : Pre cluster τ a w)
    (hexec : World.exec τ a c w = some (r, w')) : Recorded (SeenCovered n) w' := by
  have hmono := (World.exec_mono hexec).1
  refine h.seen.exec SeenCovered.mono hexec (fun n' hn' => SeenCovered.mono hmono ?_)
  unfold SeenCovered
  split
  · next heq =>
    cases heq
    rintro rfl
    have hstep := World.exec_node_at hexec hn'
    rw [← (Prod.mk.inj (Option.some.inj hstep)).1]
    exact h.cursors _ _ _
  · next heq =>
    cases heq
    exact h.respond hn' hpre
  · trivial

/-- The cursors stay covered: only a commit advances one, and not beyond what was
    delivered. -/
theorem InSequence.cursors_exec (h : InSequence n w) (hpre : Pre cluster τ a w)
    (hexec : World.exec τ a c w = some (r, w')) :
    (w'.nodes n).groups.Named ∧ ∀ groupId topic partition, Covered w n groupId topic partition
      ((w'.nodes n).groups.nextOffset groupId topic partition) := by
  rcases World.exec_effect hexec n with hsame | ⟨act, rfl, hn, heffect⟩
  · rw [hsame]
    exact ⟨h.named, h.cursors⟩
  have hjoin : ∀ groupId memberId topic partitions,
      act = .join groupId memberId topic partitions → topic ≠ [] := by
    rintro groupId memberId topic partitions rfl
    exact hpre
  rcases heffect.groups h.named hjoin with htame | ⟨groupId, memberId, topic, partition, offset,
    rfl, hcommit⟩
  · -- a tame operation moves no cursor forward
    refine ⟨fun name => (htame name).1, fun groupId topic partition => ?_⟩
    exact (h.cursors groupId topic partition).of_le ((htame groupId).2 topic partition)
  · rw [hcommit]
    refine ⟨h.named.commit, fun g t p => ?_⟩
    obtain ⟨n₀, request, hserves, htype, rfl, rfl, rfl, rfl⟩ := hpre
    obtain rfl := hserves.runsAt.unique hn
    rcases ConsumerGroupManager.nextOffset_commit_le (w.nodes n₀).groups request.groupId memberId
      request.topic request.partition request.fetchOffset g t p with hle | ⟨rfl, rfl, rfl, hle⟩
    · exact (h.cursors g t p).of_le hle
    · -- the cursor that moves goes right after a delivered offset
      have hdelivered := h.commits τ request hserves htype
      exact ((h.covered hdelivered).1.succ hdelivered).of_le hle

/-- **One action.** -/
theorem InSequence.exec (h : InSequence n w) (hleader : (w.nodes n).isLeader = true)
    (hpre : Pre cluster τ a w) (hexec : World.exec τ a c w = some (r, w')) : InSequence n w' := by
  have hmono := (World.exec_mono hexec).1
  obtain ⟨hnamed, hcursors⟩ := h.cursors_exec hpre hexec
  refine ⟨toldLeader_exec hleader h.told hexec, h.seen_exec hpre hexec, hnamed,
    fun groupId topic partition => (hcursors groupId topic partition).mono hmono, ?_⟩
  intro τ' request hserves htype
  unfold World.Serves at hserves
  rw [(World.exec_history hexec).2] at hserves
  exact (h.commits τ' request hserves htype).mono hmono

/-- **One step of the environment.** -/
theorem InSequence.env {k : Nat} {e : EnvStep} {started : Option (Program (Option Response))}
    (h : InSequence n w) (hI : Inv cluster w) (hG : (honestCommits n).env w e)
    (henv : World.env k e w = some (w', started)) : InSequence n w' := by
  have hmono := (World.env_mono henv).1
  obtain ⟨now, alive, hnode⟩ := (World.env_cases henv).1.nodes n
  refine ⟨h.told.env (fun _ h => h) hI henv, h.seen.env SeenCovered.mono hI henv, ?_, ?_, ?_⟩
  · rw [hnode]
    exact h.named
  · intro groupId topic partition
    rw [hnode]
    exact (h.cursors groupId topic partition).mono hmono
  · rintro τ request ⟨task, htask, htnode, hrequest⟩ htype
    rcases World.env_task henv htask with hold | ⟨-, -, hstarts, -, -⟩
    · exact (h.commits τ request ⟨task, hold, htnode, hrequest⟩ htype).mono hmono
    · exact (hG.2 task request hstarts htnode hrequest htype).mono hmono

/-- The environment delivers nothing. -/
theorem delivered_env {k : Nat} {e : EnvStep} {started : Option (Program (Option Response))}
    (hI : Inv cluster w) (henv : World.env k e w = some (w', started))
    (hdelivered : Delivered w' n groupId topic partition offset) :
    Delivered w n groupId topic partition offset := by
  obtain ⟨τ, request, conn, response, hserves, htype, hg, ht, hp, hdid, hresponse⟩ := hdelivered
  unfold World.Did at hdid
  rw [(World.env_cases henv).1.history] at hdid
  -- the thread of a recorded event was there before
  obtain ⟨n', task, htask, hnode⟩ := hI.ran _ hdid
  obtain ⟨task', htask', hnode', hrequest⟩ := hserves
  rw [(World.env_mono henv).1.task htask, Option.some.injEq] at htask'
  subst htask'
  exact ⟨τ, request, conn, response, ⟨task, htask, hnode', hrequest⟩, htype, hg, ht, hp, hdid,
    hresponse⟩

end InSequence

/-! ### Delivery in order -/

theorem Setup.inSequence (setup : Setup) (n : Int) : InSequence n setup.pool.world := by
  have hgroups : (setup.node n).groups = {} := by
    unfold Setup.node
    split <;> rfl
  refine ⟨?_, ?_, ?_, ?_, ?_⟩
  · exact fun e he => absurd he (by simp [Setup.pool])
  · exact fun e he => absurd he (by simp [Setup.pool])
  · intro name group hgroup
    change (setup.node n).groups.groups name = some group at hgroup
    rw [hgroups] at hgroup
    exact absurd hgroup (by simp)
  · intro groupId topic partition offset hlt
    change offset < (setup.node n).groups.nextOffset groupId topic partition at hlt
    rw [hgroups] at hlt
    exact absurd hlt (Nat.not_lt_zero _)
  · rintro τ request ⟨task, htask, -⟩
    exact absurd htask (by simp [Setup.pool])

/-- **At least once, without gaps.** In every state, the offsets delivered to a group are
    the first `d`, its cursor is among them or right after them, and what a step delivers
    is a repeat or offset `d`. -/
theorem deliveries_in_order {setup : Setup} {n : Int} {p : ClusterPool}
    (h : Reachable clusterMachine (honestCommits n) setup.pool p) (groupId topic : Bytes)
    (partition : Int) :
    ∃ d, (∀ offset, Delivered p.world n groupId topic partition offset ↔ offset < d) ∧
      (p.world.nodes n).groups.nextOffset groupId topic partition ≤ d ∧
      ∀ l p', clusterMachine.step p l = some p' → ∀ offset,
        Delivered p'.world n groupId topic partition offset → offset < d ∨ offset = d := by
  classical
  obtain ⟨hI, hS, hseq⟩ := cluster_invariant (J := InSequence n)
    (fun _ hJ hact hpre hexec => hJ.exec hact hpre hexec)
    (fun hI hJ hG henv => hJ.env hI hG henv) setup.inv setup.allSafe (setup.inSequence n) h
  -- the first offset that was not delivered; the log is finite, so there is one
  have hsome : ∃ d, ¬ Delivered p.world n groupId topic partition d :=
    ⟨_, fun hd => absurd (hseq.covered hd).2 (Nat.lt_irrefl _)⟩
  have hd := Nat.find_spec hsome
  have hbound : ∀ {bound}, Covered p.world n groupId topic partition bound →
      bound ≤ Nat.find hsome := by
    intro bound hcovered
    by_contra hlt
    exact hd (hcovered _ (Nat.not_le.mp hlt))
  refine ⟨Nat.find hsome, fun offset => ⟨fun hdelivered => ?_, fun hlt => ?_⟩, ?_, ?_⟩
  · exact hbound ((hseq.covered hdelivered).1.succ hdelivered)
  · exact not_not.mp (Nat.find_min hsome hlt)
  · exact hbound (hseq.cursors groupId topic partition)
  · intro l p' hstep offset hdelivered
    apply Nat.lt_or_eq_of_le
    rcases Machine.step_cases hstep with ⟨τ, c, a, k, r, -, hprog, hexec, -⟩ |
      ⟨e, started, -, henv, -⟩
    · have hpre : Pre setup.cluster τ a p.world :=
        (hS τ _ hprog p.world (clusterRely.refl τ _) hI trivial).1
      rcases hseq.delivered_exec hpre hexec hdelivered with hold | hcovered
      · exact hbound (hseq.covered hold).1
      · exact hbound hcovered
    · exact hbound (hseq.covered (delivered_env hI henv hdelivered)).1

/-- Does an event deliver the offset that a request commits? -/
def delivers? (w : World) (n : Int) (commit : Request) (e : Event) : Bool :=
  match e with
  | ⟨τ, .net (.respond _ response), _⟩ =>
    response.success && decide (response.appendedOffset = commit.fetchOffset) &&
      (w.tasks[τ]?).any (fun task => decide (task.node = n) && task.request?.any (fun request =>
        decide (request.type = .groupFetch ∧ request.groupId = commit.groupId ∧
          request.topic = commit.topic ∧ request.partition = commit.partition)))
  | _ => false

theorem delivered_of_check {w : World} {n : Int} {commit : Request}
    (h : w.history.any (delivers? w n commit) = true) :
    Delivered w n commit.groupId commit.topic commit.partition commit.fetchOffset := by
  obtain ⟨e, he, hcheck⟩ := List.any_eq_true.mp h
  unfold delivers? at hcheck
  split at hcheck
  · next τ conn response result =>
    obtain ⟨hresponse, htask⟩ := Bool.and_eq_true_iff.mp hcheck
    obtain ⟨hs, hoffset⟩ := Bool.and_eq_true_iff.mp hresponse
    obtain ⟨task, ht, htask⟩ := (Option.any_eq_true _ _).mp htask
    obtain ⟨hnode, hrequest⟩ := Bool.and_eq_true_iff.mp htask
    obtain ⟨request, hr, hfields⟩ := (Option.any_eq_true _ _).mp hrequest
    obtain ⟨htype, hg, htopic, hp⟩ := of_decide_eq_true hfields
    exact ⟨τ, request, conn, response, ⟨task, ht, of_decide_eq_true hnode, hr⟩, htype, hg,
      htopic, hp, he, hs, of_decide_eq_true hoffset⟩
  · exact absurd hcheck (by simp)

/-- The check for `honestCommits`; commits are taken from clients only. -/
def honestCommits? (n : Int) (p : ClusterPool) (l : Label Choice EnvStep) : Bool :=
  (p.world.nodes n).isLeader &&
    match l with
    | .env (.client _ payload) =>
      (parseRequest payload).type ≠ .commitOffset ||
        p.world.history.any (delivers? p.world n (parseRequest payload))
    | .env (.accept id) =>
      (p.world.conns[id]?).all (fun c => (parseRequest c.payload).type ≠ .commitOffset)
    | _ => true

/-- The check decides the guard. -/
theorem honestCommits_allows (n : Int) (p : ClusterPool) (l : Label Choice EnvStep)
    (h : honestCommits? n p l = true) : (honestCommits n).Allows p l := by
  obtain ⟨hleader, hcheck⟩ := Bool.and_eq_true_iff.mp h
  cases l with
  | run τ c => exact fun _ _ _ => hleader
  | env e =>
    refine ⟨hleader, fun task request hstarts _ hrequest htype => ?_⟩
    cases hstarts with
    | client m payload =>
      obtain rfl := Option.some.inj hrequest
      rcases Bool.or_eq_true_iff.mp hcheck with hother | hdelivers
      · exact absurd htype (of_decide_eq_true hother)
      · exact delivered_of_check hdelivers
    | accept id c hc =>
      obtain rfl := Option.some.inj hrequest
      dsimp only at hcheck
      rw [hc] at hcheck
      exact absurd htype (of_decide_eq_true hcheck)
    | heartbeat m => exact absurd hrequest (by simp [Task.request?])

/-- Requests of member `m` of group `g` on partition 0 of topic `t`. -/
def groupRequest (type : RequestType) (offset : Nat) : Bytes :=
  encodeRequest
    { type, topic := ofString "t", fetchOffset := offset, groupId := ofString "g",
      memberId := ofString "m" }

/-- A record is produced, a member joins, is delivered the record and commits it. -/
def consumedRecord : List (Label Choice EnvStep) :=
  replicatedProduce ++ [.env (.client 1 (groupRequest .joinGroup 0))] ++ go 2 4 ++
    [.env (.client 1 (groupRequest .groupFetch 0))] ++ go 3 6 ++
    [.env (.client 1 (groupRequest .commitOffset 0))] ++ go 4 3

/-- One record, delivered and its offset committed. -/
theorem deliveries_in_order_consumed :
    ∃ p, Reachable clusterMachine (honestCommits 1) twoBrokers.pool p ∧
      (p.world.nodes 1).groups.nextOffset (ofString "g") (ofString "t") 0 = 1 ∧
      ∃ d, 1 ≤ d ∧
        ∀ offset, Delivered p.world 1 (ofString "g") (ofString "t") 0 offset ↔ offset < d := by
  obtain ⟨p, hreach, hnext⟩ := clusterMachine.exists_reachable (honestCommits_allows 1)
    (fun p => (p.world.nodes 1).groups.nextOffset (ofString "g") (ofString "t") 0 = 1)
    twoBrokers.pool consumedRecord (by decide +kernel)
  obtain ⟨d, hdelivered, hle, -⟩ := deliveries_in_order hreach (ofString "g") (ofString "t") 0
  exact ⟨p, hreach, hnext, d, hnext ▸ hle, hdelivered⟩

end StreamingPlatform
