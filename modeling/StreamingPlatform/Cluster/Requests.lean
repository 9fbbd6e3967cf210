import StreamingPlatform.Cluster.Alone
import StreamingPlatform.Cluster.Coverage
import StreamingPlatform.Cluster.Runs

namespace StreamingPlatform

open ByteString Interleave

/-!
# Cluster — requests handled one after another

With nobody in between, the list of partitions that a handler installs is never out of
date, and after every request the groups of a leader cover their topics
(`covered_after_requests`).  Two things can spoil that: logs of another topic whose names
look like partitions of this one, and a leave that names another topic than the group's,
for it is the topic of the request whose partitions are installed
(`leave_installs_other_topic`).
-/

/-- The states that a broker reaches by handling requests, each of which `G` allows in the
    state that it comes in.  In between it may do anything that leaves logs and groups
    alone. -/
inductive Handled (G : Node → Request → Prop) (s₀ : Node) : Node → Prop where
  | start : Handled G s₀ s₀
  | request {s s' : Node} (τ : Nat) (payload : Bytes) (response : Response) :
      Handled G s₀ s → G s (parseRequest payload) →
      (processRequest s.config payload none).Runs (Node.alone τ) s response s' →
      Handled G s₀ s'
  | meanwhile {s s' : Node} : Handled G s₀ s → s.Alike s' → Handled G s₀ s'

/-- Produces, joins and leaves at a leader. -/
def groupTraffic (s : Node) (request : Request) : Prop :=
  s.isLeader = true ∧ request.type ∈ [.produce, .batchProduce, .joinGroup, .leaveGroup]

instance (s : Node) (request : Request) : Decidable (groupTraffic s request) :=
  inferInstanceAs (Decidable (_ ∧ _))

/-- Of these, the ones on a topic whose partitions are read off exactly; a leave moreover
    names the topic of the group, if there is such a group. -/
def ownTopic (s : Node) (request : Request) : Prop :=
  groupTraffic s request ∧ s.storage.Exact request.topic ∧
    (request.type = .leaveGroup →
      ∀ topic ∈ (s.groups.groups request.groupId).map Group.topic, topic = request.topic)

instance (s : Node) (request : Request) : Decidable (ownTopic s request) :=
  inferInstanceAs (Decidable (_ ∧ _ ∧ (_ → _)))

/-! ### Coverage of all topics -/

/-- All groups of a broker cover their topics. -/
structure Node.AllCovered (s : Node) : Prop where
  tidy : s.Tidy
  covered : ∀ topic, s.Covered topic

namespace Node.AllCovered

variable {s s' : Node} {topic groupId memberId : Bytes}

theorem alike (h : s.AllCovered) (hs : s.Alike s') : s'.AllCovered := by
  constructor
  · refine ⟨?_, fun name group hgroup => ?_⟩
    · rw [hs.storage]
      exact h.tidy.keys
    · rw [hs.groups] at hgroup
      exact h.tidy.members name group hgroup
  · intro topic name group hgroup htopic
    rw [hs.groups] at hgroup
    rw [hs.storage]
    exact h.covered topic name group hgroup htopic

theorem afterProduce (h : s.AllCovered) (hexact : s.storage.Exact topic) {partition : Int}
    (hpos : 0 ≤ partition) (hint : IsInt32 partition) (messages : List Bytes) :
    (s.afterProduce topic partition messages).AllCovered := by
  have happends : ∀ a ∈ messages.map (fun message => (topic, partition, message)),
      a.1 = topic ∧ 0 ≤ a.2.1 ∧ IsInt32 a.2.1 := by
    intro a ha
    obtain ⟨message, -, rfl⟩ := List.mem_map.mp ha
    exact ⟨rfl, hpos, hint⟩
  let s₁ : Node := { s with
    storage := s.storage.appendAll (messageLogs s.disk)
      (messages.map (fun message => (topic, partition, message))) }
  have hexact₁ : s₁.storage.Exact topic := hexact.appendAll _ happends
  have htidy₁ : s₁.Tidy := ⟨StorageEngine.nodup_keys_appendAll _ h.tidy.keys _, h.tidy.members⟩
  have hrefresh : NodeAct.Effect 0 s₁ (.refreshTopic topic (s₁.storage.partitionsForTopic topic))
      (s.afterProduce topic partition messages) := .refreshTopic topic _
  refine ⟨hrefresh.tidy htidy₁, fun topic' => ?_⟩
  by_cases htopic : topic' = topic
  · subst htopic
    exact Node.covered_refreshTopic htidy₁ hexact₁
  · -- another topic: neither its logs nor its groups change
    have hcovered₁ : s₁.Covered topic' := by
      intro name group hgroup hname
      refine (h.covered topic' name group hgroup hname).congr (fun p => ?_)
      refine StorageEngine.hasPartition_appendAll _ (fun a ha => ?_)
      obtain ⟨ha, hbounds⟩ := happends a ha
      exact ⟨fun heq => htopic (hname.symm.trans (heq.symm.trans ha)), hbounds⟩
    refine hcovered₁.effect htidy₁ hrefresh (fun partitions hinstalls => ?_) ?_
    · exact absurd (Prod.mk.inj (Option.some.inj hinstalls)).1.symm htopic
    · intro _ _ _ _ heq
      exact absurd heq (by simp)

theorem afterJoin (h : s.AllCovered) (hexact : s.storage.Exact topic) :
    (s.afterJoin groupId memberId topic).AllCovered := by
  have hjoin : NodeAct.Effect 0 s
      (.join groupId memberId topic (s.storage.partitionsForTopic topic))
      (s.afterJoin groupId memberId topic) := .join ..
  refine ⟨hjoin.tidy h.tidy, fun topic' => ?_⟩
  refine (h.covered topic').effect h.tidy hjoin (fun partitions hinstalls => ?_) ?_
  · obtain ⟨rfl, rfl⟩ := Prod.mk.inj (Option.some.inj hinstalls)
    exact ⟨hexact, rfl⟩
  · intro _ _ _ _ heq
    exact absurd heq (by simp)

theorem afterLeave (h : s.AllCovered) (hexact : s.storage.Exact topic)
    (htopic : ∀ topic' ∈ (s.groups.groups groupId).map Group.topic, topic' = topic) :
    (s.afterLeave groupId memberId topic).AllCovered := by
  have hleave : NodeAct.Effect 0 s (.leave groupId memberId (s.storage.partitionsForTopic topic))
      (s.afterLeave groupId memberId topic) := .leave ..
  refine ⟨hleave.tidy h.tidy, fun topic' => ?_⟩
  refine (h.covered topic').effect h.tidy hleave (fun partitions hinstalls => ?_) ?_
  · -- what is installed are the partitions of the request's topic, which is the group's
    obtain ⟨group, hgroup, heq⟩ := Option.map_eq_some_iff.mp hinstalls
    obtain ⟨rfl, rfl⟩ := Prod.mk.inj heq
    have hsame : group.topic = topic := htopic _ (by rw [hgroup]; rfl)
    rw [hsame]
    exact ⟨hexact, rfl⟩
  · intro _ _ _ _ heq
    exact absurd heq (by simp)

/-- **One request.** -/
theorem request (h : s.AllCovered) {payload : Bytes} (hG : ownTopic s (parseRequest payload))
    {τ : Nat} {response : Response}
    (hrun : (processRequest s.config payload none).Runs (Node.alone τ) s response s') :
    s'.AllCovered := by
  obtain ⟨⟨hleader, htype⟩, hexact, hleave⟩ := hG
  have hclient : (parseRequest payload).type.isInterBroker = false ∧
      (parseRequest payload).type ≠ .error := by
    generalize (parseRequest payload).type = type at htype
    revert htype
    revert type
    decide
  have hfits := parseRequest_fits hclient.2
  rw [processRequest_client _ hclient.1] at hrun
  generalize parseRequest payload = request at *
  -- PRODUCE and BATCH_PRODUCE differ in what they append only
  have hproduce : ∀ messages, s.Alike s' ∨ (0 ≤ request.partition ∧
      (s.afterProduce request.topic request.partition messages).Alike s') → s'.AllCovered := by
    rintro messages (hs | ⟨hpos, hs⟩)
    · exact h.alike hs
    · exact (h.afterProduce hexact hpos hfits.partition messages).alike hs
  simp only [List.mem_cons, List.not_mem_nil, or_false] at htype
  rcases htype with htype | htype | htype | htype
  · simp only [handleRequest, htype] at hrun
    exact hproduce _ (runs_handleProduce hleader hrun).2
  · simp only [handleRequest, htype] at hrun
    exact hproduce _ (runs_handleBatchProduce hleader hfits.count hrun).2
  · simp only [handleRequest, htype] at hrun
    rcases (runs_handleJoinGroup hleader hrun).2 with hs | hs
    · exact h.alike hs
    · exact (h.afterJoin hexact).alike hs
  · simp only [handleRequest, htype] at hrun
    rcases (runs_handleLeaveGroup hleader hrun).2 with hs | hs
    · exact h.alike hs
    · exact (h.afterLeave hexact (hleave htype)).alike hs

end Node.AllCovered

/-- **A run of requests.** -/
theorem Handled.allCovered {setup : Setup} {n : Int} {s : Node}
    (h : Handled ownTopic (setup.node n) s) : s.AllCovered := by
  induction h with
  | start => exact ⟨setup.node_tidy n, setup.node_covered n⟩
  | request τ payload response _ hG hrun ih => exact ih.request hG hrun
  | meanwhile _ hs ih => exact ih.alike hs

/-! ### Computing runs of requests -/

/-- Handle requests one after another, as long as each passes the check. -/
def handleAll (ok : Node → Request → Bool) : List Bytes → Node → Option Node
  | [], s => some s
  | payload :: payloads, s =>
    if ok s (parseRequest payload) then
      match (processRequest s.config payload none).play (Node.answer none) s with
      | some (_, s') => handleAll ok payloads s'
      | none => none
    else none

theorem handled_of_handleAll {G : Node → Request → Prop} {ok : Node → Request → Bool}
    (hok : ∀ s request, ok s request = true → G s request) {payloads : List Bytes}
    {s₀ s s' : Node} (hs : Handled G s₀ s) (h : handleAll ok payloads s = some s') :
    Handled G s₀ s' := by
  induction payloads generalizing s with
  | nil => exact Option.some.inj h ▸ hs
  | cons payload payloads ih =>
    rw [handleAll] at h
    split at h
    · next hpayload =>
      split at h
      · next response s₁ hplay =>
        exact ih (.request 0 payload response hs (hok _ _ hpayload) (runs_of_answer hplay)) h
      · exact absurd h (by simp)
    · exact absurd h (by simp)

/-- What is seen to be true after some requests. -/
theorem exists_handled {G : Node → Request → Prop} [∀ s request, Decidable (G s request)]
    (P : Node → Prop) [DecidablePred P] (s : Node) (payloads : List Bytes)
    (h : (handleAll (fun s request => decide (G s request)) payloads s).any
      (fun s' => decide (P s')) = true) : ∃ s', Handled G s s' ∧ P s' := by
  cases hall : handleAll (fun s request => decide (G s request)) payloads s with
  | none => rw [hall] at h; exact absurd h (by simp)
  | some s' =>
    rw [hall] at h
    exact ⟨s', handled_of_handleAll (fun _ _ => of_decide_eq_true) .start hall,
      of_decide_eq_true h⟩

/-- **Assignments cover the subscribed topic.**  After every request of a run of produces,
    joins and leaves at a leader, in which every request is on a topic whose partitions are
    read off exactly and every leave names the topic of its group, every group assigns the
    partitions for which its topic has a log to its members, and nothing else to anybody. -/
theorem covered_after_requests (setup : Setup) (n : Int) {s : Node}
    (h : Handled ownTopic (setup.node n) s) {name : Bytes} {group : Group}
    (hgroup : s.groups.groups name = some group) (p : Int) :
    (s.storage.HasPartition group.topic p → ∃ member ∈ group.members,
      s.groups.isAssigned name member group.topic p = true) ∧
    ∀ member, s.groups.isAssigned name member group.topic p = true →
      s.storage.HasPartition group.topic p := by
  have hall := h.allCovered
  have hassigned : ∀ member, s.groups.isAssigned name member group.topic p = true
      ↔ p ∈ group.owned member := by
    intro member
    rw [ConsumerGroupManager.isAssigned_iff, hgroup]
    simp
  obtain ⟨-, hmembers, howned⟩ := hall.covered group.topic name group hgroup rfl
  constructor
  · intro hlog
    obtain ⟨member, hmember, hp⟩ := (howned p).mpr hlog
    exact ⟨member, hmember, (hassigned member).mpr hp⟩
  · intro member hmember
    have hp := (hassigned member).mp hmember
    exact (howned p).mp ⟨member, hmembers p member hp, hp⟩

/-- Two partitions and one member. -/
theorem covered_after_requests_two : ∃ s group,
    Handled ownTopic (oneBroker.node 1) s ∧ s.groups.groups (ofString "g") = some group ∧
      ((s.storage.HasPartition group.topic 1 → ∃ member ∈ group.members,
        s.groups.isAssigned (ofString "g") member group.topic 1 = true) ∧
      ∀ member, s.groups.isAssigned (ofString "g") member group.topic 1 = true →
        s.storage.HasPartition group.topic 1) := by
  obtain ⟨s, hs, hsome⟩ := exists_handled (G := ownTopic)
    (fun s => (s.groups.groups (ofString "g")).isSome = true) (oneBroker.node 1)
    [produceTo (ofString "t") 0, joinBy (ofString "a"), joinBy (ofString "b"),
      produceTo (ofString "t") 1, leaveBy (ofString "b") (ofString "t")] (by decide +kernel)
  obtain ⟨group, hgroup⟩ := Option.isSome_iff_exists.mp hsome
  exact ⟨s, group, hs, hgroup, covered_after_requests oneBroker 1 hs hgroup 1⟩

/-- A leave that names topic `u`, which has a partition 1, leaves the group on `t` with
    partition 1, which `t` does not have, and without partition 0, which it has. -/
theorem leave_installs_other_topic : ∃ s, Handled groupTraffic (oneBroker.node 1) s ∧
    ∃ group, s.groups.groups (ofString "g") = some group ∧ group.topic = ofString "t" ∧
      (s.groups.isAssigned (ofString "g") (ofString "a") (ofString "t") 1 = true ∧
        ¬ s.storage.HasPartition (ofString "t") 1) ∧
      s.storage.HasPartition (ofString "t") 0 ∧ ∀ member ∈ group.members,
        s.groups.isAssigned (ofString "g") member (ofString "t") 0 = false := by
  obtain ⟨s, hs, htopic, hone, hzero, hmembers⟩ := exists_handled (G := groupTraffic)
    (fun s => (s.groups.groups (ofString "g")).map Group.topic = some (ofString "t") ∧
      (s.groups.isAssigned (ofString "g") (ofString "a") (ofString "t") 1 = true ∧
        ¬ s.storage.HasPartition (ofString "t") 1) ∧
      s.storage.HasPartition (ofString "t") 0 ∧
      ∀ members ∈ (s.groups.groups (ofString "g")).map Group.members, ∀ member ∈ members,
        s.groups.isAssigned (ofString "g") member (ofString "t") 0 = false) (oneBroker.node 1)
    [produceTo (ofString "t") 0, produceTo (ofString "u") 1, joinBy (ofString "a"),
      joinBy (ofString "b"), leaveBy (ofString "b") (ofString "u")] (by decide +kernel)
  obtain ⟨group, hgroup, htopic⟩ := Option.map_eq_some_iff.mp htopic
  refine ⟨s, hs, group, hgroup, htopic, hone, hzero, ?_⟩
  exact hmembers group.members (by rw [hgroup]; rfl)

end StreamingPlatform
