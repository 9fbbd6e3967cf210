import StreamingPlatform.Broker.Watch
import StreamingPlatform.Cluster.Coverage
import StreamingPlatform.Cluster.Runs

namespace StreamingPlatform

open ByteString Interleave World

/-!
# Cluster — who owns which partition, under concurrent requests

The handlers of a broker run concurrently, and the list of partitions that a join, a leave
or a refresh hands to the group manager was read from the storage engine some time before.
Two things are proved of all runs of a cluster, each with what the monitors of the threads
know (`partitionWatch`) as part of the invariant:

* no partition has two owners in a group, as long as the lists that are read have no
  repetitions (`OwnedOnce`, `owner_unique`);
* once the handlers of a leader have finished, every group covers its topic, as long as the
  lists that are installed are not out of date (`CoveredOrPending`, `no_partition_lost`).

Neither condition is ensured by the code: a topic may be called `t-0` next to a topic `t`
(`owner_not_unique`), and an append may come between the read and the join
(`partition_lost`).
-/

/-! ### Two schedules -/

/-- A produce, served as thread `τ` from beginning to end. -/
def produced (τ : Nat) (topic : Bytes) (partition : Int) : List (Label Choice EnvStep) :=
  .env (.client 1 (produceTo topic partition)) :: go τ 16

/-- A join. -/
def joined (τ : Nat) (memberId : Bytes) : List (Label Choice EnvStep) :=
  .env (.client 1 (joinBy memberId)) :: go τ 4

/-! ### Threads and their monitors -/

variable {k : Nat} {e : EnvStep} {s : Watch} {partitions : List Int}

theorem follows_started {k : Nat} {e : EnvStep} {w w' : World} {prog : Program (Option Response)}
    (h : World.env k e w = some (w', some prog)) :
    Follows partitionWatch Watch.Clean prog {} := by
  rcases (World.env_cases h).2 with ⟨hnone, -⟩ | ⟨task, -, -, -, -, hprog⟩
  · exact absurd hnone (by simp)
  · rw [Option.some.inj hprog, Task.program]
    split
    · exact follows_serve ..
    · exact follows_serve ..
    · exact follows_heartbeat _

/-- A list is installed by the thread that has just read it. -/
theorem Watch.read_of_installs {a : Act} (hok : partitionWatch.ok s a) {node : Node} {topic : Bytes}
    (h : a.installs node = some (topic, partitions)) :
    ∃ topic', s.read = some (topic', partitions) := by
  cases a with
  | net a => exact absurd h (by simp [Act.installs])
  | node a =>
    cases a with
    | join groupId memberId topic₀ partitions₀ =>
      obtain ⟨-, rfl⟩ := Prod.mk.inj (Option.some.inj h)
      exact ⟨topic₀, hok⟩
    | leave groupId memberId partitions₀ =>
      obtain ⟨group, -, heq⟩ := Option.map_eq_some_iff.mp h
      obtain ⟨-, rfl⟩ := Prod.mk.inj heq
      exact hok
    | refreshTopic topic₀ partitions₀ =>
      obtain ⟨-, rfl⟩ := Prod.mk.inj (Option.some.inj h)
      exact ⟨topic₀, hok⟩
    | _ => exact absurd h (by simp [Act.installs])

/-! ### No partition has two owners -/

/-- The topic whose partitions an action reads. -/
def Act.reads? : Act → Option Bytes
  | .node (.partitionsForTopic topic) => some topic
  | _ => none

/-- Runs in which, whenever a handler reads the partitions of a topic, no two open logs of
    its broker give the topic the same partition. -/
def unambiguousReads : Guard Act World EnvStep where
  act w τ a := ∀ topic ∈ a.reads?, ∀ task ∈ w.tasks[τ]?,
    (w.nodes task.node).storage.Unambiguous topic
  env _ _ := True

instance (w : World) (τ : Nat) (a : Act) : Decidable (unambiguousReads.act w τ a) :=
  inferInstanceAs (Decidable (∀ topic ∈ a.reads?, ∀ task ∈ w.tasks[τ]?,
    (w.nodes task.node).storage.Unambiguous topic))

instance (w : World) (e : EnvStep) : Decidable (unambiguousReads.env w e) :=
  inferInstanceAs (Decidable True)

/-- No partition has two owners in a group, and no thread has read a list that would give
    it two. -/
structure OwnedOnce (w : World) (watch : Nat → Watch) : Prop where
  tidy : ∀ n, (w.nodes n).Tidy
  exclusive : ∀ n, (w.nodes n).Exclusive
  read : ∀ τ topic partitions, (watch τ).read = some (topic, partitions) → partitions.Nodup

/-- What a thread has read, after one more action. -/
theorem OwnedOnce.read_next {w w' : World} {watch : Nat → Watch} (h : OwnedOnce w watch) {τ : Nat}
    {a : Act} {c : Choice} {r : a.Result} (hguard : unambiguousReads.act w τ a)
    (hexec : World.exec τ a c w = some (r, w')) {topic : Bytes}
    (hread : (partitionWatch.next (watch τ) a r).read = some (topic, partitions)) :
    partitions.Nodup := by
  cases a with
  | net a => exact h.read τ topic partitions hread
  | node a =>
    cases a with
    | partitionsForTopic topic₀ =>
      obtain ⟨task, s', htask, hstep, -⟩ := World.exec_node hexec
      obtain ⟨hlist, -⟩ := Prod.mk.inj (Option.some.inj hstep)
      obtain ⟨-, rfl⟩ := Prod.mk.inj (Option.some.inj hread)
      rw [← hlist]
      exact (hguard topic₀ rfl task htask).nodup (h.tidy task.node).keys
    | append topic₀ partition message origin =>
      cases origin <;> exact h.read τ topic partitions hread
    | refreshTopic topic₀ partitions₀ =>
      refine h.read τ topic partitions ?_
      rw [← hread]
      show _ = (if (watch τ).pending = some topic₀ then _ else _ : Watch).read
      split <;> rfl
    | _ => exact h.read τ topic partitions hread

theorem OwnedOnce.exec {w w' : World} {watch : Nat → Watch} (h : OwnedOnce w watch) {τ : Nat}
    {a : Act} {c : Choice} {r : a.Result} (hguard : unambiguousReads.act w τ a)
    (hok : partitionWatch.ok (watch τ) a) (hexec : World.exec τ a c w = some (r, w')) :
    OwnedOnce w' (Function.update watch τ (partitionWatch.next (watch τ) a r)) := by
  refine ⟨fun n => ?_, fun n => ?_, fun τ' topic partitions hread => ?_⟩
  · exact World.exec_keeps hexec (h.tidy n) (fun act _ _ heffect => heffect.tidy (h.tidy n))
  · refine World.exec_keeps hexec (h.exclusive n) ?_
    rintro act rfl - heffect
    -- the list was read by this thread
    refine (h.exclusive n).effect (h.tidy n) heffect (fun topic partitions hinstalls => ?_)
    obtain ⟨topic', hread⟩ := Watch.read_of_installs hok hinstalls
    exact h.read τ topic' partitions hread
  · rw [Function.update_apply] at hread
    split at hread
    · exact h.read_next hguard hexec hread
    · exact h.read τ' topic partitions hread

theorem OwnedOnce.env {w w' : World} {watch : Nat → Watch} (h : OwnedOnce w watch)
    {started : Option (Program (Option Response))} (henv : World.env k e w = some (w', started)) :
    OwnedOnce w' watch := by
  refine ⟨fun n => ?_, fun n => ?_, h.read⟩
  · obtain ⟨now, alive, hn⟩ := (World.env_cases henv).1.nodes n
    rw [hn]
    exact ⟨(h.tidy n).keys, (h.tidy n).members⟩
  · obtain ⟨now, alive, hn⟩ := (World.env_cases henv).1.nodes n
    rw [hn]
    exact h.exclusive n

theorem ownedOnce_start (setup : Setup) : OwnedOnce setup.pool.world (fun _ => {}) := by
  refine ⟨setup.node_tidy, fun n name group hgroup => ?_, fun τ topic partitions hread => ?_⟩
  · change (setup.node n).groups.groups name = some group at hgroup
    rw [(setup.node_fresh n).2] at hgroup
    exact absurd hgroup (by simp)
  · exact absurd hread (by simp)

/-- **Exclusive ownership.**  In every run in which the partitions of a topic are only read
    when no two open logs give it the same one, in every state, at every broker, at most one
    member of a group is assigned a partition. -/
theorem owner_unique (setup : Setup) {p : ClusterPool}
    (h : Reachable clusterMachine unambiguousReads setup.pool p) (n : Int)
    (name topic member member' : Bytes) (partition : Int)
    (hmember : (p.world.nodes n).groups.isAssigned name member topic partition = true)
    (hmember' : (p.world.nodes n).groups.isAssigned name member' topic partition = true) :
    member = member' := by
  obtain ⟨watch, howned, -⟩ := partitionWatch.invariant {} (J := OwnedOnce) follows_started
    (fun hJ hguard hok hexec => hJ.exec hguard hok hexec)
    (fun hJ _ _ henv => hJ.env henv) rfl (ownedOnce_start setup) h
  obtain ⟨group, hgroup, -, hp⟩ := ConsumerGroupManager.isAssigned_iff.mp hmember
  obtain ⟨group', hgroup', -, hp'⟩ := ConsumerGroupManager.isAssigned_iff.mp hmember'
  rw [hgroup] at hgroup'
  obtain rfl := Option.some.inj hgroup'
  exact howned.exclusive n name group hgroup partition member member' hp hp'

/-- One member of a group, on one broker. -/
theorem owner_unique_joined : ∃ p, Reachable clusterMachine unambiguousReads oneBroker.pool p ∧
    (p.world.nodes 1).groups.isAssigned (ofString "g") (ofString "a") (ofString "t") 0 = true ∧
    ∀ member,
      (p.world.nodes 1).groups.isAssigned (ofString "g") member (ofString "t") 0 = true →
      ofString "a" = member := by
  obtain ⟨p, hreach, ha⟩ := clusterMachine.exists_reachable unambiguousReads.allows_of_check
    (fun p => (p.world.nodes 1).groups.isAssigned (ofString "g") (ofString "a") (ofString "t") 0
      = true) oneBroker.pool
    (produced 0 (ofString "t") 0 ++ joined 1 (ofString "a") ++ joined 2 (ofString "b"))
    (by decide +kernel)
  exact ⟨p, hreach, ha, fun member hm => owner_unique oneBroker hreach 1 _ _ _ member 0 ha hm⟩

/-- With a record in partition 0 of `t` and one in partition 1 of `t-0`, both members of a
    group on `t` own partition 0. -/
theorem owner_not_unique : ∃ p, Reachable clusterMachine (staysLeader 1) oneBroker.pool p ∧
    (p.world.nodes 1).groups.isAssigned (ofString "g") (ofString "a") (ofString "t") 0 = true ∧
    (p.world.nodes 1).groups.isAssigned (ofString "g") (ofString "b") (ofString "t") 0 = true ∧
    ofString "a" ≠ ofString "b" := by
  obtain ⟨p, hreach, hp⟩ := clusterMachine.exists_reachable (staysLeader_allows 1)
    (fun p =>
      (p.world.nodes 1).groups.isAssigned (ofString "g") (ofString "a") (ofString "t") 0 = true ∧
      (p.world.nodes 1).groups.isAssigned (ofString "g") (ofString "b") (ofString "t") 0 = true)
    oneBroker.pool
    (produced 0 (ofString "t") 0 ++ produced 1 (ofString "t-0") 1 ++
      joined 2 (ofString "a") ++ joined 3 (ofString "b"))
    (by decide +kernel)
  exact ⟨p, hreach, hp.1, hp.2, by decide⟩

/-! ### No partition is lost -/

/-- Runs in which broker `n` is the leader whenever anything happens and its open logs are
    such that the partitions of the topic are read off exactly. -/
def exactLeader (n : Int) (topic : Bytes) : Guard Act World EnvStep where
  act w _ _ := (w.nodes n).isLeader = true ∧ (w.nodes n).storage.Exact topic
  env w _ := (w.nodes n).isLeader = true ∧ (w.nodes n).storage.Exact topic

/-- Such runs in which moreover a list of partitions that is installed in a group of the
    topic is still what would be read at this moment. -/
def currentLists (n : Int) (topic : Bytes) : Guard Act World EnvStep where
  act w τ a := (exactLeader n topic).act w τ a ∧
    (w.RunsAt τ n → ∀ installed ∈ a.installs (w.nodes n), installed.1 = topic →
      installed.2 = (w.nodes n).storage.partitionsForTopic topic)
  env w e := (exactLeader n topic).env w e

instance (n : Int) (topic : Bytes) (w : World) (τ : Nat) (a : Act) :
    Decidable ((exactLeader n topic).act w τ a) :=
  inferInstanceAs (Decidable (_ ∧ _))

instance (n : Int) (topic : Bytes) (w : World) (e : EnvStep) :
    Decidable ((exactLeader n topic).env w e) :=
  inferInstanceAs (Decidable (_ ∧ _))

instance (n : Int) (topic : Bytes) (w : World) (τ : Nat) (a : Act) :
    Decidable ((currentLists n topic).act w τ a) :=
  inferInstanceAs (Decidable (_ ∧ (_ → _)))

instance (n : Int) (topic : Bytes) (w : World) (e : EnvStep) :
    Decidable ((currentLists n topic).env w e) :=
  inferInstanceAs (Decidable ((exactLeader n topic).env w e))

/-- The groups of the topic cover it, or a thread that has appended to the topic has not
    refreshed them yet. -/
structure CoveredOrPending (n : Int) (topic : Bytes) (w : World) (watch : Nat → Watch) :
    Prop where
  tidy : (w.nodes n).Tidy
  leader : ∀ τ, w.RunsAt τ n → (watch τ).follower = false
  covered : (w.nodes n).Covered topic ∨ ∃ τ, w.RunsAt τ n ∧ (watch τ).pending = some topic

/-- A thread of a leader is never told otherwise. -/
theorem follower_next {n : Int} {w w' : World} {watch : Nat → Watch} {τ : Nat} {a : Act}
    {c : Choice} {r : a.Result} (hleader : (w.nodes n).isLeader = true) (hat : w.RunsAt τ n)
    (h : (watch τ).follower = false) (hexec : World.exec τ a c w = some (r, w')) :
    (partitionWatch.next (watch τ) a r).follower = false := by
  cases a with
  | net a => exact h
  | node a =>
    cases a with
    | isLeader =>
      have hstep := World.exec_node_at hexec hat
      obtain ⟨hr, -⟩ := Prod.mk.inj (Option.some.inj hstep)
      show ((watch τ).follower || !r) = false
      rw [h, ← hr, hleader]
      rfl
    | append topic partition message origin => cases origin <;> exact h
    | refreshTopic topic partitions =>
      show (if (watch τ).pending = some topic then _ else _ : Watch).follower = false
      split <;> exact h
    | _ => exact h

/-- A thread that has appended to the topic is relieved only by refreshing it. -/
theorem pending_next {a : Act} (r : a.Result) (hok : partitionWatch.ok s a) {topic : Bytes}
    (hs : s.pending = some topic)
    (hrefresh : ∀ partitions, a ≠ .node (.refreshTopic topic partitions)) :
    (partitionWatch.next s a r).pending = some topic := by
  cases a with
  | net a => exact hs
  | node a =>
    cases a with
    | append topic' partition message origin =>
      -- an append of the thread's own names the same topic again
      cases origin with
      | replica expected => exact hs
      | client =>
        have heq := hok.2.2.resolve_left (by rw [hs]; simp)
        rw [hs] at heq
        rw [Option.some.inj heq]
        rfl
      | batch expected =>
        have heq := hok.2.2.resolve_left (by rw [hs]; simp)
        rw [hs] at heq
        rw [Option.some.inj heq]
        rfl
    | refreshTopic topic' partitions =>
      have hne : topic ≠ topic' := by
        rintro rfl
        exact hrefresh partitions rfl
      show (if s.pending = some topic' then _ else _ : Watch).pending = some topic
      rw [if_neg (by rw [hs]; simpa using hne)]
      exact hs
    | _ => exact hs

/-- A thread of a leader that appends to the topic has to refresh it. -/
theorem pending_append (hleader : s.follower = false) {topic message : Bytes} {partition : Int}
    {origin : AppendOrigin}
    (hok : partitionWatch.ok s (.node (.append topic partition message origin))) (r : Nat) :
    (partitionWatch.next s (.node (.append topic partition message origin)) r).pending
      = some topic := by
  cases origin with
  | client => rfl
  | batch expected => rfl
  | replica expected =>
    have hfollower : s.follower = true := hok.2.2
    rw [hleader] at hfollower
    exact absurd hfollower (by simp)

namespace CoveredOrPending

variable {n : Int} {topic : Bytes} {w w' : World} {watch : Nat → Watch} {τ : Nat} {a : Act}
  {c : Choice} {r : a.Result}

/-- A refresh of the topic at the broker itself. -/
theorem covered_of_refresh (h : CoveredOrPending n topic w watch)
    (hguard : (currentLists n topic).act w τ a) (hat : w.RunsAt τ n)
    (hexec : World.exec τ a c w = some (r, w')) (ha : a = .node (.refreshTopic topic partitions)) :
    (w'.nodes n).Covered topic := by
  subst ha
  obtain ⟨⟨-, hexact⟩, hlist⟩ := hguard
  obtain ⟨-, hnode⟩ := Prod.mk.inj (Option.some.inj (World.exec_node_at hexec hat))
  have hcurrent : partitions = _ := hlist hat (topic, partitions) rfl rfl
  rw [← hnode, hcurrent]
  exact Node.covered_refreshTopic h.tidy hexact

/-- Any other action, an append to the topic at the broker itself apart. -/
theorem covered_of_other (h : CoveredOrPending n topic w watch)
    (hcovered : (w.nodes n).Covered topic) (hguard : (currentLists n topic).act w τ a)
    (hok : partitionWatch.ok (watch τ) a) (hexec : World.exec τ a c w = some (r, w'))
    (ha : w.RunsAt τ n → ∀ partition message origin,
      a ≠ .node (.append topic partition message origin)) : (w'.nodes n).Covered topic := by
  obtain ⟨⟨-, hexact⟩, hlist⟩ := hguard
  refine World.exec_keeps hexec (P := fun s => s.Covered topic) hcovered ?_
  rintro act rfl hat heffect
  refine hcovered.effect h.tidy heffect (fun partitions hinstalls => ?_) ?_
  · exact ⟨hexact, hlist hat (topic, partitions) hinstalls rfl⟩
  · rintro topic' partition message origin rfl
    refine ⟨?_, hok.1, hok.2.1⟩
    rintro rfl
    exact ha hat partition message origin rfl

theorem exec (h : CoveredOrPending n topic w watch) (hguard : (currentLists n topic).act w τ a)
    (hok : partitionWatch.ok (watch τ) a) (hexec : World.exec τ a c w = some (r, w')) :
    CoveredOrPending n topic w'
      (Function.update watch τ (partitionWatch.next (watch τ) a r)) := by
  have hruns : ∀ {τ' : Nat}, w'.RunsAt τ' n ↔ w.RunsAt τ' n := by
    intro τ'
    unfold World.RunsAt
    rw [(World.exec_history hexec).2]
  refine ⟨?_, fun τ' hτ' => ?_, ?_⟩
  · exact World.exec_keeps hexec h.tidy (fun act _ _ heffect => heffect.tidy h.tidy)
  · by_cases hsame : τ' = τ
    · subst hsame
      rw [Function.update_self]
      exact follower_next hguard.1.1 (hruns.mp hτ') (h.leader τ' (hruns.mp hτ')) hexec
    · rw [Function.update_of_ne hsame]
      exact h.leader τ' (hruns.mp hτ')
  · by_cases hrefresh : w.RunsAt τ n ∧ ∃ partitions, a = .node (.refreshTopic topic partitions)
    · obtain ⟨hat, partitions, ha⟩ := hrefresh
      exact .inl (h.covered_of_refresh hguard hat hexec ha)
    rcases h.covered with hcovered | ⟨τ', hτ', hpending⟩
    · by_cases happend : w.RunsAt τ n ∧
          ∃ partition message origin, a = .node (.append topic partition message origin)
      · -- from here on the thread has a refresh to do
        obtain ⟨hat, partition, message, origin, rfl⟩ := happend
        refine .inr ⟨τ, hruns.mpr hat, ?_⟩
        rw [Function.update_self]
        exact pending_append (h.leader τ hat) hok r
      · refine .inl (h.covered_of_other hcovered hguard hok hexec ?_)
        exact fun hat partition message origin ha =>
          happend ⟨hat, partition, message, origin, ha⟩
    · refine .inr ⟨τ', hruns.mpr hτ', ?_⟩
      by_cases hsame : τ' = τ
      · subst hsame
        rw [Function.update_self]
        exact pending_next r hok hpending (fun partitions ha => hrefresh ⟨hτ', partitions, ha⟩)
      · rw [Function.update_of_ne hsame]
        exact hpending

theorem env (h : CoveredOrPending n topic w watch) {started : Option (Program (Option Response))}
    (hk : watch k = {}) (henv : World.env k e w = some (w', started)) :
    CoveredOrPending n topic w' watch := by
  obtain ⟨now, alive, hn⟩ := (World.env_cases henv).1.nodes n
  refine ⟨?_, fun τ hτ => ?_, ?_⟩
  · rw [hn]
    exact ⟨h.tidy.keys, h.tidy.members⟩
  · obtain ⟨task, htask, hnode⟩ := hτ
    rcases World.env_task henv htask with hold | ⟨-, rfl, -⟩
    · exact h.leader τ ⟨task, hold, hnode⟩
    · rw [hk]
  · rcases h.covered with hcovered | ⟨τ, hτ, hpending⟩
    · refine .inl ?_
      rw [hn]
      exact hcovered
    · exact .inr ⟨τ, (World.env_mono henv).1.runsAt hτ, hpending⟩

end CoveredOrPending

theorem coveredOrPending_start (setup : Setup) (n : Int) (topic : Bytes) :
    CoveredOrPending n topic setup.pool.world (fun _ => {}) :=
  ⟨setup.node_tidy n, fun _ _ => rfl, .inl (setup.node_covered n topic)⟩

/-- All handlers at broker `n` have finished. -/
def Idle (p : ClusterPool) (n : Int) : Prop :=
  ∀ τ < p.progs.length, p.world.RunsAt τ n → ((p.progs[τ]?).bind Prog.result?).isSome = true

instance (p : ClusterPool) (n : Int) : Decidable (Idle p n) :=
  inferInstanceAs (Decidable (∀ τ < p.progs.length, p.world.RunsAt τ n →
    ((p.progs[τ]?).bind Prog.result?).isSome = true))

/-- A thread that has finished has refreshed whatever it has appended to. -/
theorem Idle.pending_eq {p : ClusterPool} {n : Int} (h : Idle p n)
    (hlength : p.progs.length = p.world.tasks.length) {watch : Nat → Watch}
    (hfollows : ∀ τ prog, p.progs[τ]? = some prog →
      Follows partitionWatch Watch.Clean prog (watch τ)) {τ : Nat} (hτ : p.world.RunsAt τ n) :
    (watch τ).pending = none := by
  have hlt : τ < p.progs.length := by
    obtain ⟨task, htask, -⟩ := hτ
    rw [hlength]
    exact (List.getElem?_eq_some_iff.mp htask).1
  obtain ⟨result, hresult⟩ := Option.isSome_iff_exists.mp (h τ hlt hτ)
  obtain ⟨prog, hprog, hret⟩ := Option.bind_eq_some_iff.mp hresult
  rw [Prog.eq_ret_of_result? hret] at hprog
  exact hfollows τ _ hprog

/-- **No lost partition.**  In every run at whose steps broker `n` is the leader, the
    partitions of the topic are read off exactly and no list that is out of date is
    installed: once the handlers of the broker have finished, every partition of the topic
    is assigned to exactly one member of every group of the topic. -/
theorem no_partition_lost (setup : Setup) (n : Int) (topic : Bytes) {p : ClusterPool}
    (h : Reachable clusterMachine (currentLists n topic) setup.pool p) (hidle : Idle p n)
    {name : Bytes} {group : Group} (hgroup : (p.world.nodes n).groups.groups name = some group)
    (htopic : group.topic = topic) {partition : Int}
    (hlog : (p.world.nodes n).storage.HasPartition topic partition) :
    ∃! member, member ∈ group.members ∧
      (p.world.nodes n).groups.isAssigned name member topic partition = true := by
  obtain ⟨watch, hJ, hfollows⟩ := partitionWatch.invariant {} (J := CoveredOrPending n topic)
    follows_started (fun hJ hguard hok hexec => hJ.exec hguard hok hexec)
    (fun hJ _ hk henv => hJ.env hk henv) rfl (coveredOrPending_start setup n topic) h
  have hcovers : group.Covers (p.world.nodes n).storage := by
    rcases hJ.covered with hcovered | ⟨τ, hτ, hpending⟩
    · exact hcovered name group hgroup htopic
    · rw [hidle.pending_eq (length_progs h) hfollows hτ] at hpending
      exact absurd hpending (by simp)
  have hassigned : ∀ member, (p.world.nodes n).groups.isAssigned name member topic partition = true
      ↔ partition ∈ group.owned member := by
    intro member
    rw [ConsumerGroupManager.isAssigned_iff, hgroup]
    simp [htopic]
  obtain ⟨member, hmember, howned⟩ := (hcovers.owned partition).mpr (htopic ▸ hlog)
  refine ⟨member, ⟨hmember, (hassigned member).mpr howned⟩, ?_⟩
  rintro member' ⟨-, hmember'⟩
  exact hcovers.exclusive partition member' member ((hassigned member').mp hmember') howned

/-- A partition that appears after the member has joined. -/
theorem no_partition_lost_produced :
    ∃ p group, Reachable clusterMachine (currentLists 1 (ofString "t")) oneBroker.pool p ∧
      (p.world.nodes 1).groups.groups (ofString "g") = some group ∧
      ∃! member, member ∈ group.members ∧
        (p.world.nodes 1).groups.isAssigned (ofString "g") member (ofString "t") 1 = true := by
  obtain ⟨p, hreach, hidle, htopic, hlog⟩ := clusterMachine.exists_reachable
    (currentLists 1 (ofString "t")).allows_of_check
    (fun p => Idle p 1 ∧
      ((p.world.nodes 1).groups.groups (ofString "g")).map Group.topic = some (ofString "t") ∧
      (p.world.nodes 1).storage.HasPartition (ofString "t") 1) oneBroker.pool
    (produced 0 (ofString "t") 0 ++ joined 1 (ofString "a") ++ produced 2 (ofString "t") 1)
    (by decide +kernel)
  obtain ⟨group, hgroup, htopic⟩ := Option.map_eq_some_iff.mp htopic
  exact ⟨p, group, hreach, hgroup, no_partition_lost oneBroker 1 _ hreach hidle hgroup htopic hlog⟩

/-- A join reads that `t` has partition 0.  Before it gets to the group manager, a produce
    opens partition 1 and refreshes the groups of `t`, of which there is none yet.  The join
    then installs the old list, and partition 1 has no owner. -/
theorem partition_lost :
    ∃ p, Reachable clusterMachine (exactLeader 1 (ofString "t")) oneBroker.pool p ∧ Idle p 1 ∧
      (p.world.nodes 1).storage.HasPartition (ofString "t") 1 ∧
      ∃ group, (p.world.nodes 1).groups.groups (ofString "g") = some group ∧
        group.topic = ofString "t" ∧ ∀ member ∈ group.members,
          (p.world.nodes 1).groups.isAssigned (ofString "g") member (ofString "t") 1 = false := by
  obtain ⟨p, hreach, hidle, hlog, htopic, hmembers⟩ := clusterMachine.exists_reachable
    (exactLeader 1 (ofString "t")).allows_of_check
    (fun p => Idle p 1 ∧ (p.world.nodes 1).storage.HasPartition (ofString "t") 1 ∧
      ((p.world.nodes 1).groups.groups (ofString "g")).map Group.topic = some (ofString "t") ∧
      ∀ group ∈ ((p.world.nodes 1).groups.groups (ofString "g")).map Group.members,
        ∀ member ∈ group,
          (p.world.nodes 1).groups.isAssigned (ofString "g") member (ofString "t") 1 = false)
    oneBroker.pool
    (produced 0 (ofString "t") 0 ++
      -- the join gets as far as reading the partitions
      [.env (.client 1 (joinBy (ofString "a")))] ++ go 1 2 ++
      produced 2 (ofString "t") 1 ++ go 1 2)
    (by decide +kernel)
  obtain ⟨group, hgroup, htopic⟩ := Option.map_eq_some_iff.mp htopic
  refine ⟨p, hreach, hidle, hlog, group, hgroup, htopic, ?_⟩
  exact hmembers group.members (by rw [hgroup]; rfl)

end StreamingPlatform
