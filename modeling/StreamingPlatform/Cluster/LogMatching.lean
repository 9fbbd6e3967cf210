import StreamingPlatform.Cluster.Limits

namespace StreamingPlatform

open ByteString Interleave World

/-!
# Cluster — do the logs match?

Append and replication of a record are separate critical sections, and a follower writes a
replicated record before it compares offsets.  When the order is lost, the logs diverge:
a follower is no longer a prefix of its leader (`follower_log_diverges`), and two brokers
answer committed reads differently (`committed_reads_differ`).

Both properties hold of the runs that keep the order (`InOrder`): whenever a replicated
record or a later record of a batch is appended, the log has exactly the length that the
record's offset asks for.

* `followers_prefix_of_leader` — under one leader, every log is a prefix of the leader's;
* `committed_reads_agree` — with several leaders one after the other, as long as client
  records are appended where the log is longest, all logs stay comparable, and reads agree.
-/

/-! ### Prefixes -/

section Prefixes

variable {α : Type} {l l' : List α} {m : α}

/-- A prefix that is extended by the next element is still a prefix. -/
theorem concat_prefix_of_getElem? (h : l <+: l') (hm : l'[l.length]? = some m) :
    l ++ [m] <+: l' := by
  obtain ⟨rest, rfl⟩ := h
  rw [List.getElem?_append_right le_rfl, Nat.sub_self] at hm
  cases rest with
  | nil => exact absurd hm (by simp)
  | cons m' rest =>
    obtain rfl : m' = m := by simpa using hm
    exact ⟨rest, by simp⟩

/-- Lists of which one is a prefix of the other. -/
def Comparable (l l' : List α) : Prop := l <+: l' ∨ l' <+: l

theorem Comparable.symm (h : Comparable l l') : Comparable l' l := Or.symm h

/-- Of two comparable logs, the shorter one is a prefix. -/
theorem Comparable.prefix_of_length_le (h : Comparable l l') (hlen : l.length ≤ l'.length) :
    l <+: l' := by
  rcases h with h | h
  · exact h
  · rw [h.eq_of_length_le hlen]

/-- Comparable lists agree where both have an element. -/
theorem Comparable.getElem?_eq (h : Comparable l l') {i : Nat} {a b : α} (ha : l[i]? = some a)
    (hb : l'[i]? = some b) : a = b := by
  have hinitial : ∀ {k k' : List α} {x y : α}, k <+: k' → k[i]? = some x → k'[i]? = some y →
      x = y := by
    rintro k k' x y ⟨rest, rfl⟩ hx hy
    rw [List.getElem?_append_left (List.getElem?_eq_some_iff.mp hx).1, hx] at hy
    exact Option.some.inj hy
  rcases h with h | h
  · exact hinitial h ha hb
  · exact (hinitial h hb ha).symm

end Prefixes

/-! ### Appends in order -/

/-- A record with an offset is appended only where the log has that length. -/
def InOrder (w : World) (τ : Nat) : Act → Prop
  | .node (.append topic partition _ (.batch expected)) =>
    ∀ n, w.RunsAt τ n → ((w.nodes n).contents (makeKey topic partition)).length = expected
  | .node (.append topic partition _ (.replica expected)) =>
    ∀ n, w.RunsAt τ n → ((w.nodes n).contents (makeKey topic partition)).length = expected
  | _ => True

/-- `InOrder`, as a check. -/
def inOrder? (w : World) (τ : Nat) : Act → Bool
  | .node (.append topic partition _ (.batch expected))
  | .node (.append topic partition _ (.replica expected)) =>
    (w.tasks[τ]?).all (fun task =>
      ((w.nodes task.node).contents (makeKey topic partition)).length = expected)
  | _ => true

/-- The check decides the order. -/
theorem inOrder_of_check {w : World} {τ : Nat} {a : Act} (h : inOrder? w τ a = true) :
    InOrder w τ a := by
  unfold inOrder? at h
  split at h
  · rintro n ⟨task, htask, rfl⟩
    rw [htask] at h
    exact of_decide_eq_true h
  · rintro n ⟨task, htask, rfl⟩
    rw [htask] at h
    exact of_decide_eq_true h
  · next hbatch hreplica =>
    unfold InOrder
    split
    · exact absurd rfl (hbatch _ _ _ _)
    · exact absurd rfl (hreplica _ _ _ _)
    · trivial

/-- What an event says about where a client's record is. -/
def Placed (w : World) (n : Int) (e : Event) : Prop :=
  match e with
  | ⟨_, .node (.append topic partition message .client), offset⟩ =>
    w.Holds n topic partition offset message ∧ (offset : Nat) < 2 ^ 64
  | ⟨_, .node (.append topic partition message (.batch expected)), _⟩ =>
    w.Holds n topic partition expected message ∧ expected < 2 ^ 64
  | _ => True

variable {n partition : Int} {topic message : Bytes}

/-- A record stays in its place. -/
theorem Placed.mono {w w' : World} {n : Int} {e : Event} (hmono : w.Mono w')
    (h : Placed w n e) : Placed w' n e := by
  unfold Placed at h ⊢
  split
  · exact ⟨hmono.holds h.1, h.2⟩
  · exact ⟨hmono.holds h.1, h.2⟩
  · trivial

section Placed

variable {w w' : World} {τ : Nat}

/-- An append in order puts a client's record where it belongs. -/
theorem placed_exec {a : Act} {c : Choice} {r : a.Result} (h : Recorded Placed w)
    (horder : InOrder w τ a) (hexec : World.exec τ a c w = some (r, w')) : Recorded Placed w' := by
  refine h.exec Placed.mono hexec (fun n hn => ?_)
  -- in order or not, an append returns the length of the log and puts the record there
  have happend : ∀ {topic partition message origin} {offset : Nat},
      World.exec τ (.node (.append topic partition message origin)) c w = some (offset, w') →
      w'.Holds n topic partition offset message ∧ offset < 2 ^ 64 ∧
        offset = ((w.nodes n).contents (makeKey topic partition)).length := by
    intro topic partition message origin offset hexec
    have hstep := World.exec_node_at hexec hn
    obtain ⟨hlen, hroom, -, -⟩ := append_step hstep
    exact ⟨World.Holds.of_append hstep, Nat.lt_of_succ_lt hroom, hlen⟩
  unfold Placed
  split
  · next heq =>
    cases heq
    obtain ⟨hholds, hlt, -⟩ := happend hexec
    exact ⟨hholds, hlt⟩
  · next heq =>
    cases heq
    obtain ⟨hholds, hlt, hlen⟩ := happend hexec
    rw [horder n hn] at hlen
    exact ⟨hlen ▸ hholds, hlen ▸ hlt⟩
  · trivial

/-- Where the records of clients are placed, a sourced record is held by its source. -/
theorem holds_of_sourced {cluster : Membership} (hI : Inv cluster w) (h : Recorded Placed w)
    {offset : Nat} (hsourced : w.Sourced topic partition offset message) :
    offset < 2 ^ 64 ∧ ∃ τ' n, w.RunsAt τ' n ∧ w.Did τ' (.node .isLeader) true ∧
      w.Holds n topic partition offset message := by
  obtain ⟨τ', hleader, happend⟩ := hsourced
  obtain ⟨n, hn⟩ := hI.ran _ hleader
  rcases happend with happend | ⟨actual, happend⟩
  · obtain ⟨hholds, hlt⟩ := h.did happend hn
    exact ⟨hlt, τ', n, hn, hleader, hholds⟩
  · obtain ⟨hholds, hlt⟩ := h.did happend hn
    exact ⟨hlt, τ', n, hn, hleader, hholds⟩

end Placed

/-! ### One leader -/

/-- Broker `L` is the leader, and no other one is. -/
def OneLeader (cluster : Membership) (L : Int) (w : World) : Prop :=
  ∀ b ∈ cluster.brokers, (w.nodes b.brokerId).type = .leader ↔ b.brokerId = L

/-- Runs in which `L` is and stays the only leader. -/
def fixedLeader (cluster : Membership) (L : Int) : Guard Act World EnvStep where
  act w _ _ := OneLeader cluster L w
  env w e := OneLeader cluster L w ∧ brokerTraffic.env w e

instance (cluster : Membership) (L : Int) (w : World) : Decidable (OneLeader cluster L w) :=
  inferInstanceAs (Decidable (∀ b ∈ cluster.brokers, _))

/-- The check for `fixedLeader`. -/
def fixedLeader? (cluster : Membership) (L : Int) (p : ClusterPool)
    (l : Label Choice EnvStep) : Bool :=
  decide (OneLeader cluster L p.world) && clientTraffic p l

/-- The check decides the guard. -/
theorem fixedLeader_allows (cluster : Membership) (L : Int) (p : ClusterPool)
    (l : Label Choice EnvStep) (h : fixedLeader? cluster L p l = true) :
    (fixedLeader cluster L).Allows p l := by
  obtain ⟨hcheck, htraffic⟩ := Bool.and_eq_true_iff.mp h
  have hone : OneLeader cluster L p.world := of_decide_eq_true hcheck
  cases l with
  | run τ c => exact fun _ _ _ => hone
  | env e => exact ⟨hone, clientTraffic_allows p (.env e) htraffic⟩

/-- Runs of that kind in which appends are in order. -/
def fixedLeaderInOrder (cluster : Membership) (L : Int) : Guard Act World EnvStep where
  act w τ a := OneLeader cluster L w ∧ InOrder w τ a
  env w e := OneLeader cluster L w ∧ brokerTraffic.env w e

/-- What an event says about who is the leader. -/
def SawLeader (L : Int) (_ : World) (n : Int) (e : Event) : Prop :=
  match e with
  | ⟨_, .node .isLeader, result⟩ => (result : Bool) = true ↔ n = L
  | _ => True

section OneLeader

variable {cluster : Membership} {L : Int} {w w' : World} {τ : Nat} {a : Act} {c : Choice}
  {r : a.Result}

/-- Only `L` finds itself the leader. -/
theorem sawLeader_exec (hI : Inv cluster w) (hone : OneLeader cluster L w)
    (h : Recorded (SawLeader L) w) (hexec : World.exec τ a c w = some (r, w')) :
    Recorded (SawLeader L) w' := by
  refine h.exec (fun _ h => h) hexec (fun n hn => ?_)
  unfold SawLeader
  split
  · next heq =>
    cases heq
    have hstep := World.exec_node_at hexec hn
    obtain ⟨task, htask, rfl⟩ := hn
    obtain ⟨hmember, hid⟩ := hI.tasks τ task htask
    have hiff := hone _ hmember
    rw [hid] at hiff
    rw [← (Prod.mk.inj (Option.some.inj hstep)).1, ← hiff]
    exact decide_eq_true_iff
  · trivial

/-- Every log of the cluster is a prefix of the one of `L`. -/
def PrefixOf (cluster : Membership) (L : Int) (w : World) : Prop :=
  ∀ b ∈ cluster.brokers, ∀ key,
    (w.nodes b.brokerId).contents key <+: (w.nodes L).contents key

/-- **One step.** The leader's log grows by client records, a follower's by the record
    that the leader has at the same offset. -/
theorem prefixOf_exec (hI : Inv cluster w) (hhonest : w.Honest) (hplaced : Recorded Placed w)
    (hsaw : Recorded (SawLeader L) w) (horder : InOrder w τ a) (hpre : Pre cluster τ a w)
    (hexec : World.exec τ a c w = some (r, w')) (h : PrefixOf cluster L w) :
    PrefixOf cluster L w' := by
  rcases World.exec_contents hexec with hsame | ⟨topic, partition, message, origin, n, rfl, hn,
    hgrown, hother⟩
  · intro b hb key
    rw [hsame, hsame]
    exact h b hb key
  have hlead : ∀ result, w.Did τ (.node .isLeader) result → (result = true ↔ n = L) :=
    fun result hdid => hsaw.did hdid hn
  intro b hb key
  by_cases hleader : n = L
  · -- the leader's log grows
    subst hleader
    by_cases hself : b.brokerId = n
    · rw [hself]
    · rw [hother _ key (.inl hself)]
      refine (h b hb key).trans ?_
      exact ((World.exec_mono hexec).1.nodes n).contents key
  · -- a follower's log grows: the leader holds the record at that offset
    rw [hother L key (.inl (Ne.symm hleader))]
    by_cases hhere : b.brokerId = n ∧ key = makeKey topic partition
    · obtain ⟨rfl, rfl⟩ := hhere
      rw [hgrown]
      cases origin with
      | client => exact absurd ((hlead true hpre).mp rfl) hleader
      | batch expected => exact absurd ((hlead true hpre).mp rfl) hleader
      | replica expected =>
        -- the record came from a thread that saw itself as the leader, so from `L`
        obtain ⟨offset, rfl, hsourced⟩ := hpre.2 hhonest
        obtain ⟨hlt, τ', n', hn', hdid, hholds⟩ := holds_of_sourced hI hplaced hsourced
        obtain rfl : n' = L := (hsaw.did hdid hn').mp rfl
        have hlen := horder _ hn
        rw [Nat.mod_eq_of_lt hlt] at hlen
        exact concat_prefix_of_getElem? (h b hb _) (hlen ▸ hholds)
    · rw [hother _ key (not_and_or.mp hhere)]
      exact h b hb key

end OneLeader

/-- **Log matching under one leader.** As long as appends are in order, every follower's
    log is a prefix of the leader's in every state. -/
theorem followers_prefix_of_leader {setup : Setup} {L : Int}
    (hdisk : ∀ b ∈ setup.cluster.brokers, ∀ key,
      (setup.node b.brokerId).contents key <+: (setup.node L).contents key)
    {p : ClusterPool}
    (h : Reachable clusterMachine (inScope (fixedLeaderInOrder setup.cluster L)) setup.pool p) :
    ∀ b ∈ setup.cluster.brokers, ∀ topic partition, 0 ≤ partition →
      (p.world.nodes b.brokerId).contents (makeKey topic partition)
        <+: (p.world.nodes L).contents (makeKey topic partition) := by
  have hrefines : (inScope (fixedLeaderInOrder setup.cluster L)).Refines brokerTraffic :=
    ⟨fun _ => trivial, fun h => h.2⟩
  have hempty : ∀ {F}, Recorded F setup.pool.world := fun e he => absurd he (by simp [Setup.pool])
  refine fun b hb topic partition _ => (honest_invariant hrefines
    (J := fun w => Recorded Placed w ∧ Recorded (SawLeader L) w ∧ PrefixOf setup.cluster L w)
    ?_ ?_ setup.inv setup.allSafe setup.honest ⟨hempty, hempty, hdisk⟩ h).2.2.2.2.2 b hb _
  · -- an action of a thread
    rintro τ a c w r w' hI hhonest ⟨hplaced, hsaw, hinitial⟩ ⟨⟨hone, horder⟩, -⟩ hpre hexec
    exact ⟨placed_exec hplaced horder hexec, sawLeader_exec hI hone hsaw hexec,
      prefixOf_exec hI hhonest hplaced hsaw horder hpre hexec hinitial⟩
  · -- the environment appends nothing
    rintro k e w w' started hI - ⟨hplaced, hsaw, hinitial⟩ - henv
    refine ⟨hplaced.env Placed.mono hI henv, hsaw.env (fun _ h => h) hI henv, fun b hb key => ?_⟩
    rw [World.env_contents henv, World.env_contents henv]
    exact hinitial b hb key

/-- The check for `fixedLeaderInOrder`. -/
def fixedLeaderInOrder? (cluster : Membership) (L : Int) (p : ClusterPool)
    (l : Label Choice EnvStep) : Bool :=
  fixedLeader? cluster L p l &&
    match l with
    | .run τ _ => (nextAct? p τ).all (inOrder? p.world τ)
    | .env _ => true

/-- The check decides the guard. -/
theorem fixedLeaderInOrder_allows (cluster : Membership) (L : Int) (p : ClusterPool)
    (l : Label Choice EnvStep) (h : fixedLeaderInOrder? cluster L p l = true) :
    (fixedLeaderInOrder cluster L).Allows p l := by
  obtain ⟨hfixed, horder⟩ := Bool.and_eq_true_iff.mp h
  have hallow := fixedLeader_allows cluster L p l hfixed
  cases l with
  | run τ c =>
    intro a k hk
    dsimp only at horder
    rw [nextAct?_eq hk] at horder
    exact ⟨hallow a k hk, inOrder_of_check horder⟩
  | env e => exact hallow

/-- Broker 1 replicates a record to broker 2, which appends it. -/
def inOrderReplication : List (Label Choice EnvStep) :=
  [.env (.client 1 (produceOf [65]))] ++ go 0 9 ++ [.env (.accept 0)] ++ go 1 3

/-- One record, replicated to broker 2. -/
theorem followers_prefix_of_leader_replicated :
    ∃ p, Reachable clusterMachine (inScope (fixedLeaderInOrder twoBrokers.cluster 1))
        twoBrokers.pool p ∧
      (p.world.nodes 2).contents (makeKey (ofString "t") 0) = [[65]] ∧
      ∀ b ∈ twoBrokers.cluster.brokers,
        (p.world.nodes b.brokerId).contents (makeKey (ofString "t") 0)
          <+: (p.world.nodes 1).contents (makeKey (ofString "t") 0) := by
  obtain ⟨p, hreach, hcontents⟩ := clusterMachine.exists_reachable
    (inScope_allows (fixedLeaderInOrder_allows twoBrokers.cluster 1))
    (fun p => (p.world.nodes 2).contents (makeKey (ofString "t") 0) = [[65]])
    twoBrokers.pool inOrderReplication (by decide +kernel)
  refine ⟨p, hreach, hcontents, fun b hb => ?_⟩
  refine followers_prefix_of_leader (fun b _ key => ?_) hreach b hb _ 0 le_rfl
  show ((freshSetup _).node b.brokerId).contents key <+: ((freshSetup _).node 1).contents key
  rw [contents_freshSetup, contents_freshSetup]

/-- Two produces on broker 1: the second record is replicated before the first. -/
def overtakingProduce : List (Label Choice EnvStep) :=
  [.env (.client 1 (produceOf [65]))] ++ go 0 2 ++ [.env (.client 1 (produceOf [66]))] ++
    go 1 9 ++ [.env (.accept 0)] ++ go 2 2

/-- Replicated out of order, the follower keeps what it refuses: its log is no prefix. -/
theorem follower_log_diverges :
    ∃ p, Reachable clusterMachine (inScope (fixedLeader twoBrokers.cluster 1)) twoBrokers.pool p ∧
      ¬ (p.world.nodes 2).contents (makeKey (ofString "t") 0)
        <+: (p.world.nodes 1).contents (makeKey (ofString "t") 0) := by
  obtain ⟨p, hreach, hleader, hfollower⟩ := clusterMachine.exists_reachable
    (inScope_allows (fixedLeader_allows twoBrokers.cluster 1))
    (fun p => (p.world.nodes 1).contents (makeKey (ofString "t") 0) = [[65], [66]] ∧
      (p.world.nodes 2).contents (makeKey (ofString "t") 0) = [[66]])
    twoBrokers.pool overtakingProduce (by decide +kernel)
  refine ⟨p, hreach, ?_⟩
  rw [hleader, hfollower]
  decide

/-! ### Several leaders -/

/-- A client's record is appended only where no other broker's log is longer. -/
def Longest (cluster : Membership) (w : World) (τ : Nat) : Act → Prop
  | .node (.append topic partition _ .client) | .node (.append topic partition _ (.batch _)) =>
    ∀ n, w.RunsAt τ n → ∀ b ∈ cluster.brokers,
      ((w.nodes b.brokerId).contents (makeKey topic partition)).length
        ≤ ((w.nodes n).contents (makeKey topic partition)).length
  | _ => True

/-- Runs, under any leaders, in which appends are in order and client records go to the
    longest log. -/
def orderedAppends (cluster : Membership) : Guard Act World EnvStep where
  act w τ a := InOrder w τ a ∧ Longest cluster w τ a
  env w e := brokerTraffic.env w e

/-- Of any two logs of the cluster one is a prefix of the other. -/
def AllComparable (cluster : Membership) (w : World) : Prop :=
  ∀ b ∈ cluster.brokers, ∀ b' ∈ cluster.brokers, ∀ key,
    Comparable ((w.nodes b.brokerId).contents key) ((w.nodes b'.brokerId).contents key)

section Comparable

variable {cluster : Membership} {w w' : World} {τ : Nat} {a : Act} {c : Choice} {r : a.Result}

/-- Threads run at members of the cluster. -/
theorem member_of_runsAt (hI : Inv cluster w) (hn : w.RunsAt τ n) :
    ∃ b ∈ cluster.brokers, b.brokerId = n := by
  obtain ⟨task, htask, rfl⟩ := hn
  obtain ⟨hmember, hid⟩ := hI.tasks τ task htask
  exact ⟨_, hmember, hid⟩

/-- The log that grows stays comparable with any other one: a client's record extends the
    longest log, a replicated one is what a longer log has at the same offset. -/
theorem comparable_grown (hI : Inv cluster w) (hhonest : w.Honest) (hplaced : Recorded Placed w)
    (hall : AllComparable cluster w) {origin : AppendOrigin} (hn : w.RunsAt τ n)
    (horder : InOrder w τ (.node (.append topic partition message origin)))
    (hlongest : Longest cluster w τ (.node (.append topic partition message origin)))
    (hpre : Pre cluster τ (.node (.append topic partition message origin)) w) {b : BrokerConfig}
    (hb : b ∈ cluster.brokers) :
    Comparable ((w.nodes b.brokerId).contents (makeKey topic partition))
      ((w.nodes n).contents (makeKey topic partition) ++ [message]) := by
  obtain ⟨bn, hbn, rfl⟩ := member_of_runsAt hI hn
  have hcomp := hall b hb bn hbn (makeKey topic partition)
  have hshorter : ((w.nodes b.brokerId).contents (makeKey topic partition)).length
      ≤ ((w.nodes bn.brokerId).contents (makeKey topic partition)).length →
      Comparable ((w.nodes b.brokerId).contents (makeKey topic partition))
        ((w.nodes bn.brokerId).contents (makeKey topic partition) ++ [message]) :=
    fun hle => .inl ((hcomp.prefix_of_length_le hle).trans (List.prefix_append _ _))
  cases origin with
  | client => exact hshorter (hlongest _ hn b hb)
  | batch expected => exact hshorter (hlongest _ hn b hb)
  | replica expected =>
    rcases Nat.lt_or_ge ((w.nodes bn.brokerId).contents (makeKey topic partition)).length
      ((w.nodes b.brokerId).contents (makeKey topic partition)).length with hlt | hle
    · -- `b` has a record at this offset, and it is the sender's
      obtain ⟨offset, rfl, hsourced⟩ := hpre.2 hhonest
      obtain ⟨hbound, τ', n', hn', -, hholds⟩ := holds_of_sourced hI hplaced hsourced
      obtain ⟨b', hb', rfl⟩ := member_of_runsAt hI hn'
      have hlen := horder _ hn
      rw [Nat.mod_eq_of_lt hbound] at hlen
      obtain ⟨m, hm⟩ : ∃ m, ((w.nodes b.brokerId).contents (makeKey topic partition))[offset]?
          = some m := ⟨_, List.getElem?_eq_getElem (hlen ▸ hlt)⟩
      obtain rfl := (hall b hb b' hb' _).getElem?_eq hm hholds
      exact .inr (concat_prefix_of_getElem? (hcomp.symm.prefix_of_length_le hlt.le) (hlen ▸ hm))
    · exact hshorter hle

/-- **One step.** -/
theorem allComparable_exec (hI : Inv cluster w) (hhonest : w.Honest) (hplaced : Recorded Placed w)
    (horder : InOrder w τ a) (hlongest : Longest cluster w τ a) (hpre : Pre cluster τ a w)
    (hexec : World.exec τ a c w = some (r, w')) (h : AllComparable cluster w) :
    AllComparable cluster w' := by
  rcases World.exec_contents hexec with hsame | ⟨topic, partition, message, origin, n, rfl, hn,
    hgrown, hother⟩
  · intro b hb b' hb' key
    rw [hsame, hsame]
    exact h b hb b' hb' key
  intro b hb b' hb' key
  by_cases hkey : key = makeKey topic partition
  · subst hkey
    -- only the log of `n` has changed
    have hnew : ∀ b ∈ cluster.brokers, b.brokerId ≠ n →
        Comparable ((w'.nodes b.brokerId).contents (makeKey topic partition))
          ((w'.nodes n).contents (makeKey topic partition)) := by
      intro b hb hne
      rw [hgrown, hother _ _ (.inl hne)]
      exact comparable_grown hI hhonest hplaced h hn horder hlongest hpre hb
    by_cases hbn : b.brokerId = n
    · by_cases hbn' : b'.brokerId = n
      · rw [hbn, hbn']
        exact .inl (List.prefix_refl _)
      · rw [hbn]
        exact (hnew b' hb' hbn').symm
    · by_cases hbn' : b'.brokerId = n
      · rw [hbn']
        exact hnew b hb hbn
      · rw [hother _ _ (.inl hbn), hother _ _ (.inl hbn')]
        exact h b hb b' hb' _
  · rw [hother _ key (.inr hkey), hother _ key (.inr hkey)]
    exact h b hb b' hb' key

end Comparable

/-- A call of `handle_fetch` has returned `message` for `offset`: on behalf of a FETCH, or
    of a GROUP_FETCH that the broker handled itself. -/
def Fetched (p : ClusterPool) (topic : Bytes) (partition : Int) (offset : Nat)
    (message : Bytes) : Prop :=
  ∃ τ n request response, p.world.Serves τ n request ∧ Returned p τ response ∧
    (request.type = .fetch ∨
      (request.type = .groupFetch ∧ ¬ p.world.Did τ (.node .isLeader) false)) ∧
    response.success = true ∧ request.topic = topic ∧ request.partition = partition ∧
    response.appendedOffset = offset ∧ response.message = message

/-- What was fetched is in the log of a broker. -/
theorem holds_of_fetched {cluster : Membership} {p : ClusterPool} (hI : Inv cluster p.world)
    (hS : AllSafe clusterRely (contract cluster) (Answers cluster) p) {offset : Nat}
    (h : Fetched p topic partition offset message) :
    ∃ b ∈ cluster.brokers, p.world.Holds b.brokerId topic partition offset message := by
  obtain ⟨τ, n, request, response, hserves, hreturned, htype, hs, rfl, rfl, rfl, rfl⟩ := h
  have hserved := served_of_returned hI hS hserves hreturned
  obtain ⟨b, hb, rfl⟩ := member_of_runsAt hI hserves.runsAt
  rcases htype with htype | ⟨htype, hleader⟩
  · rcases hserved.fetched htype with ⟨m, -, rfl, -, hholds⟩ | ⟨hfailed, -⟩
    · exact ⟨b, hb, hholds⟩
    · rw [hfailed] at hs
      exact absurd hs (by decide)
  · have hlocal := hserved.promised hs
    simp only [htype] at hlocal
    exact ⟨b, hb, (hlocal.resolve_left hleader).1⟩

/-- **Committed reads agree** on the runs in which appends are in order and client records
    go to the longest log: two fetches of one offset, on whichever brokers and at whatever
    times, return the same message. -/
theorem committed_reads_agree {setup : Setup}
    (hdisk : ∀ b ∈ setup.cluster.brokers, ∀ b' ∈ setup.cluster.brokers, ∀ key,
      Comparable ((setup.node b.brokerId).contents key) ((setup.node b'.brokerId).contents key))
    {p p' : ClusterPool}
    (h : Reachable clusterMachine (inScope (orderedAppends setup.cluster)) setup.pool p)
    (h' : Reachable clusterMachine (inScope (orderedAppends setup.cluster)) p p') {topic : Bytes}
    {partition : Int} {offset : Nat} {message message' : Bytes}
    (hfetch : Fetched p topic partition offset message)
    (hfetch' : Fetched p' topic partition offset message') : message = message' := by
  have hrefines : (orderedAppends setup.cluster).Refines brokerTraffic :=
    ⟨fun _ => trivial, fun h => h⟩
  have hall : ∀ {q}, Reachable clusterMachine (orderedAppends setup.cluster) setup.pool q →
      Inv setup.cluster q.world ∧
        AllSafe clusterRely (contract setup.cluster) (Answers setup.cluster) q ∧
        q.world.Honest ∧ Recorded Placed q.world ∧ AllComparable setup.cluster q.world := by
    intro q hq
    refine honest_invariant hrefines
      (J := fun w => Recorded Placed w ∧ AllComparable setup.cluster w) ?_ ?_
      setup.inv setup.allSafe setup.honest ⟨fun e he => absurd he (by simp [Setup.pool]), hdisk⟩ hq
    · rintro τ a c w r w' hI hhonest ⟨hplaced, hcomp⟩ ⟨horder, hlongest⟩ hpre hexec
      exact ⟨placed_exec hplaced horder hexec,
        allComparable_exec hI hhonest hplaced horder hlongest hpre hexec hcomp⟩
    · rintro k e w w' started hI - ⟨hplaced, hcomp⟩ - henv
      refine ⟨hplaced.env Placed.mono hI henv, fun b hb b' hb' key => ?_⟩
      rw [World.env_contents henv, World.env_contents henv]
      exact hcomp b hb b' hb' key
  -- logs only grow, so what the first fetch read is still there at the second
  obtain ⟨hI, hS, -⟩ := hall h.of_within
  obtain ⟨hI', hS', -, -, hcomp'⟩ := hall (h.trans h').of_within
  obtain ⟨b, hb, hholds⟩ := holds_of_fetched hI hS hfetch
  obtain ⟨b', hb', hholds'⟩ := holds_of_fetched hI' hS' hfetch'
  exact (hcomp' b hb b' hb' _).getElem?_eq ((reachable_mono h').holds hholds) hholds'

/-- `Longest`, as a check. -/
def longest? (cluster : Membership) (w : World) (τ : Nat) : Act → Bool
  | .node (.append topic partition _ .client) | .node (.append topic partition _ (.batch _)) =>
    (w.tasks[τ]?).all (fun task => cluster.brokers.all (fun b =>
      ((w.nodes b.brokerId).contents (makeKey topic partition)).length
        ≤ ((w.nodes task.node).contents (makeKey topic partition)).length))
  | _ => true

theorem longest_of_check {cluster : Membership} {w : World} {τ : Nat} {a : Act}
    (h : longest? cluster w τ a = true) : Longest cluster w τ a := by
  unfold longest? at h
  split at h
  · rintro n ⟨task, htask, rfl⟩ b hb
    rw [htask] at h
    exact of_decide_eq_true (List.all_eq_true.mp h b hb)
  · rintro n ⟨task, htask, rfl⟩ b hb
    rw [htask] at h
    exact of_decide_eq_true (List.all_eq_true.mp h b hb)
  · next hclient hbatch =>
    unfold Longest
    split
    · exact absurd rfl (hclient _ _ _)
    · exact absurd rfl (hbatch _ _ _ _)
    · trivial

/-- The check for `orderedAppends`. -/
def orderedAppends? (cluster : Membership) (p : ClusterPool) (l : Label Choice EnvStep) : Bool :=
  clientTraffic p l &&
    match l with
    | .run τ _ => (nextAct? p τ).all (fun a => inOrder? p.world τ a && longest? cluster p.world τ a)
    | .env _ => true

/-- The check decides the guard. -/
theorem orderedAppends_allows (cluster : Membership) (p : ClusterPool)
    (l : Label Choice EnvStep) (h : orderedAppends? cluster p l = true) :
    (orderedAppends cluster).Allows p l := by
  obtain ⟨htraffic, happend⟩ := Bool.and_eq_true_iff.mp h
  cases l with
  | run τ c =>
    intro a k hk
    dsimp only at happend
    rw [nextAct?_eq hk] at happend
    obtain ⟨horder, hlongest⟩ := Bool.and_eq_true_iff.mp happend
    exact ⟨inOrder_of_check horder, longest_of_check hlongest⟩
  | env e => exact clientTraffic_allows p (.env e) htraffic

/-- A record is replicated to broker 2, committed on both brokers and fetched from them. -/
def replicatedReads : List (Label Choice EnvStep) :=
  [.env (.client 1 (produceOf [65]))] ++ go 0 9 ++ [.env (.accept 0)] ++ go 1 3 ++ go 0 15 ++
    [.env (.accept 1)] ++ go 2 1 ++ [.env (.client 1 (fetchOf 0))] ++ go 3 3 ++
    [.env (.client 2 (fetchOf 0))] ++ go 4 3

/-- A FETCH of offset 0 that has finished. -/
theorem fetched_of_finished {p : ClusterPool} {τ : Nat}
    (htask : p.world.tasks[τ]? = some ⟨n, .client (fetchOf 0)⟩)
    (h : finished p τ = some ⟨true, message, 0, []⟩) : Fetched p (ofString "t") 0 0 message :=
  ⟨τ, n, _, _, ⟨_, htask, rfl, congrArg some parse_fetchOf_zero⟩, returned_of_finished h,
    .inl rfl, rfl, rfl, rfl, rfl, rfl⟩

/-- One record, read on both brokers. -/
theorem committed_reads_agree_replicated :
    ∃ p, Reachable clusterMachine (inScope (orderedAppends twoBrokers.cluster)) twoBrokers.pool p ∧
      ∃ message message', Fetched p (ofString "t") 0 0 message ∧
        Fetched p (ofString "t") 0 0 message' ∧ message = message' := by
  obtain ⟨p, hreach, htask₃, htask₄, hdone₃, hdone₄⟩ := clusterMachine.exists_reachable
    (inScope_allows (orderedAppends_allows twoBrokers.cluster))
    (fun p => p.world.tasks[3]? = some ⟨1, .client (fetchOf 0)⟩ ∧
      p.world.tasks[4]? = some ⟨2, .client (fetchOf 0)⟩ ∧
      finished p 3 = some ⟨true, [65], 0, []⟩ ∧ finished p 4 = some ⟨true, [65], 0, []⟩)
    twoBrokers.pool replicatedReads (by decide +kernel)
  have h₃ := fetched_of_finished htask₃ hdone₃
  have h₄ := fetched_of_finished htask₄ hdone₄
  refine ⟨p, hreach, _, _, h₃, h₄,
    committed_reads_agree (fun b _ b' _ key => ?_) hreach .start h₃ h₄⟩
  show Comparable (((freshSetup _).node b.brokerId).contents key)
    (((freshSetup _).node b'.brokerId).contents key)
  rw [contents_freshSetup, contents_freshSetup]
  exact .inl (List.prefix_refl _)

/-- The records of two produces reach broker 2 in the wrong order and are written there
    without an acknowledgement; a third one is acknowledged and commits the offsets below
    it on both brokers. -/
def divergentReads : List (Label Choice EnvStep) :=
  [.env (.client 1 (produceOf [65]))] ++ go 0 2 ++ [.env (.client 1 (produceOf [66]))] ++
    go 1 9 ++ [.env (.accept 0)] ++ go 2 3 ++ go 1 5 ++ [.env (.heartbeat 1)] ++ go 3 6 ++
    go 0 7 ++ [.env (.accept 2)] ++ go 4 3 ++ go 0 5 ++ [.env (.heartbeat 1)] ++ go 5 6 ++
    [.env (.client 1 (produceOf [67]))] ++ go 6 9 ++ [.env (.accept 4)] ++ go 7 4 ++ go 6 15 ++
    [.env (.accept 5)] ++ go 8 2 ++ [.env (.client 1 (fetchOf 0))] ++ go 9 3 ++
    [.env (.client 2 (fetchOf 0))] ++ go 10 3

/-- **Two brokers serve different records** at one offset, both committed. -/
theorem committed_reads_differ :
    ∃ p, Reachable clusterMachine (inScope brokerTraffic) twoBrokers.pool p ∧
      Fetched p (ofString "t") 0 0 [65] ∧ Fetched p (ofString "t") 0 0 [66] := by
  obtain ⟨p, hreach, htask₉, htask₁₀, hdone₉, hdone₁₀⟩ := clusterMachine.exists_reachable
    (inScope_allows clientTraffic_allows)
    (fun p => p.world.tasks[9]? = some ⟨1, .client (fetchOf 0)⟩ ∧
      p.world.tasks[10]? = some ⟨2, .client (fetchOf 0)⟩ ∧
      finished p 9 = some ⟨true, [65], 0, []⟩ ∧ finished p 10 = some ⟨true, [66], 0, []⟩)
    twoBrokers.pool divergentReads (by decide +kernel)
  exact ⟨p, hreach, fetched_of_finished htask₉ hdone₉, fetched_of_finished htask₁₀ hdone₁₀⟩

end StreamingPlatform
