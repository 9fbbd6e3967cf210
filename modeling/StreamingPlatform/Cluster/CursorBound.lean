import StreamingPlatform.Cluster.Delivery
import StreamingPlatform.Core.Cursors

namespace StreamingPlatform

open ByteString Interleave World

/-!
# Cluster — cursors and the commit index

A FETCH answers only for offsets up to the commit index of its log; a COMMIT_OFFSET takes
any offset that an assigned member names.  Where every accepted commit is of a committed
offset, no cursor is beyond the offset after the commit index (`nextOffset_le_committed`);
one commit ahead of the log puts a cursor past records that do not exist yet
(`nextOffset_ahead`), and the group never receives them.
-/

/-- How many offsets of a log are committed at a broker: the commit index and one more. -/
def Node.committedBelow (s : Node) (topic : Bytes) (partition : Int) : Nat :=
  match s.replication.commitIndexByLog (makeKey topic partition) with
  | none => 0
  | some committed => committed + 1

/-- No cursor of the broker's groups is beyond the committed offsets. -/
structure Node.CursorsBehind (s : Node) : Prop where
  named : s.groups.Named
  bounded : ∀ groupId topic partition,
    s.groups.nextOffset groupId topic partition ≤ s.committedBelow topic partition

/-- Runs in which broker `n` is asked to commit, for a member that is assigned the
    partition, only what is committed there. -/
def commitsCommitted (n : Int) : Guard Act World EnvStep where
  act w τ a := ∀ groupId memberId topic partition offset,
    a = .node (.commit groupId memberId topic partition offset) → w.RunsAt τ n →
    (w.nodes n).groups.isAssigned groupId memberId topic partition = true →
    (w.nodes n).replication.isCommitted topic partition offset = true
  env _ _ := True

section Step

variable {s s' : Node} {topic : Bytes} {partition : Int} {offset : Nat}

theorem Node.Mono.committedBelow_le (h : s.Mono s') (topic : Bytes) (partition : Int) :
    s.committedBelow topic partition ≤ s'.committedBelow topic partition := by
  unfold Node.committedBelow
  cases hbefore : s.replication.commitIndexByLog (makeKey topic partition) with
  | none => exact Nat.zero_le _
  | some committed =>
    obtain ⟨committed', hle, hafter⟩ := h.commit _ committed hbefore
    rw [hafter]
    exact Nat.succ_le_succ hle

theorem Node.lt_committedBelow
    (h : s.replication.isCommitted topic partition offset = true) :
    offset < s.committedBelow topic partition := by
  unfold ReplicationManager.isCommitted at h
  unfold Node.committedBelow
  cases hfound : s.replication.commitIndexByLog (makeKey topic partition) with
  | none =>
    rw [hfound] at h
    exact absurd h Bool.false_ne_true
  | some committed =>
    rw [hfound] at h
    exact Nat.lt_succ_of_le (of_decide_eq_true h)

/-- **One action.**  Commit indexes only grow, and a cursor moves forward only by a commit
    of a committed offset. -/
theorem Node.CursorsBehind.effect {τ : Nat} {a : NodeAct} (h : s.CursorsBehind)
    (heffect : NodeAct.Effect τ s a s')
    (hjoin : ∀ groupId memberId topic partitions, a = .join groupId memberId topic partitions →
      topic ≠ [])
    (hcommit : ∀ groupId memberId topic partition offset,
      a = .commit groupId memberId topic partition offset →
      s.groups.isAssigned groupId memberId topic partition = true →
      s.replication.isCommitted topic partition offset = true) : s'.CursorsBehind := by
  have hmono := heffect.mono.committedBelow_le
  rcases heffect.groups h.named hjoin with htame | ⟨groupId, memberId, topic, partition, offset,
    rfl, heq⟩
  · refine ⟨fun name => (htame name).1, fun groupId topic partition => ?_⟩
    exact (((htame groupId).2 topic partition).trans (h.bounded groupId topic partition)).trans
      (hmono topic partition)
  · refine ⟨heq ▸ h.named.commit, fun g t p => le_trans ?_ (hmono t p)⟩
    rw [heq]
    rcases ConsumerGroupManager.commit_eq s.groups groupId memberId topic partition offset with
      ⟨-, -, hsame⟩ | ⟨-, -, -, hassigned, -⟩
    · rw [hsame]
      exact h.bounded g t p
    · rcases ConsumerGroupManager.nextOffset_commit_le s.groups groupId memberId topic partition
        offset g t p with hle | ⟨rfl, rfl, rfl, hle⟩
      · exact hle.trans (h.bounded g t p)
      · exact hle.trans (Node.lt_committedBelow (hcommit _ _ _ _ _ rfl hassigned))

end Step

theorem Setup.cursorsBehind (setup : Setup) (n : Int) : (setup.node n).CursorsBehind := by
  have hgroups : (setup.node n).groups = {} := by
    unfold Setup.node
    split <;> rfl
  refine ⟨?_, fun groupId topic partition => ?_⟩
  · rw [hgroups]
    exact fun name group hgroup => absurd hgroup (by simp)
  · rw [hgroups]
    exact Nat.zero_le _

/-- **Cursors stay behind the commit index** in every run in which only committed offsets
    are committed for a group. -/
theorem nextOffset_le_committed {setup : Setup} {n : Int} {p : ClusterPool}
    (h : Reachable clusterMachine (commitsCommitted n) setup.pool p) (groupId topic : Bytes)
    (partition : Int) :
    (p.world.nodes n).groups.nextOffset groupId topic partition
      ≤ (p.world.nodes n).committedBelow topic partition := by
  have hinv := cluster_invariant (J := fun w => (w.nodes n).CursorsBehind)
    (fun {τ a c w r w'} _ hJ hG hpre hexec => ?_) (fun {k e w w' started} _ hJ _ henv => ?_)
    setup.inv setup.allSafe (setup.cursorsBehind n) h
  · exact hinv.2.2.bounded groupId topic partition
  · refine World.exec_keeps hexec hJ (fun act hact hat heffect => ?_)
    subst hact
    refine hJ.effect heffect ?_ ?_
    · rintro groupId memberId topic partitions rfl
      exact hpre
    · rintro groupId memberId topic partition offset rfl
      exact hG groupId memberId topic partition offset rfl hat
  · obtain ⟨now, alive, hnode⟩ := (World.env_cases henv).1.nodes n
    rw [hnode]
    exact ⟨hJ.named, hJ.bounded⟩

/-- The check for `commitsCommitted`. -/
def commitsCommitted? (n : Int) (p : ClusterPool) : Label Choice EnvStep → Bool
  | .run τ _ =>
    match nextAct? p τ with
    | some (.node (.commit _ _ topic partition offset)) =>
      (p.world.nodes n).replication.isCommitted topic partition offset
    | _ => true
  | .env _ => true

theorem commitsCommitted_allows (n : Int) (p : ClusterPool) (l : Label Choice EnvStep)
    (h : commitsCommitted? n p l = true) : (commitsCommitted n).Allows p l := by
  cases l with
  | run τ c =>
    rintro a k hprog groupId memberId topic partition offset rfl _ _
    rw [commitsCommitted?, nextAct?_eq hprog] at h
    exact h
  | env e => trivial

/-- One record, committed and consumed. -/
theorem nextOffset_le_committed_consumed :
    ∃ p, Reachable clusterMachine (commitsCommitted 1) twoBrokers.pool p ∧
      (p.world.nodes 1).groups.nextOffset (ofString "g") (ofString "t") 0 = 1 ∧
      1 ≤ (p.world.nodes 1).committedBelow (ofString "t") 0 := by
  obtain ⟨p, hreach, hnext⟩ := clusterMachine.exists_reachable (commitsCommitted_allows 1)
    (fun p => (p.world.nodes 1).groups.nextOffset (ofString "g") (ofString "t") 0 = 1)
    twoBrokers.pool consumedRecord (by decide +kernel)
  have hle := nextOffset_le_committed hreach (ofString "g") (ofString "t") 0
  exact ⟨p, hreach, hnext, hnext ▸ hle⟩

/-- A member of a group on a leader with one record commits offset 5: the commit succeeds,
    and the next five records of the partition are below the cursor before they exist. -/
theorem nextOffset_ahead :
    ∃ p, Reachable clusterMachine (staysLeader 1) oneBroker.pool p ∧
      (finished p 2).map Response.success = some true ∧
      (p.world.nodes 1).groups.isAssigned (ofString "g") (ofString "m") (ofString "t") 0 = true ∧
      (p.world.nodes 1).groups.nextOffset (ofString "g") (ofString "t") 0 = 6 ∧
      (p.world.nodes 1).committedBelow (ofString "t") 0 = 1 :=
  clusterMachine.exists_reachable (staysLeader_allows 1)
    (fun p => (finished p 2).map Response.success = some true ∧
      (p.world.nodes 1).groups.isAssigned (ofString "g") (ofString "m") (ofString "t") 0 = true ∧
      (p.world.nodes 1).groups.nextOffset (ofString "g") (ofString "t") 0 = 6 ∧
      (p.world.nodes 1).committedBelow (ofString "t") 0 = 1)
    oneBroker.pool
    ([.env (.client 1 (produceOf [65]))] ++ go 0 15 ++
      [.env (.client 1 (groupRequest .joinGroup 0))] ++ go 1 4 ++
      [.env (.client 1 (groupRequest .commitOffset 5))] ++ go 2 3)
    (by decide +kernel)

end StreamingPlatform
