import StreamingPlatform.Storage.Partitions

namespace StreamingPlatform

open ByteString

/-!
# Storage — restarting the engine

The destructor of the engine flushes every log; a new engine on the same directory starts
with an empty map of logs and opens a log when something is appended to it, not when it
is read.  So until the first append to a key the new engine answers as if the key did not
exist, and only an engine that nothing was appended to is not changed by a restart
(`restart_transparent_iff`).

Segment files are visited in the order of their creation here; what is found of the records
when a log is opened is in `Storage/Reopen`.
-/

/-! ### The engine and its directories -/

namespace StorageEngine

/-- `StorageEngine::flush_all`, which is also what the destructor does. -/
def flushAll (engine : StorageEngine Log) : StorageEngine Log :=
  ⟨engine.logs.map (fun entry => (entry.1, entry.2.flush))⟩

/-- The logs that a new engine opens after `engine` has been destroyed: a log that was
    open left its flushed files behind, every other directory is as it was. -/
def reloadedLogs (directories : Bytes → List File) (maxSegmentSize syncBatchSize : Nat)
    (engine : StorageEngine Log) : LogOps Log where
  openLog := fun key =>
    match engine.flushAll.find? key with
    | some log => Log.constructFrom log.segmentFiles log.wal maxSegmentSize syncBatchSize
    | none => Log.construct (directories key) maxSegmentSize syncBatchSize
  append := Log.append
  fetch := Log.fetch

/-- The new engine: no log is open, whatever the directory contains. -/
def restarted : StorageEngine Log := {}

/-! ### What the new engine knows -/

theorem keys_appendAll_subset {L : Type} (ops : LogOps L) (engine : StorageEngine L)
    (appends : List (Bytes × Int × Bytes)) :
    engine.keys ⊆ (engine.appendAll ops appends).keys := by
  induction appends generalizing engine with
  | nil => exact List.Subset.refl _
  | cons a appends ih =>
    obtain ⟨topic, partition, message⟩ := a
    intro key hkey
    exact ih _ ((mem_keys_append ..).mpr (.inl hkey))

/-- **A restart is noticed as soon as anything was appended.**  The new engine answers
    `fetch`, `has_log` and `partitions_for_topic` as the old one did for every topic,
    partition and offset if and only if nothing had been appended: no query opens a log
    that is on disk. -/
theorem restart_transparent_iff (directories : Bytes → List File)
    (maxSegmentSize syncBatchSize : Nat) (appends : List (Bytes × Int × Bytes)) :
    let ops := fileLogs directories maxSegmentSize syncBatchSize
    let engine := StorageEngine.appendAll ops {} appends
    let ops' := reloadedLogs directories maxSegmentSize syncBatchSize engine
    (∀ topic partition k,
        restarted.fetch ops' topic partition k = engine.fetch ops topic partition k ∧
        restarted.hasLog topic partition = engine.hasLog topic partition ∧
        restarted.partitionsForTopic topic = engine.partitionsForTopic topic)
      ↔ appends = [] := by
  intro ops engine ops'
  constructor
  · intro hsame
    cases happends : appends with
    | nil => rfl
    | cons a rest =>
      obtain ⟨topic, partition, message⟩ := a
      -- the log of the first append is open before and closed after
      have hopen : engine.hasLog topic partition = true := by
        rw [hasLog_iff]
        show _ ∈ (StorageEngine.appendAll ops {} appends).keys
        rw [happends]
        exact keys_appendAll_subset ops _ rest ((mem_keys_append ..).mpr (.inr rfl))
      rw [← (hsame topic partition 0).2.1] at hopen
      exact absurd hopen (by simp [hasLog, restarted, find?])
  · rintro rfl
    exact fun _ _ _ => ⟨rfl, rfl, rfl⟩

/-- One record on an empty disk, and a restart: the record can no longer be fetched. -/
theorem restart_forgets :
    let ops := fileLogs (fun _ => []) 20 64
    let engine := StorageEngine.appendAll ops {} [(ofString "orders", 0, ofString "one")]
    let ops' := reloadedLogs (fun _ => []) 20 64 engine
    engine.fetch ops (ofString "orders") 0 0 = .ok (ofString "one") ∧
      engine.hasLog (ofString "orders") 0 = true ∧
      engine.partitionsForTopic (ofString "orders") = [0] ∧
      restarted.fetch ops' (ofString "orders") 0 0
        = .error (.invalidArgument "KEY NOT FOUND") ∧
      restarted.hasLog (ofString "orders") 0 = false ∧
      restarted.partitionsForTopic (ofString "orders") = [] := by
  decide +kernel

end StorageEngine

end StreamingPlatform
