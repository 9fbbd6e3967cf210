import StreamingPlatform.Storage.TornTails

namespace StreamingPlatform

open ByteString

/-!
# Storage — logs all of whose writes succeeded

`Clean` is what the calls and the constructor keep when no write fails, however often the log
is reopened and whatever the directory held at first: the files hold the records, and the WAL
holds entries of pending appends only, so that a reopen replays nothing (`Clean.stale`).
-/

open LogSegment (records)

namespace Log

/-! ### The invariant -/

/-- What holds of a log all of whose appends succeeded: its files hold its records, and the
    entries of its WAL have the offsets of the pending appends, which come before the next. -/
structure Clean (log : Log) : Prop where
  stored : ∃ Ss, Rep log Ss
  named : log.Named
  wal : ∃ es, log.wal = walEntries.encAll es ∧ ∀ e ∈ es, e.2.length < 2 ^ 64 ∧
    ∃ i < log.nextOffset, e.1 = i % 2 ^ 64 ∧ log.nextOffset ≤ i + log.pendingAppends
  batch : log.pendingAppends < log.syncBatchSize
  small : log.syncBatchSize ≤ 2 ^ 64

variable {log : Log}

/-- The WAL of a clean log is stale. -/
theorem Clean.stale (h : log.Clean) : Stale log.wal log.nextOffset := by
  obtain ⟨es, hwal, hes⟩ := h.wal
  have hscan : walEntries.scan log.wal <+: es := by
    have hfits : ∀ e ∈ es, e.1 < 2 ^ 64 ∧ e.2.length < 2 ^ 64 := by
      intro e he
      obtain ⟨hlen, i, -, hi, -⟩ := hes e he
      exact ⟨by omega, hlen⟩
    have hcut := scan_take_walEntries hfits (walEntries.encAll es).length
    rwa [List.take_length, ← hwal] at hcut
  intro e he
  obtain ⟨-, i, hlt, hi, hpending⟩ := hes e (hscan.mem he)
  have hbatch := h.batch
  have hsmall := h.small
  rw [hi]
  omega

/-- A log whose WAL has just been emptied. -/
theorem Clean.emptied (hstored : ∃ Ss, Rep log Ss) (hnamed : log.Named) (hwal : log.wal = [])
    (hpending : log.pendingAppends = 0) (hpos : 0 < log.syncBatchSize)
    (hsmall : log.syncBatchSize ≤ 2 ^ 64) : log.Clean :=
  ⟨hstored, hnamed, ⟨[], hwal, by simp⟩, by omega, hsmall⟩

theorem named_of_filePaths {log' : Log} (h : log.Named)
    (hpaths : log'.segments.map LogSegment.filePath = log.segments.map LogSegment.filePath) :
    log'.Named := by
  intro s hs
  have hmem : s.filePath ∈ log.segments.map LogSegment.filePath := by
    rw [← hpaths]
    exact List.mem_map_of_mem hs
  obtain ⟨s₀, hs₀, heq⟩ := List.mem_map.mp hmem
  rw [← heq]
  exact h s₀ hs₀

theorem filePaths_appendRecord (log : Log) (m : Bytes) :
    (log.appendRecord m).segments.map LogSegment.filePath
      = log.segments.map LogSegment.filePath :=
  map_set_segment LogSegment.filePath log _ _ rfl

theorem Named.rollOver (h : log.Named) : log.rollOver.Named := by
  intro s hs
  rcases List.mem_append.mp hs with hs | hs
  · exact h s hs
  · rw [List.mem_singleton.mp hs]
    exact isSegmentFile_segmentName _

theorem Named.syncPending (h : log.Named) : log.syncPending.Named :=
  named_of_filePaths h (map_map_sync _ (fun _ => rfl) _)

theorem Clean.flush (h : log.Clean) : log.flush.Clean := by
  unfold Log.flush
  split
  · obtain ⟨Ss, hrep⟩ := h.stored
    have hbatch := h.batch
    exact .emptied ⟨Ss, hrep.map_sync rfl rfl rfl rfl⟩ h.named.syncPending rfl rfl
      (show 0 < log.syncBatchSize by omega) h.small
  · exact h

/-- The end of `append` on a log whose WAL is one entry ahead of the count. -/
theorem Clean.settle (hstored : ∃ Ss, Rep log Ss) (hnamed : log.Named)
    (hwal : ∃ es, log.wal = walEntries.encAll es ∧ ∀ e ∈ es, e.2.length < 2 ^ 64 ∧
      ∃ i < log.nextOffset, e.1 = i % 2 ^ 64 ∧ log.nextOffset ≤ i + (log.pendingAppends + 1))
    (hpos : 0 < log.syncBatchSize) (hsmall : log.syncBatchSize ≤ 2 ^ 64) : log.settle.Clean := by
  obtain ⟨Ss, hrep⟩ := hstored
  rcases log.settle_cases with ⟨-, heq | heq⟩ | ⟨hbatch, heq | heq⟩ <;> rw [heq]
  · exact .emptied ⟨_, hrep.map_sync rfl rfl rfl rfl⟩ hnamed.syncPending rfl rfl hpos hsmall
  · exact .emptied ⟨_, hrep.rollOver.map_sync rfl rfl rfl rfl⟩ hnamed.rollOver.syncPending rfl rfl
      hpos hsmall
  · exact ⟨⟨_, hrep.of_eq rfl rfl rfl rfl rfl⟩, hnamed, hwal, hbatch, hsmall⟩
  · exact ⟨⟨_, hrep.rollOver.of_eq rfl rfl rfl rfl rfl⟩, hnamed.rollOver, hwal, hbatch, hsmall⟩

/-- An append adds its entry to the write-ahead log. -/
theorem Clean.append (h : log.Clean) {m : Bytes} (hm : m.length < 2 ^ 64) :
    (log.append m).2.Clean := by
  obtain ⟨Ss, hrep⟩ := h.stored
  obtain ⟨X, S, rfl⟩ := hrep.exists_concat
  obtain ⟨es, hwal, hes⟩ := h.wal
  have hrep' : Rep (log.writeWal log.nextOffset m) (X ++ [S]) := hrep.of_eq rfl rfl rfl rfl rfl
  have hvalid : records.Valid m := by
    show m.length < 256 ^ 8
    omega
  have hbatch := h.batch
  rw [append_eq_settle]
  refine .settle ⟨_, hrep'.appendRecord hvalid⟩
    (named_of_filePaths h.named (filePaths_appendRecord _ m)) ?_
    (show 0 < log.syncBatchSize by omega) h.small
  -- the new entry is the last one, with the offset of the record
  refine ⟨es ++ [(log.nextOffset % 2 ^ 64, m)], ?_, ?_⟩
  · show log.wal ++ walEntry log.nextOffset m = _
    rw [Format.encAll_append, hwal]
    show _ = _ ++ (walEntry _ m ++ [])
    rw [walEntry_mod, List.append_nil]
  · show ∀ e ∈ es ++ [(log.nextOffset % 2 ^ 64, m)], e.2.length < 2 ^ 64 ∧
      ∃ i < log.nextOffset + 1, e.1 = i % 2 ^ 64 ∧
        log.nextOffset + 1 ≤ i + (log.pendingAppends + 1)
    intro e he
    rcases List.mem_append.mp he with he | he
    · obtain ⟨hlen, i, hlt, hi, hle⟩ := hes e he
      exact ⟨hlen, i, by omega, hi, by omega⟩
    · rw [List.mem_singleton.mp he]
      exact ⟨hm, log.nextOffset, by omega, rfl, by omega⟩

/-! ### Constructing a log -/

/-- Replay touches the segments, the index and the count, and keeps the file names. -/
theorem recoverLoop_frame (rounds : Nat) (wal : Bytes) (log : Log) :
    ∃ segments index nextOffset, recoverLoop rounds wal log
        = { log with segments := segments, index := index, nextOffset := nextOffset } ∧
      segments.map LogSegment.filePath = log.segments.map LogSegment.filePath := by
  induction rounds generalizing wal log with
  | zero => exact ⟨_, _, _, rfl, rfl⟩
  | succ rounds ih =>
    rw [recoverLoop]
    split
    · exact ⟨_, _, _, rfl, rfl⟩
    · next offset message rest _ =>
      split
      · obtain ⟨segments, index, nextOffset, heq, hpaths⟩ := ih rest (log.appendRecord message)
        exact ⟨segments, index, nextOffset, heq, hpaths.trans (filePaths_appendRecord _ _)⟩
      · exact ih rest log

/-- A replay changes no setting. -/
theorem recoverWal_frame (log : Log) :
    ∃ segments index nextOffset, log.recoverWal
        = { log with segments := segments, index := index, nextOffset := nextOffset, wal := [] } ∧
      segments.map LogSegment.filePath = log.segments.map LogSegment.filePath := by
  unfold recoverWal
  split
  · next hwal => exact ⟨_, _, _, by rw [← hwal], rfl⟩
  · obtain ⟨segments, index, nextOffset, heq, hpaths⟩ :=
      recoverLoop_frame (log.wal.length + 1) log.wal log
    dsimp only
    rw [heq]
    split
    · exact ⟨_, _, _, rfl, (map_map_sync _ (fun _ => rfl) _).trans hpaths⟩
    · exact ⟨_, _, _, rfl, hpaths⟩

theorem recoverWal_filePaths (log : Log) :
    log.recoverWal.segments.map LogSegment.filePath = log.segments.map LogSegment.filePath := by
  obtain ⟨segments, index, nextOffset, heq, hpaths⟩ := recoverWal_frame log
  rw [heq]
  exact hpaths

/-- The constructor's log once the segment files are loaded, before the WAL is replayed. -/
def loaded (directory : List File) (maxSegmentSize syncBatchSize : Nat) : Log :=
  (blank (walContents directory) maxSegmentSize syncBatchSize).loadExistingSegments
    (segmentPaths directory)

section Loaded

variable (directory : List File) (maxSegmentSize syncBatchSize : Nat)

/-- Opening a log is loading it and replaying the write-ahead log. -/
theorem construct_eq_recoverWal :
    construct directory maxSegmentSize syncBatchSize
      = (loaded directory maxSegmentSize syncBatchSize).recoverWal := rfl

theorem loaded_wal : (loaded directory maxSegmentSize syncBatchSize).wal = walContents directory :=
  loadExistingSegments_wal _ _

theorem loaded_rep :
    Rep (loaded directory maxSegmentSize syncBatchSize) (loadedRecords (segmentPaths directory)) :=
  loadExistingSegments_rep (indexed_blank _ _ _) _

/-- The names of the loaded files: those of the directory in the order of the visit, or the
    first one if there are none. -/
theorem loaded_filePaths :
    (loaded directory maxSegmentSize syncBatchSize).segments.map LogSegment.filePath
      = if segmentPaths directory = [] then [segmentName 0]
        else (segmentPaths directory).map File.name := by
  by_cases hp : segmentPaths directory = []
  · rw [if_pos hp, loaded, hp]
    rfl
  · rw [if_neg hp]
    exact loadExistingSegments_filePaths _ rfl hp

/-- The names of the loaded files are names of segment files. -/
theorem named_loaded : (loaded directory maxSegmentSize syncBatchSize).Named := by
  intro s hs
  have hmem : s.filePath ∈ (loaded directory maxSegmentSize syncBatchSize).segments.map
      LogSegment.filePath := List.mem_map_of_mem hs
  rw [loaded_filePaths] at hmem
  split at hmem
  · rw [List.mem_singleton.mp hmem]
    exact isSegmentFile_segmentName 0
  · obtain ⟨f, hf, heq⟩ := List.mem_map.mp hmem
    have hfilter := (List.perm_insertionSort _ _).mem_iff.mp hf
    rw [← heq]
    exact (List.mem_filter.mp hfilter).2

/-- A new log has the sizes it was given, an empty WAL and nothing pending. -/
theorem construct_frame :
    ∃ segments index active nextOffset, construct directory maxSegmentSize syncBatchSize
      = { segments := segments, index := index, activeSegmentIndex := active,
          nextOffset := nextOffset, maxSegmentSize := maxSegmentSize, wal := [],
          syncBatchSize := max 1 syncBatchSize, pendingAppends := 0 } := by
  obtain ⟨segments, index, active, nextOffset, hload⟩ := loadExistingSegments_frame
    (blank (walContents directory) maxSegmentSize syncBatchSize) (segmentPaths directory)
  obtain ⟨segments', index', nextOffset', heq, -⟩ :=
    recoverWal_frame (loaded directory maxSegmentSize syncBatchSize)
  refine ⟨segments', index', active, nextOffset', ?_⟩
  rw [construct_eq_recoverWal, heq, loaded, hload]
  rfl

/-- The file names of a new log are names of segment files. -/
theorem named_construct : (construct directory maxSegmentSize syncBatchSize).Named :=
  named_of_filePaths (named_loaded directory maxSegmentSize syncBatchSize)
    (recoverWal_filePaths _)

end Loaded

/-- **Any directory.** Whatever the files contain, the new log is clean. -/
theorem clean_construct (directory : List File) (maxSegmentSize : Nat) {syncBatchSize : Nat}
    (hsync : syncBatchSize < 2 ^ 64) :
    (construct directory maxSegmentSize syncBatchSize).Clean := by
  obtain ⟨Ss, hrep, -⟩ := constructFrom_stores (segmentPaths directory) (walContents directory)
    maxSegmentSize syncBatchSize
  have hnamed := named_construct directory maxSegmentSize syncBatchSize
  obtain ⟨segments, index, active, nextOffset, heq⟩ :=
    construct_frame directory maxSegmentSize syncBatchSize
  refine .emptied ⟨Ss, hrep⟩ hnamed ?_ ?_ ?_ ?_ <;> rw [heq]
  · show 0 < max 1 syncBatchSize
    omega
  · show max 1 syncBatchSize ≤ 2 ^ 64
    omega

/-- The files of a new log in the order of their names, as loading sees them. -/
theorem Named.visited_segmentPaths (h : log.Named) :
    (segmentPaths log.directory).map File.visited
      = (log.segmentFiles.map File.visited).insertionSort (fun p q => p.1 ≤ q.1) := by
  rw [h.segmentPaths_directory, List.map_insertionSort _ (fun p q => p.1 ≤ q.1)]
  intro a _ b _
  exact Iff.rfl

/-- A new log finds all records, whatever the order of its visit. -/
theorem Clean.length_scan (h : log.Clean) :
    ((segmentPaths log.directory).flatMap (fun f => records.scan f.contents)).length
      = log.nextOffset := by
  obtain ⟨Ss, hrep⟩ := h.stored
  have hperm : (segmentPaths log.directory).Perm log.segmentFiles := by
    rw [h.named.segmentPaths_directory]
    exact List.perm_insertionSort _ _
  rw [(hperm.flatMap_right _).length_eq, segmentFiles, List.flatMap_map, List.flatMap_def,
    hrep.map_scan, hrep.next]

end Log

end StreamingPlatform
