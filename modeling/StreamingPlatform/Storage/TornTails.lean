import StreamingPlatform.Storage.Reopen

namespace StreamingPlatform

open ByteString

/-!
# Storage — what construction does not look at

A log constructed on a directory depends on its segment files through their names and
complete records only, and on the WAL through the entries that carry the next offset.  So
bytes behind the last complete record and stale WAL entries leave no trace in the new log:

* `File.visited` — what loading takes from a file;
* `Log.Stale` — a WAL none of whose entries carries the next offset;
* `constructFrom_congr` — files with the same names and records and two stale WALs give
  the same log.
-/

open LogSegment (records)

/-! ### Segments that match their files -/

namespace LogSegment

/-- The in-memory fields are those of a segment that was just opened on its file. -/
def Whole (s : LogSegment) : Prop := reopen s.filePath s.file = s

namespace Whole

variable {s : LogSegment}

theorem size (h : s.Whole) : s.currentSize = s.file.length := by
  rw [← h]
  rfl

theorem sync_eq (h : s.Whole) : s.sync = s := by
  rw [← h]
  rfl

theorem truncate (h : s.Whole) {n : Nat} (hn : n ≤ s.file.length) : (s.truncate n).Whole := by
  have hsynced : s.synced = s.file.length := by
    rw [← h]
    rfl
  have hlen : (s.file.take n).length = n := by rw [List.length_take, Nat.min_eq_left hn]
  unfold Whole LogSegment.truncate reopen
  rw [hsynced, hlen, Nat.min_eq_right hn]

end Whole

end LogSegment

variable {log : Log}

namespace Log

/-- Every segment of the log matches its file. -/
def Whole (log : Log) : Prop := ∀ s ∈ log.segments, s.Whole

theorem Whole.segments_eq (h : log.Whole) :
    log.segments = log.segmentFiles.map (fun f => LogSegment.reopen f.name f.contents) := by
  rw [segmentFiles, List.map_map]
  exact ((List.map_congr_left h).trans (List.map_id _)).symm

theorem Whole.map_sync (h : log.Whole) : log.segments.map LogSegment.sync = log.segments :=
  (List.map_congr_left (fun s hs => (h s hs).sync_eq)).trans (List.map_id _)

/-- Opening segments and cutting torn tails off keeps them whole. -/
theorem rebuildLoop_whole (si rounds position : Nat) (h : log.Whole) :
    (rebuildLoop si rounds position log).Whole := by
  induction rounds generalizing position log with
  | zero => exact h
  | succ rounds ih =>
    rw [rebuildLoop]
    split
    · next hlt =>
      split
      · exact ih _ h
      · -- the cut is inside the file
        intro s hs
        rcases List.mem_or_eq_of_mem_set hs with hs | rfl
        · exact h s hs
        · have hwhole : (log.segment si).Whole := by
            by_cases hi : si < log.segments.length
            · rw [segment_eq_getElem hi]
              exact h _ (List.getElem_mem hi)
            · rw [segment, List.getD_eq_getElem?_getD, List.getElem?_eq_none (by omega)]
              rfl
          refine hwhole.truncate ?_
          rw [LogSegment.sizes, hwhole.size] at hlt
          omega
    · exact h

theorem foldl_loadSegment_whole (h : log.Whole) (paths : List File) :
    (paths.foldl loadSegment log).Whole := by
  induction paths generalizing log with
  | nil => exact h
  | cons f paths ih =>
    refine ih (rebuildLoop_whole _ _ _ (fun s hs => ?_))
    rcases List.mem_append.mp hs with hs | hs
    · exact h s hs
    · rw [List.mem_singleton.mp hs]
      rfl

end Log

/-! ### Loading -/

/-- What loading takes from a segment file: its name and its complete records. -/
def File.visited (f : File) : Bytes × List Bytes := (f.name, records.scan f.contents)

namespace Log

theorem loadExistingSegments_whole (wal : Bytes) (maxSegmentSize syncBatchSize : Nat)
    (paths : List File) :
    ((blank wal maxSegmentSize syncBatchSize).loadExistingSegments paths).Whole := by
  unfold loadExistingSegments
  split
  · intro s hs
    rw [List.mem_singleton.mp hs]
    rfl
  · exact foldl_loadSegment_whole (fun s hs => absurd hs (by simp [blank])) paths

variable {paths : List File} {wal : Bytes}

/-- The segments after loading, by their names and records. -/
theorem loadExistingSegments_segments (wal : Bytes) (maxSegmentSize syncBatchSize : Nat)
    (hp : paths ≠ []) :
    ((blank wal maxSegmentSize syncBatchSize).loadExistingSegments paths).segments
      = (paths.map File.visited).map (fun p => LogSegment.reopen p.1 (records.encAll p.2)) := by
  have hrep := loadExistingSegments_rep (indexed_blank wal maxSegmentSize syncBatchSize) paths
  have hnames := loadExistingSegments_filePaths (blank wal maxSegmentSize syncBatchSize) rfl hp
  have hwhole := loadExistingSegments_whole wal maxSegmentSize syncBatchSize paths
  generalize (blank wal maxSegmentSize syncBatchSize).loadExistingSegments paths = log at *
  have hfiles : log.segmentFiles = List.zipWith File.mk (log.segments.map LogSegment.filePath)
      (log.segments.map LogSegment.file) := by
    rw [List.zipWith_map, List.zipWith_self]
    rfl
  rw [hwhole.segments_eq, hfiles, hnames, hrep.files, loadedRecords, if_neg hp, List.map_map,
    List.zipWith_map, List.zipWith_self, List.map_map, List.map_map]
  rfl

/-- **Loading looks at names and complete records only.** -/
theorem loadExistingSegments_congr (wal wal' : Bytes) (maxSegmentSize syncBatchSize : Nat)
    {paths' : List File} (h : paths.map File.visited = paths'.map File.visited) :
    (blank wal maxSegmentSize syncBatchSize).loadExistingSegments paths
      = { (blank wal' maxSegmentSize syncBatchSize).loadExistingSegments paths' with
          wal := wal } := by
  by_cases hp : paths = []
  · have hp' : paths' = [] := by
      rw [hp, List.map_nil] at h
      exact List.map_eq_nil_iff.mp h.symm
    rw [hp, hp']
    rfl
  · have hp' : paths' ≠ [] := by
      intro hnil
      rw [hnil, List.map_nil] at h
      exact hp (List.map_eq_nil_iff.mp h)
    have hrep := loadExistingSegments_rep (indexed_blank wal maxSegmentSize syncBatchSize) paths
    have hrep' := loadExistingSegments_rep (indexed_blank wal' maxSegmentSize syncBatchSize) paths'
    have hsegs := loadExistingSegments_segments wal maxSegmentSize syncBatchSize hp
    have hsegs' := loadExistingSegments_segments wal' maxSegmentSize syncBatchSize hp'
    have hrecords : loadedRecords paths = loadedRecords paths' := by
      have hsnd := congrArg (List.map Prod.snd) h
      rw [List.map_map, List.map_map] at hsnd
      rw [loadedRecords, loadedRecords, if_neg hp, if_neg hp']
      exact hsnd
    obtain ⟨segments, index, active, next, heq⟩ :=
      loadExistingSegments_frame (blank wal maxSegmentSize syncBatchSize) paths
    obtain ⟨segments', index', active', next', heq'⟩ :=
      loadExistingSegments_frame (blank wal' maxSegmentSize syncBatchSize) paths'
    rw [heq] at hrep hsegs
    rw [heq'] at hrep' hsegs'
    rw [← hrecords] at hrep'
    -- the records and the names determine every field but the WAL
    have hseg : segments = segments' := hsegs.trans (h ▸ hsegs'.symm)
    have hindex : index = index' := hrep.index.trans hrep'.index.symm
    have hnext : next = next' := hrep.next.trans hrep'.next.symm
    have hactive : active = active' := by
      have h₁ : active + 1 = segments.length := hrep.active
      have h₂ : active' + 1 = segments'.length := hrep'.active
      rw [hseg] at h₁
      omega
    rw [heq, heq', hseg, hindex, hnext, hactive]
    rfl

/-! ### Replay -/

/-- No entry that `recover_wal` reads from the WAL carries the offset `next`. -/
def Stale (wal : Bytes) (next : Nat) : Prop := ∀ e ∈ walEntries.scan wal, e.1 ≠ next % 2 ^ 64

instance (wal : Bytes) (next : Nat) : Decidable (Stale wal next) :=
  inferInstanceAs (Decidable (∀ e ∈ walEntries.scan wal, e.1 ≠ next % 2 ^ 64))

theorem recoverLoop_stale (rounds : Nat) (h : Stale wal log.nextOffset) :
    recoverLoop rounds wal log = log := by
  induction rounds generalizing wal with
  | zero => rfl
  | succ rounds ih =>
    rw [recoverLoop]
    cases hd : readWalEntry wal with
    | none => rfl
    | some p =>
      obtain ⟨⟨offset, message⟩, rest⟩ := p
      unfold Stale at h
      rw [walEntries.scan_of_dec_some hd] at h
      have hne : offset ≠ log.nextOffset % 2 ^ 64 := h _ List.mem_cons_self
      have hrest : Stale rest log.nextOffset := fun e he => h e (List.mem_cons_of_mem _ he)
      show recoverLoop rounds rest (if offset = _ then _ else log) = log
      rw [if_neg hne]
      exact ih hrest

/-- A stale WAL is only emptied. -/
theorem recoverWal_stale (hwhole : log.Whole) (h : Stale log.wal log.nextOffset) :
    log.recoverWal = { log with wal := [] } := by
  unfold recoverWal
  split
  · next hwal => rw [← hwal]
  · dsimp only
    rw [recoverLoop_stale _ h, hwhole.map_sync]
    split <;> rfl

/-- Construction with a stale WAL is loading. -/
theorem constructFrom_stale (maxSegmentSize syncBatchSize : Nat)
    (h : Stale wal (paths.flatMap (fun f => records.scan f.contents)).length) :
    constructFrom paths wal maxSegmentSize syncBatchSize
      = { (blank wal maxSegmentSize syncBatchSize).loadExistingSegments paths with wal := [] } := by
  have hrep := loadExistingSegments_rep (indexed_blank wal maxSegmentSize syncBatchSize) paths
  have hwal := loadExistingSegments_wal (blank wal maxSegmentSize syncBatchSize) paths
  have hwhole := loadExistingSegments_whole wal maxSegmentSize syncBatchSize paths
  refine recoverWal_stale hwhole ?_
  show Stale ((blank wal maxSegmentSize syncBatchSize).loadExistingSegments paths).wal
    ((blank wal maxSegmentSize syncBatchSize).loadExistingSegments paths).nextOffset
  rw [hrep.next, flatten_loadedRecords, hwal]
  exact h

/-- **Construction ignores torn tails and stale entries.** -/
theorem constructFrom_congr {paths' : List File} {wal' : Bytes} (maxSegmentSize syncBatchSize : Nat)
    (hpaths : paths.map File.visited = paths'.map File.visited)
    (hwal : Stale wal (paths.flatMap (fun f => records.scan f.contents)).length)
    (hwal' : Stale wal' (paths'.flatMap (fun f => records.scan f.contents)).length) :
    constructFrom paths wal maxSegmentSize syncBatchSize
      = constructFrom paths' wal' maxSegmentSize syncBatchSize := by
  rw [constructFrom_stale _ _ hwal, constructFrom_stale _ _ hwal',
    loadExistingSegments_congr wal wal' maxSegmentSize syncBatchSize hpaths]

end Log

end StreamingPlatform
