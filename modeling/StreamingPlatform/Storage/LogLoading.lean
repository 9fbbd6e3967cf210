import StreamingPlatform.Storage.LogRefinement
import StreamingPlatform.Storage.SegmentScan

namespace StreamingPlatform

open ByteString

/-!
# Storage — what loading the segment files gives

`load_existing_segments` is analysed for *arbitrary* file contents:

* `Indexed.loadSegment` — loading a segment file keeps exactly the records a scan of it
  finds and cuts the rest off;
* `loadExistingSegments_frame` — loading changes nothing but the segments, the index and the
  counters;
* `loadExistingSegments_rep` — together: the loaded log represents the scanned records of
  the visited files, one file after another.
-/

open LogSegment (records)

namespace Log

/-! ### Loading segments -/

/-- The state `rebuild_index_from_segment` is in after the records `A` of the last
    segment, with `rest` of the file still to be scanned. -/
structure Scanning (log : Log) (Ss : List (List Bytes)) (A : List Bytes) (rest : Bytes) :
    Prop where
  files : log.segments.map LogSegment.file
    = (Ss.map records.encAll) ++ [records.encAll A ++ rest]
  sizes : ∀ s ∈ log.segments, s.currentSize = s.file.length
  valid : ∀ S ∈ Ss ++ [A], ∀ m ∈ S, records.Valid m
  next : log.nextOffset = (Ss ++ [A]).flatten.length
  index : log.index = indexFrom 0 0 (Ss ++ [A])

namespace Scanning

variable {log : Log} {Ss : List (List Bytes)} {A : List Bytes} {rest : Bytes}

theorem length_eq (h : Scanning log Ss A rest) : log.segments.length = Ss.length + 1 := by
  have := congrArg List.length h.files
  simpa using this

/-- The segment under scan, up to the records found so far. -/
theorem last_segment (h : Scanning log Ss A rest) :
    (log.segment Ss.length).file = records.encAll A ++ rest ∧
      (log.segment Ss.length).currentSize = (log.segment Ss.length).file.length := by
  have hlt : Ss.length < log.segments.length := by rw [h.length_eq]; omega
  rw [segment_eq_getElem hlt]
  refine ⟨?_, h.sizes _ (List.getElem_mem hlt)⟩
  have hfile := congrArg (fun l => l[Ss.length]?) h.files
  simpa [hlt] using hfile

end Scanning

/-- The index goes on with the records that the scan adds to the last segment. -/
theorem indexFrom_concat_append (X : List (List Bytes)) (A B : List Bytes) :
    indexFrom 0 0 (X ++ [A ++ B])
      = indexFrom 0 0 (X ++ [A])
        ++ indexSegment X.length (X ++ [A]).flatten.length (records.encAll A).length B := by
  simp only [indexFrom_append, indexFrom, indexSegment_append, List.append_nil, Nat.zero_add,
    List.append_assoc, List.flatten_append, List.flatten_cons, List.flatten_nil,
    List.length_append]

/-- `rebuild_index_from_segment` on any file contents: it keeps what a scan finds. -/
theorem rebuildLoop_indexed (rounds : Nat) {log : Log} {Ss : List (List Bytes)}
    {A : List Bytes} {rest : Bytes} (h : Scanning log Ss A rest) (hr : rest.length < rounds) :
    Indexed (rebuildLoop Ss.length rounds (records.encAll A).length log)
      (Ss ++ [A ++ records.scan rest]) := by
  obtain ⟨hfile, hsize⟩ := h.last_segment
  have hlt : Ss.length < log.segments.length := by rw [h.length_eq]; omega
  have hA : ∀ m ∈ A, records.Valid m := h.valid A (by simp)
  have hscan : records.scan (log.segment Ss.length).file = A ++ records.scan rest := by
    rw [hfile, records.scan_encAll_append A hA]
  -- what the scan does not accept is cut off
  obtain ⟨htrim, hsize'⟩ := trim_spec hsize
  rw [hscan] at htrim
  obtain ⟨-, -, -, hrest⟩ := records.exists_scan_append rest
  rw [rebuildLoop_eq rounds hlt hA hfile hsize hr]
  refine ⟨?_, ?_, ?_, ?_, ?_⟩
  · show (log.segments.set _ _).map LogSegment.file = _
    rw [List.map_set, h.files, htrim, List.set_append_right _ _ (by simp)]
    simp
  · intro s hs
    rcases List.mem_or_eq_of_mem_set hs with hs | rfl
    · exact h.sizes s hs
    · exact hsize'
  · intro S hS m hm
    rcases List.mem_append.mp hS with hS | hS
    · exact h.valid S (List.mem_append_left _ hS) m hm
    · rw [List.mem_singleton.mp hS] at hm
      rcases List.mem_append.mp hm with hm | hm
      · exact hA m hm
      · exact hrest m hm
  · show log.nextOffset + (records.scan rest).length = _
    rw [h.next]
    simp only [List.flatten_append, List.flatten_cons, List.flatten_nil, List.append_nil,
      List.length_append]
    omega
  · show log.index ++ indexSegment Ss.length log.nextOffset _ _ = _
    rw [indexFrom_concat_append, h.index, h.next]

/-- Loading one segment file. -/
theorem Indexed.loadSegment {log : Log} {Ss : List (List Bytes)} (h : Indexed log Ss)
    (f : File) : Indexed (log.loadSegment f) (Ss ++ [records.scan f.contents]) := by
  -- before the first round nothing of the file has been scanned
  have hscan : Scanning
      { log with segments := log.segments ++ [LogSegment.reopen f.name f.contents] }
      Ss [] f.contents := by
    refine ⟨?_, ?_, ?_, ?_, ?_⟩
    · show (log.segments ++ [_]).map LogSegment.file = _
      rw [List.map_append, h.files]
      simp [LogSegment.reopen]
    · intro s hs
      rcases List.mem_append.mp hs with hs | hs
      · exact h.sizes s hs
      · rw [List.mem_singleton] at hs
        subst hs
        rfl
    · intro S hS m hm
      rcases List.mem_append.mp hS with hS | hS
      · exact h.valid S hS m hm
      · rw [List.mem_singleton] at hS
        subst hS
        exact absurd hm (by simp)
    · show log.nextOffset = _
      simp [h.next]
    · show log.index = _
      rw [indexFrom_concat_nil, h.index]
  have hloop := rebuildLoop_indexed
    ((Log.segment { log with segments := log.segments ++ [LogSegment.reopen f.name f.contents] }
      Ss.length).sizes + 1) hscan (by
        rw [LogSegment.sizes, hscan.last_segment.2, hscan.last_segment.1]; simp)
  rw [List.nil_append] at hloop
  rw [Log.loadSegment, rebuildIndexFromSegment, h.length_eq]
  exact hloop

/-- Loading a sequence of segment files. -/
theorem Indexed.foldl_loadSegment {log : Log} {Ss : List (List Bytes)} (h : Indexed log Ss)
    (paths : List File) :
    Indexed (paths.foldl Log.loadSegment log)
      (Ss ++ paths.map (fun f => records.scan f.contents)) := by
  induction paths generalizing log Ss with
  | nil => simpa using h
  | cons f paths ih =>
    have := ih (h.loadSegment f)
    rw [List.append_assoc] at this
    exact this

/-- Rebuilding the index of a segment touches the segments, the index and the count. -/
theorem rebuildLoop_frame (si rounds position : Nat) (log : Log) :
    ∃ segments index nextOffset, rebuildLoop si rounds position log
      = { log with segments := segments, index := index, nextOffset := nextOffset } := by
  induction rounds generalizing position log with
  | zero => exact ⟨_, _, _, rfl⟩
  | succ rounds ih =>
    rw [rebuildLoop]
    split
    · split
      · obtain ⟨segments, index, nextOffset, heq⟩ := ih _ _
        exact ⟨segments, index, nextOffset, heq⟩
      · exact ⟨_, _, _, rfl⟩
    · exact ⟨_, _, _, rfl⟩

theorem loadSegment_frame (log : Log) (f : File) :
    ∃ segments index nextOffset, log.loadSegment f
      = { log with segments := segments, index := index, nextOffset := nextOffset } :=
  rebuildLoop_frame _ _ _
    { log with segments := log.segments ++ [LogSegment.reopen f.name f.contents] }

/-- Loading changes no setting. -/
theorem foldl_loadSegment_frame (log : Log) (paths : List File) :
    ∃ segments index nextOffset, paths.foldl loadSegment log
      = { log with segments := segments, index := index, nextOffset := nextOffset } := by
  induction paths generalizing log with
  | nil => exact ⟨_, _, _, rfl⟩
  | cons f paths ih =>
    obtain ⟨segments, index, nextOffset, heq⟩ := ih (log.loadSegment f)
    obtain ⟨_, _, _, heq'⟩ := log.loadSegment_frame f
    refine ⟨segments, index, nextOffset, heq.trans ?_⟩
    rw [heq']

theorem loadExistingSegments_frame (log : Log) (paths : List File) :
    ∃ segments index active nextOffset, log.loadExistingSegments paths
      = { log with segments := segments, index := index, activeSegmentIndex := active,
                   nextOffset := nextOffset } := by
  unfold loadExistingSegments
  split
  · exact ⟨_, _, _, _, rfl⟩
  · obtain ⟨segments, index, nextOffset, heq⟩ := foldl_loadSegment_frame log paths
    rw [heq]
    exact ⟨_, _, _, _, rfl⟩

theorem loadExistingSegments_wal (log : Log) (paths : List File) :
    (log.loadExistingSegments paths).wal = log.wal := by
  obtain ⟨segments, index, active, nextOffset, heq⟩ := loadExistingSegments_frame log paths
  rw [heq]

/-- Scanning the files of a log gives its records back. -/
theorem Indexed.map_scan {log : Log} {Ss : List (List Bytes)} (h : Indexed log Ss) :
    log.segments.map (fun s => records.scan s.file) = Ss := by
  have hfiles := congrArg (List.map records.scan) h.files
  rw [List.map_map, List.map_map] at hfiles
  rw [show log.segments.map (fun s => records.scan s.file) = _ from hfiles]
  -- segment by segment, the scan of an encoding is what was encoded
  exact (List.map_congr_left (fun S hS => records.scan_encAll S (h.valid S hS))).trans
    (List.map_id Ss)

theorem Rep.map_scan {log : Log} {Ss : List (List Bytes)} (h : Rep log Ss) :
    log.segments.map (fun s => records.scan s.file) = Ss :=
  h.toIndexed.map_scan

theorem Rep.flatMap_scan {log : Log} {Ss : List (List Bytes)} (h : Rep log Ss) :
    log.segments.flatMap (fun s => records.scan s.file) = Ss.flatten := by
  rw [List.flatMap_def, h.map_scan]

/-- The file of a segment holds the records that a scan finds, and nothing else. -/
theorem Rep.encAll_scan {log : Log} {Ss : List (List Bytes)} (h : Rep log Ss) {s : LogSegment}
    (hs : s ∈ log.segments) : records.encAll (records.scan s.file) = s.file := by
  have hfile : s.file ∈ log.segments.map LogSegment.file := List.mem_map_of_mem hs
  rw [h.files] at hfile
  obtain ⟨S, hS, heq⟩ := List.mem_map.mp hfile
  rw [← heq, records.scan_encAll S (h.valid S hS)]

/-- The records `load_existing_segments` finds in the files it visits. -/
def loadedRecords (paths : List File) : List (List Bytes) :=
  if paths = [] then [[]] else paths.map (fun f => records.scan f.contents)

/-- The records of all files, in order. -/
theorem flatten_loadedRecords (paths : List File) :
    (loadedRecords paths).flatten = paths.flatMap (fun f => records.scan f.contents) := by
  unfold loadedRecords
  split
  · rename_i h
    rw [h]
    rfl
  · rw [List.flatMap_def]

/-- **Loading.** Whatever the files contain, the loaded log represents the records found
    by scanning them in the order of the visit. -/
theorem loadExistingSegments_rep {log : Log} (h : Indexed log []) (paths : List File) :
    Rep (log.loadExistingSegments paths) (loadedRecords paths) := by
  unfold loadExistingSegments loadedRecords
  by_cases hp : paths = []
  · rw [if_pos hp, if_pos hp]
    refine ⟨⟨rfl, ?_, ?_, h.next, h.index⟩, rfl⟩
    · intro s hs
      rw [List.mem_singleton] at hs
      subst hs
      rfl
    · intro S hS m hm
      rw [List.mem_singleton] at hS
      subst hS
      exact absurd hm (by simp)
  · rw [if_neg hp, if_neg hp]
    have hload := h.foldl_loadSegment paths
    rw [List.nil_append] at hload
    refine ⟨⟨hload.files, hload.sizes, hload.valid, hload.next, hload.index⟩, ?_⟩
    show (paths.foldl Log.loadSegment log).segments.length - 1 + 1
      = (paths.foldl Log.loadSegment log).segments.length
    have hlen := hload.length_eq
    have hpos : 0 < paths.length := List.length_pos_iff.mpr hp
    rw [List.length_map] at hlen
    omega

/-- The constructor's log before it looks at any file. -/
def blank (wal : Bytes) (maxSegmentSize syncBatchSize : Nat) : Log :=
  { segments := [], index := [], activeSegmentIndex := 0, nextOffset := 0, maxSegmentSize,
    wal, syncBatchSize := max 1 syncBatchSize, pendingAppends := 0 }

theorem indexed_blank (wal : Bytes) (maxSegmentSize syncBatchSize : Nat) :
    Indexed (blank wal maxSegmentSize syncBatchSize) [] :=
  ⟨rfl, fun s hs => absurd hs (by simp [blank]), fun S hS => absurd hS (by simp), rfl, rfl⟩

end Log

end StreamingPlatform
