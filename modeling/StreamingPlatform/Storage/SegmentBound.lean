import StreamingPlatform.Storage.CleanLog

namespace StreamingPlatform

open ByteString

/-!
# Storage — how large a segment gets

`append` rolls over to a new segment as soon as the active one has reached
`max_segment_size`, so a segment is smaller than that before its last record (`Bounded`).
Reopening breaks this in two ways (`recovery_overfills`): `recover_wal` appends to the active
segment without ever rolling over, and the segment that becomes active is the one with the
last *name*, which may be full already.  The bound holds over all runs whose reopens find
`Room` for the replayed records, and no weaker condition on the reopens will do
(`segments_bounded`).
-/

open LogSegment (records)

namespace Log

/-! ### The bound -/

/-- Every segment is smaller than `maxSegmentSize` before its last record. -/
def Bounded (maxSegmentSize : Nat) (log : Log) : Prop :=
  ∀ s ∈ log.segments, (records.encAll (records.scan s.file).dropLast).length < maxSegmentSize

instance (maxSegmentSize : Nat) (log : Log) : Decidable (log.Bounded maxSegmentSize) :=
  inferInstanceAs (Decidable (∀ s ∈ log.segments, _ < _))

variable {Ss : List (List Bytes)} {directory : List File}

/-- The bound, on the records of the segments. -/
theorem Rep.bounded_iff {log : Log} (h : Rep log Ss) (maxSegmentSize : Nat) :
    log.Bounded maxSegmentSize
      ↔ ∀ S ∈ Ss, (records.encAll S.dropLast).length < maxSegmentSize := by
  rw [← h.map_scan, List.forall_mem_map]
  rfl

/-! ### Directories and runs -/

/-- The directories that a log leaves: after a flush, or after a crash that cuts the segment
    files no shorter than what was synced and leaves the WAL intact. -/
inductive Leaves (log : Log) : List File → Prop where
  | clean : Leaves log log.flush.directory
  | crash (cuts : List Nat) : log.Covers cuts →
      Leaves log (log.crashDirectory cuts log.wal.length)

/-- The states of a log over appends, flushes, clean reopens and crash recoveries, from an
    empty directory, where all reopened directories satisfy `P`. -/
inductive Operated (maxSegmentSize : Nat) (P : List File → Prop) : Log → Prop where
  | fresh (syncBatchSize : Nat) :
      Operated maxSegmentSize P (construct [] maxSegmentSize syncBatchSize)
  | append {log : Log} (m : Bytes) : Operated maxSegmentSize P log → m.length < 2 ^ 64 →
      Operated maxSegmentSize P (log.append m).2
  | flush {log : Log} : Operated maxSegmentSize P log → Operated maxSegmentSize P log.flush
  | reopen {log : Log} (directory : List File) (syncBatchSize : Nat) :
      Operated maxSegmentSize P log → log.Leaves directory → P directory →
      Operated maxSegmentSize P (construct directory maxSegmentSize syncBatchSize)

/-- The records in the file that a construction makes the active segment: the one with the
    last name. -/
def lastRecords (directory : List File) : List Bytes :=
  (loadedRecords (segmentPaths directory)).getLastD []

/-- The messages that `recover_wal` appends. -/
def replayed (directory : List File) : List Bytes :=
  let found := (segmentPaths directory).flatMap (fun f => records.scan f.contents)
  (replay found (walEntries.scan (walContents directory))).drop found.length

/-- The active segment stays below `maxSegmentSize` with the replayed records. -/
def Room (maxSegmentSize : Nat) (directory : List File) : Prop :=
  (records.encAll (lastRecords directory ++ replayed directory)).length < maxSegmentSize

instance (maxSegmentSize : Nat) (directory : List File) :
    Decidable (Room maxSegmentSize directory) := inferInstanceAs (Decidable (_ < _))

/-! ### One call -/

/-- What `append` does to the records of the segments. -/
theorem Rep.append_rollOver {log : Log} {X : List (List Bytes)} {S : List Bytes}
    (h : Rep log (X ++ [S])) {m : Bytes} (hm : records.Valid m) :
    Rep (log.append m).2 (X ++ [S ++ [m]] ++
      if log.maxSegmentSize ≤ (records.encAll (S ++ [m])).length then [[]] else []) := by
  have hwal : Rep (log.writeWal log.nextOffset m) (X ++ [S]) := h.of_eq rfl rfl rfl rfl rfl
  have hrecord := hwal.appendRecord hm
  let log' := (log.writeWal log.nextOffset m).appendRecord m
  have hsize : log'.activeSegment.sizes = (records.encAll (S ++ [m])).length := by
    obtain ⟨hfile, hsize⟩ := hrecord.segment_file
    rw [activeSegment, hrecord.active_eq, LogSegment.sizes, hsize, hfile]
  rw [append_eq_settle]
  show Rep log'.settle _
  by_cases hfull : log.maxSegmentSize ≤ (records.encAll (S ++ [m])).length
  · have hfull' : log'.activeSegment.sizes ≥ log'.maxSegmentSize := by rwa [hsize]
    simp only [settle, if_pos hfull, if_pos hfull']
    split
    · exact hrecord.rollOver.map_sync rfl rfl rfl rfl
    · exact hrecord.rollOver.of_eq rfl rfl rfl rfl rfl
  · have hfull' : ¬ log'.activeSegment.sizes ≥ log'.maxSegmentSize := by rwa [hsize]
    simp only [settle, if_neg hfull, if_neg hfull', List.append_nil]
    split
    · exact hrecord.map_sync rfl rfl rfl rfl
    · exact hrecord.of_eq rfl rfl rfl rfl rfl

/-- A log whose segments are bounded and whose active segment can take one more record. -/
structure Open (maxSegmentSize : Nat) (log : Log) (X : List (List Bytes)) (S : List Bytes) :
    Prop where
  rep : Rep log (X ++ [S])
  size : log.maxSegmentSize = maxSegmentSize
  bounded : ∀ T ∈ X, (records.encAll T.dropLast).length < maxSegmentSize
  room : (records.encAll S).length < maxSegmentSize

theorem length_encAll_le {S T : List Bytes} (h : S <+: T) :
    (records.encAll S).length ≤ (records.encAll T).length := by
  obtain ⟨R, rfl⟩ := h
  rw [Format.encAll_append, List.length_append]
  omega

/-- Fewer records, and the last of them dropped. -/
theorem length_dropLast_le {S T : List Bytes} (h : S <+: T) :
    (records.encAll S.dropLast).length ≤ (records.encAll T.dropLast).length := by
  refine length_encAll_le ?_
  obtain ⟨R, rfl⟩ := h
  by_cases hR : R = []
  · simp [hR]
  · rw [List.dropLast_append_of_ne_nil hR]
    exact (List.dropLast_prefix S).trans (List.prefix_append _ _)

namespace Open

variable {maxSegmentSize : Nat} {log : Log} {X : List (List Bytes)} {S : List Bytes}

theorem forall_mem (h : Open maxSegmentSize log X S) :
    ∀ T ∈ X ++ [S], (records.encAll T.dropLast).length < maxSegmentSize := by
  intro T hT
  rcases List.mem_append.mp hT with hT | hT
  · exact h.bounded T hT
  · rw [List.mem_singleton.mp hT]
    exact lt_of_le_of_lt (length_encAll_le (List.dropLast_prefix S)) h.room

theorem toBounded (h : Open maxSegmentSize log X S) : log.Bounded maxSegmentSize :=
  (h.rep.bounded_iff maxSegmentSize).mpr h.forall_mem

theorem flush (h : Open maxSegmentSize log X S) : Open maxSegmentSize log.flush X S := by
  unfold Log.flush
  split
  · exact ⟨h.rep.map_sync rfl rfl rfl rfl, h.size, h.bounded, h.room⟩
  · exact h

/-- The segment that takes the record had room before, and if it has none now, a new one
    becomes active. -/
theorem append (h : Open maxSegmentSize log X S) (hpos : 1 ≤ maxSegmentSize) {m : Bytes}
    (hm : records.Valid m) : ∃ X' S', Open maxSegmentSize (log.append m).2 X' S' := by
  have hrep := h.rep.append_rollOver hm
  have hsize : (log.append m).2.maxSegmentSize = maxSegmentSize := by
    rw [append_eq_settle, ← h.size]
    rcases settle_cases ((log.writeWal log.nextOffset m).appendRecord m) with
      ⟨-, heq | heq⟩ | ⟨-, heq | heq⟩ <;> rw [heq] <;> rfl
  rw [h.size] at hrep
  split at hrep
  · refine ⟨X ++ [S ++ [m]], [], hrep, hsize, fun T hT => ?_, hpos⟩
    rcases List.mem_append.mp hT with hT | hT
    · exact h.bounded T hT
    · rw [List.mem_singleton.mp hT, List.dropLast_concat]
      exact h.room
  · next hfull =>
    rw [List.append_nil] at hrep
    exact ⟨X, S ++ [m], hrep, hsize, h.bounded, Nat.lt_of_not_le hfull⟩

end Open

/-! ### Reopening -/

/-- Every segment file of a directory that a log leaves holds records with which one of the
    log's segments begins. -/
theorem Leaves.exists_segment {log : Log} (hrep : Rep log Ss) (h : log.Leaves directory) {f : File}
    (hf : f ∈ segmentPaths directory) :
    ∃ s ∈ log.segments, records.scan f.contents <+: records.scan s.file := by
  have hname : ¬ isSegmentFile (ofString "append.wal") = true := by decide
  obtain ⟨hmem, hsegment⟩ := List.mem_filter.mp ((List.perm_insertionSort _ _).mem_iff.mp hf)
  cases h with
  | clean =>
    rcases List.mem_append.mp hmem with hmem | hmem
    · obtain ⟨s, hs, rfl⟩ := List.mem_map.mp hmem
      unfold Log.flush at hs
      split at hs
      · obtain ⟨s₀, hs₀, rfl⟩ := List.mem_map.mp hs
        exact ⟨s₀, hs₀, List.prefix_refl _⟩
      · exact ⟨s, hs, List.prefix_refl _⟩
    · rw [List.mem_singleton.mp hmem] at hsegment
      exact absurd hsegment hname
  | crash cuts hcuts =>
    rcases List.mem_append.mp hmem with hmem | hmem
    · rw [crashFiles, ← List.map_uncurry_zip_eq_zipWith] at hmem
      obtain ⟨⟨s, c⟩, hsc, rfl⟩ := List.mem_map.mp hmem
      -- a crash keeps a beginning of each file
      have hs : s ∈ log.segments := (List.of_mem_zip hsc).1
      obtain ⟨-, -, -, hvalid⟩ := records.exists_scan_append s.file
      refine ⟨s, hs, ?_⟩
      show records.scan (s.file.take c) <+: _
      rw [← hrep.encAll_scan hs, records.scan_take c _ hvalid, scan_encAll_scan]
      exact records.fit_prefix c _
    · rw [List.mem_singleton.mp hmem] at hsegment
      exact absurd hsegment hname

/-- So what is loaded keeps the bound. -/
theorem Leaves.bounded {log : Log} (hrep : Rep log Ss) {maxSegmentSize : Nat}
    (hpos : 1 ≤ maxSegmentSize) (hbounded : log.Bounded maxSegmentSize) (h : log.Leaves directory) :
    ∀ T ∈ loadedRecords (segmentPaths directory),
      (records.encAll T.dropLast).length < maxSegmentSize := by
  intro T hT
  unfold loadedRecords at hT
  split at hT
  · rw [List.mem_singleton.mp hT]
    exact hpos
  · obtain ⟨f, hf, rfl⟩ := List.mem_map.mp hT
    obtain ⟨s, hs, hprefix⟩ := h.exists_segment hrep hf
    exact lt_of_le_of_lt (length_dropLast_le hprefix) (hbounded s hs)

/-- The records of a new log: the replayed ones are all in the last segment. -/
theorem construct_rep (directory : List File) (maxSegmentSize syncBatchSize : Nat) :
    ∃ X, loadedRecords (segmentPaths directory) = X ++ [lastRecords directory] ∧
      Rep (construct directory maxSegmentSize syncBatchSize)
        (X ++ [lastRecords directory ++ replayed directory]) := by
  have hload := loaded_rep directory maxSegmentSize syncBatchSize
  obtain ⟨X, S, hconcat⟩ := hload.exists_concat
  have hlast : lastRecords directory = S := by
    rw [lastRecords, hconcat, List.getLastD_concat]
  rw [hconcat] at hload
  obtain ⟨R, hrep, hflat⟩ := recoverWal_rep hload
  have hreplayed : replayed directory = R := by
    rw [replayed, ← flatten_loadedRecords, hconcat, ← loaded_wal directory maxSegmentSize
      syncBatchSize, ← hflat, List.drop_left]
  rw [hlast, hreplayed]
  exact ⟨X, hconcat, hrep⟩

theorem Open.construct {maxSegmentSize : Nat}
    (hbounded : ∀ T ∈ loadedRecords (segmentPaths directory),
      (records.encAll T.dropLast).length < maxSegmentSize) (hroom : Room maxSegmentSize directory)
    (syncBatchSize : Nat) :
    ∃ X S, Open maxSegmentSize (construct directory maxSegmentSize syncBatchSize) X S := by
  obtain ⟨X, hload, hrep⟩ := construct_rep directory maxSegmentSize syncBatchSize
  obtain ⟨segments, index, active, nextOffset, heq⟩ :=
    construct_frame directory maxSegmentSize syncBatchSize
  refine ⟨X, _, hrep, by rw [heq], fun T hT => hbounded T ?_, hroom⟩
  rw [hload]
  exact List.mem_append_left _ hT

/-! ### Whole runs -/

theorem Operated.exists_open {maxSegmentSize : Nat} (hpos : 1 ≤ maxSegmentSize) {log : Log}
    (h : Operated maxSegmentSize (Room maxSegmentSize) log) :
    ∃ X S, Open maxSegmentSize log X S := by
  induction h with
  | fresh syncBatchSize =>
    have hroom : Room maxSegmentSize [] := hpos
    refine Open.construct (fun T hT => ?_) hroom syncBatchSize
    rw [List.mem_singleton.mp hT]
    exact hpos
  | append m _ hm ih =>
    obtain ⟨X, S, hopen⟩ := ih
    exact hopen.append hpos (show m.length < 256 ^ 8 by omega)
  | flush _ ih =>
    obtain ⟨X, S, hopen⟩ := ih
    exact ⟨X, S, hopen.flush⟩
  | reopen directory syncBatchSize _ hleaves hroom ih =>
    obtain ⟨X, S, hopen⟩ := ih
    exact Open.construct (hleaves.bounded hopen.rep hpos hopen.toBounded) hroom syncBatchSize

theorem Operated.appends {maxSegmentSize : Nat} {P : List File → Prop} {log : Log}
    (h : Operated maxSegmentSize P log) (ms : List Bytes) (hms : ∀ m ∈ ms, m.length < 2 ^ 64) :
    Operated maxSegmentSize P (ms.foldl (fun log m => (log.append m).2) log) := by
  induction ms generalizing log with
  | nil => exact h
  | cons m ms ih =>
    exact ih (h.append m (hms m (by simp))) (fun m' hm' => hms m' (by simp [hm']))

/-- Four records in segments of at most 20 bytes, of which the first three are in the first
    segment. -/
def fourRecords : Log :=
  [[1], [2], [3], [4]].foldl (fun log m => (log.append m).2) (construct [] 20 64)

/-- **Segments are bounded as long as reopens find room.**  In every state of a run whose
    reopens all find room, each segment is smaller than `max_segment_size` before its last
    record.  The condition is exact: whatever directory such a state leaves, the log reopened
    on it keeps the bound over the next append if and only if there was room. -/
theorem segments_bounded (maxSegmentSize : Nat) (hpos : 1 ≤ maxSegmentSize) (log : Log)
    (h : Operated maxSegmentSize (Room maxSegmentSize) log) :
    log.Bounded maxSegmentSize ∧
      ∀ directory, log.Leaves directory → ∀ syncBatchSize,
        (∀ m : Bytes, m.length < 2 ^ 64 →
          ((construct directory maxSegmentSize syncBatchSize).append m).2.Bounded maxSegmentSize)
        ↔ Room maxSegmentSize directory := by
  obtain ⟨X, S, hopen⟩ := h.exists_open hpos
  refine ⟨hopen.toBounded, fun directory hleaves syncBatchSize => ⟨fun hall => ?_, ?_⟩⟩
  · -- an empty message is enough to show that there was room
    obtain ⟨X', -, hrep⟩ := construct_rep directory maxSegmentSize syncBatchSize
    have hafter := hrep.append_rollOver (m := []) (show 0 < 256 ^ 8 by omega)
    have hlast := (hafter.bounded_iff maxSegmentSize).mp (hall [] (show 0 < 2 ^ 64 by omega))
      (lastRecords directory ++ replayed directory ++ [[]]) (by simp)
    rwa [List.dropLast_concat] at hlast
  · intro hroom m hm
    obtain ⟨X', S', hopen'⟩ := Open.construct
      (hleaves.bounded hopen.rep hpos hopen.toBounded) hroom syncBatchSize
    obtain ⟨X'', S'', hopen''⟩ := hopen'.append hpos (show m.length < 256 ^ 8 by omega)
    exact hopen''.toBounded

/-- A crash that takes the last record only: it is replayed, and there is room for it. -/
theorem segments_bounded_replayed :
    (construct (fourRecords.crashDirectory [27, 0] fourRecords.wal.length) 20 64).Bounded 20 :=
  (segments_bounded 20 (by decide) _
    (.reopen _ 64 ((Operated.fresh 64).appends [[1], [2], [3], [4]] (by decide))
      (.crash [27, 0] (by decide +kernel)) (by decide +kernel))).1

/-- Ten records in segments that roll over at every record. -/
def tenSegments : Log :=
  ((List.range 10).map (fun n => [UInt8.ofNat n])).foldl (fun log m => (log.append m).2)
    (construct [] 1 64)

/-- **Recovery overfills a segment.**  A crash that takes all four records: `recover_wal` puts
    them into one segment, which has 27 bytes before the last of them.  Without any crash, a
    reopen makes the full `segment-9.log` the active segment, since `segment-10.log` sorts
    before it, and the next record goes there. -/
theorem recovery_overfills :
    let recovered := construct (fourRecords.crashDirectory [0, 0] fourRecords.wal.length) 20 64
    let reopened := ((construct tenSegments.flush.directory 1 64).append [10]).2
    (Operated 20 (fun _ => True) recovered ∧ ¬ recovered.Bounded 20) ∧
      (Operated 1 (fun _ => True) reopened ∧ ¬ reopened.Bounded 1) := by
  intro recovered reopened
  have hrecovered : Operated 20 (fun _ => True) recovered :=
    .reopen _ 64 ((Operated.fresh 64).appends [[1], [2], [3], [4]] (by decide))
      (.crash [0, 0] (by decide +kernel)) trivial
  have hreopened : Operated 1 (fun _ => True) reopened :=
    .append [10] (.reopen _ 64 ((Operated.fresh 64).appends _ (by decide)) .clean trivial)
      (by decide)
  exact ⟨⟨hrecovered, by decide +kernel⟩, ⟨hreopened, by decide +kernel⟩⟩

end Log

end StreamingPlatform
