import StreamingPlatform.Storage.CleanLog

namespace StreamingPlatform

open ByteString

/-!
# Storage — the index in memory is the index of the files

Three pieces of code add checkpoints to the index: `append`, `recover_wal` and
`rebuild_index_from_segment`.  `Reached` are the states of a log over any sequence of
constructions, appends and flushes; a construction finds the log's files with any contents,
so crashes are included.  In all of them, rebuilding the index from the segments changes
nothing (`index_eq_rebuilt`), and the checkpoints are dense enough for a fetch to stay in one
segment and to read at most `kIndexStride` records.
-/

open LogSegment (records)

namespace Log

/-! ### The names of the segment files -/

/-- The paths are those of the segments number `0`, `1`, …, each once. -/
def DensePaths (paths : List Bytes) : Prop :=
  paths.Perm ((List.range paths.length).map segmentName)

namespace DensePaths

variable {paths paths' : List Bytes}

theorem perm (h : DensePaths paths) (hperm : paths'.Perm paths) : DensePaths paths' := by
  unfold DensePaths
  rw [hperm.length_eq]
  exact hperm.trans h

/-- The next segment takes the next name. -/
theorem concat (h : DensePaths paths) : DensePaths (paths ++ [segmentName paths.length]) := by
  unfold DensePaths
  rw [List.length_append, List.length_singleton, List.range_succ, List.map_append]
  exact h.append_right _

/-- Dense names are distinct. -/
theorem nodup (h : DensePaths paths) : paths.Nodup :=
  h.nodup_iff.mpr (List.nodup_range.map (fun _ _ => segmentName_injective))

theorem isSegmentFile (h : DensePaths paths) : ∀ path ∈ paths, isSegmentFile path = true := by
  intro path hpath
  obtain ⟨n, -, rfl⟩ := List.mem_map.mp (h.mem_iff.mp hpath)
  exact isSegmentFile_segmentName n

/-- The file that a rollover opens does not exist yet. -/
theorem fresh (h : DensePaths paths) : segmentName paths.length ∉ paths := by
  intro hmem
  obtain ⟨n, hn, heq⟩ := List.mem_map.mp (h.mem_iff.mp hmem)
  rw [segmentName_injective heq, List.mem_range] at hn
  exact absurd hn (Nat.lt_irrefl _)

end DensePaths

/-- The file names of the segments. -/
def filePaths (log : Log) : List Bytes := log.segments.map LogSegment.filePath

@[simp] theorem length_filePaths (log : Log) : log.filePaths.length = log.segments.length :=
  List.length_map ..

/-- A roll-over adds the next name. -/
theorem filePaths_rollOver (log : Log) :
    log.rollOver.filePaths = log.filePaths ++ [segmentName log.filePaths.length] := by
  show (log.segments ++ [_]).map LogSegment.filePath = _
  rw [List.map_append, length_filePaths]
  rfl

theorem filePaths_syncPending (log : Log) : log.syncPending.filePaths = log.filePaths :=
  map_map_sync _ (fun _ => rfl) _

/-- Settling adds a segment at most. -/
theorem filePaths_settle (log : Log) :
    log.settle.filePaths = log.filePaths ∨
      log.settle.filePaths = log.filePaths ++ [segmentName log.filePaths.length] := by
  rcases log.settle_cases with ⟨-, heq | heq⟩ | ⟨-, heq | heq⟩ <;> rw [heq]
  · exact .inl (filePaths_syncPending log)
  · exact .inr ((filePaths_syncPending _).trans (filePaths_rollOver log))
  · exact .inl rfl
  · exact .inr (filePaths_rollOver log)

/-- So does an append. -/
theorem filePaths_append (log : Log) (m : Bytes) :
    (log.append m).2.filePaths = log.filePaths ∨
      (log.append m).2.filePaths = log.filePaths ++ [segmentName log.filePaths.length] := by
  have hrecord : ((log.writeWal log.nextOffset m).appendRecord m).filePaths = log.filePaths :=
    filePaths_appendRecord _ m
  rw [append_eq_settle, ← hrecord]
  exact filePaths_settle _

theorem filePaths_flush (log : Log) : log.flush.filePaths = log.filePaths := by
  unfold flush
  split
  · exact filePaths_syncPending log
  · rfl

/-- The names of the files in a directory that are taken for segments. -/
def segmentNames (directory : List File) : List Bytes :=
  (directory.filter (fun f => isSegmentFile f.name)).map File.name

/-- A new log has the segment files of its directory, or one if there are none. -/
theorem filePaths_construct (directory : List File) (maxSegmentSize syncBatchSize : Nat) :
    (construct directory maxSegmentSize syncBatchSize).filePaths.Perm
      (if segmentNames directory = [] then [segmentName 0] else segmentNames directory) := by
  have hpaths : (construct directory maxSegmentSize syncBatchSize).filePaths
      = if segmentPaths directory = [] then [segmentName 0]
        else (segmentPaths directory).map File.name :=
    (recoverWal_filePaths _).trans (loaded_filePaths directory maxSegmentSize syncBatchSize)
  have hperm : ((segmentPaths directory).map File.name).Perm (segmentNames directory) :=
    (List.perm_insertionSort _ _).map _
  rw [hpaths]
  by_cases hp : segmentPaths directory = []
  · rw [hp, List.map_nil] at hperm
    rw [if_pos hp, if_pos hperm.nil_eq.symm]
  · have hne : segmentNames directory ≠ [] := by
      intro hnil
      rw [hnil] at hperm
      exact hp (List.map_eq_nil_iff.mp hperm.eq_nil)
    rw [if_neg hp, if_neg hne]
    exact hperm

/-- Opening a dense directory gives dense names. -/
theorem densePaths_construct {directory : List File} (h : DensePaths (segmentNames directory))
    (maxSegmentSize syncBatchSize : Nat) :
    DensePaths (construct directory maxSegmentSize syncBatchSize).filePaths := by
  have hperm := filePaths_construct directory maxSegmentSize syncBatchSize
  split at hperm
  · have hone : DensePaths [segmentName 0] := List.Perm.refl [segmentName 0]
    exact hone.perm hperm
  · exact h.perm hperm

variable {log : Log} {Ss : List (List Bytes)} {k : Nat}

/-- A reopen finds the segments that were named. -/
theorem Named.segmentNames_directory {log : Log} (h : log.Named) :
    segmentNames log.directory = log.filePaths := by
  rw [segmentNames, h.filter_directory]
  exact List.map_map ..

/-! ### Reached states -/

/-- The states of a log over constructions, appends and flushes, from an empty directory.
    A construction may find the files of the log with other contents, which a crash has cut
    for example, and any WAL. -/
inductive Reached : Log → Prop where
  | fresh (maxSegmentSize syncBatchSize : Nat) : Reached (construct [] maxSegmentSize syncBatchSize)
  | reopen {log : Log} (directory : List File) (maxSegmentSize syncBatchSize : Nat) :
      Reached log → (segmentNames directory).Perm log.filePaths →
      Reached (construct directory maxSegmentSize syncBatchSize)
  | append {log : Log} (message : Bytes) :
      Reached log → message.length < 2 ^ 64 → Reached (log.append message).2
  | flush {log : Log} : Reached log → Reached log.flush

/-- The files of a reached log are numbered without gaps. -/
theorem Reached.densePaths (h : Reached log) : DensePaths log.filePaths := by
  induction h with
  | fresh maxSegmentSize syncBatchSize => exact List.Perm.refl [segmentName 0]
  | @reopen log directory maxSegmentSize syncBatchSize _ hnames ih =>
    exact densePaths_construct (ih.perm hnames) maxSegmentSize syncBatchSize
  | @append log message _ _ ih =>
    rcases filePaths_append log message with heq | heq <;> rw [heq]
    · exact ih
    · exact ih.concat
  | @flush log _ ih =>
    rw [filePaths_flush]
    exact ih

/-- A reached log stores messages. -/
theorem Reached.rep (h : Reached log) : ∃ Ss, Rep log Ss := by
  have hstores : ∃ ms, log.Stores ms := by
    induction h with
    | fresh => exact ⟨_, construct_empty _ _⟩
    | reopen directory => exact ⟨_, constructFrom_stores _ _ _ _⟩
    | append message _ hm ih =>
      obtain ⟨ms, hms⟩ := ih
      have hvalid : records.Valid message := by
        show message.length < 256 ^ 8
        omega
      exact ⟨_, (hms.append hvalid).2⟩
    | flush _ ih =>
      obtain ⟨ms, hms⟩ := ih
      exact ⟨ms, hms.flush⟩
  obtain ⟨ms, Ss, hrep, -⟩ := hstores
  exact ⟨Ss, hrep⟩

/-! ### Rebuilding -/

/-- Scan the segments again, in the order of the vector, with an empty index and from offset
    0 on. -/
def rebuildAll (log : Log) : Log :=
  (List.range log.segments.length).foldl (fun log si => rebuildIndexFromSegment si log)
    { log with index := [], nextOffset := 0 }

/-- A file of complete records is kept as it is. -/
theorem trim_eq_self {s : LogSegment} (hs : s.currentSize = s.file.length) {S : List Bytes}
    (hS : ∀ m ∈ S, records.Valid m) (hfile : s.file = records.encAll S) :
    records.scan s.file = S ∧ s.trim = s := by
  have hscan : records.scan s.file = S := by rw [hfile, records.scan_encAll S hS]
  refine ⟨hscan, ?_⟩
  rw [LogSegment.trim, hscan, ← hfile, LogSegment.sizes, if_pos hs.symm]

/-- Scanning a segment of a log again adds its checkpoints and its count to any others. -/
theorem Rep.rebuild_segment (h : Rep log Ss) {n : Nat} (hn : n < Ss.length)
    (index : List LogIndexEntry) (nextOffset : Nat) :
    rebuildIndexFromSegment n { log with index := index, nextOffset := nextOffset }
      = { log with
          index := index ++ indexSegment n nextOffset 0 Ss[n]
          nextOffset := nextOffset + Ss[n].length } := by
  have hlt : n < log.segments.length := by rwa [h.length_eq]
  have hseg : log.segment n = log.segments[n] := segment_eq_getElem hlt
  have hsize : (log.segment n).currentSize = (log.segment n).file.length := by
    rw [hseg]
    exact h.sizes _ (List.getElem_mem hlt)
  have hfile : (log.segment n).file = records.encAll Ss[n] := by
    have hfiles := congrArg (fun l => l[n]?) h.files
    rw [hseg]
    simpa [hlt, hn] using hfiles
  obtain ⟨hscan, htrim⟩ := trim_eq_self hsize (h.valid _ (List.getElem_mem hn)) hfile
  have hrebuilt := @rebuildIndexFromSegment_eq
    { log with index := index, nextOffset := nextOffset } n hlt hsize
  have hset : log.segments.set n (log.segment n).trim = log.segments := by
    rw [htrim, hseg, List.set_getElem_self]
  rw [hrebuilt]
  show { log with
      segments := log.segments.set n (log.segment n).trim
      index := index ++ indexSegment n nextOffset 0 (records.scan (log.segment n).file)
      nextOffset := nextOffset + (records.scan (log.segment n).file).length } = _
  rw [hset, hscan]

/-- **Rebuilding the index changes nothing.** -/
theorem Rep.rebuildAll_eq (h : Rep log Ss) : log.rebuildAll = log := by
  -- after `n` segments the index and the count are those of their records
  have hscanned : ∀ n ≤ Ss.length,
      (List.range n).foldl (fun log si => rebuildIndexFromSegment si log)
          { log with index := [], nextOffset := 0 }
        = { log with
            index := indexFrom 0 0 (Ss.take n)
            nextOffset := (Ss.take n).flatten.length } := by
    intro n
    induction n with
    | zero => exact fun _ => rfl
    | succ n ih =>
      intro hn
      have hlt : n < Ss.length := hn
      have htake : Ss.take (n + 1) = Ss.take n ++ [Ss[n]] := List.take_succ_eq_append_getElem hlt
      rw [List.range_succ, List.foldl_append, ih hlt.le, List.foldl_cons, List.foldl_nil,
        h.rebuild_segment hlt, htake, indexFrom_append, indexFrom, indexFrom, List.append_nil,
        List.length_take, Nat.min_eq_left hlt.le, Nat.zero_add, Nat.zero_add, List.flatten_append,
        List.length_append, List.flatten_singleton]
  rw [rebuildAll, h.length_eq, hscanned _ le_rfl, List.take_length, ← h.index, ← h.next]

/-! ### Where the checkpoints are -/

/-- A record at a multiple of the stride, or at the start of a segment, has a checkpoint. -/
theorem checkpoint_mem_indexFrom (X Y : List (List Bytes)) (A B : List Bytes) (m : Bytes)
    (h : (X.flatten.length + A.length) % kIndexStride = 0 ∨ (records.encAll A).length = 0) :
    (⟨X.flatten.length + A.length, X.length, (records.encAll A).length⟩ : LogIndexEntry)
      ∈ indexFrom 0 0 (X ++ (A ++ m :: B) :: Y) := by
  rw [indexFrom_append, indexFrom, indexSegment_append, indexSegment]
  simp only [Nat.zero_add]
  rw [if_pos h]
  simp

/-- Every `kIndexStride`-th record is in the index. -/
theorem Rep.exists_stride (h : Rep log Ss) (hk : k < log.nextOffset)
    (hstride : k % kIndexStride = 0) : ∃ e ∈ log.index, e.offset = k := by
  rw [h.next] at hk
  obtain ⟨X, A, m, B, Y, rfl, rfl, -⟩ := exists_of_lt_flatten hk
  rw [h.index]
  exact ⟨_, checkpoint_mem_indexFrom X Y A B m (.inl hstride), rfl⟩

/-- So is the first record of each segment. -/
theorem Rep.exists_start (h : Rep log Ss) {i : Nat} (hi : i < log.segments.length)
    (hne : log.segments[i].file ≠ []) :
    ∃ e ∈ log.index, e.segmentIndex = i ∧ e.bytePosition = 0 := by
  have hlt : i < Ss.length := by rwa [← h.length_eq]
  have hSs : Ss = Ss.take i ++ Ss[i] :: Ss.drop (i + 1) := by
    rw [List.getElem_cons_drop, List.take_append_drop]
  have hlen : (Ss.take i).length = i := by rw [List.length_take, Nat.min_eq_left hlt.le]
  cases hS : Ss[i] with
  | nil =>
    -- the file of a segment without records is empty
    refine absurd ?_ hne
    have hfiles := congrArg (fun l => l[i]?) h.files
    simpa [hlt, hi, hS] using hfiles
  | cons m S =>
    have hmem := checkpoint_mem_indexFrom (Ss.take i) (Ss.drop (i + 1)) [] S m (.inr rfl)
    rw [List.nil_append, ← hS, ← hSs, ← h.index] at hmem
    exact ⟨_, hmem, hlen, rfl⟩

/-! ### What a fetch reads -/

/-- `Log::fetch` together with the segments that it reads a record from, one entry for each
    read. -/
def fetchTraced (log : Log) (offset : Nat) : List Nat × Except StdException Bytes :=
  if offset ≥ log.nextOffset then ([], .error (.outOfRange "Invalid offset"))
  else
    match log.checkpoint offset with
    | none => ([], .error (.outOfRange "missing sparse index checkpoint"))
    | some e =>
      log.fetchLoopTraced offset (offset - e.offset + 1) e.offset e.segmentIndex e.bytePosition

/-- The trace does not change the result. -/
theorem fetchTraced_snd (log : Log) (offset : Nat) :
    (log.fetchTraced offset).2 = log.fetch offset := by
  unfold fetchTraced fetch
  split
  · rfl
  · cases log.checkpoint offset with
    | none => rfl
    | some e => exact fetchLoopTraced_snd ..

/-- The checkpoint for an offset is less than a stride before it. -/
theorem Rep.lt_checkpoint (h : Rep log Ss) (hk : k < log.nextOffset) {e : LogIndexEntry}
    (he : log.checkpoint k = some e) : k < e.offset + kIndexStride := by
  have hmultiple : (k - k % 64) % kIndexStride = 0 := by
    show (k - k % 64) % 64 = 0
    omega
  obtain ⟨e₀, he₀, hoff⟩ := h.exists_stride (by omega) hmultiple
  have hsorted : log.index.Pairwise (fun a b => a.offset < b.offset) := by
    rw [h.index]
    exact indexFrom_sorted 0 0 Ss
  obtain ⟨e₁, -, hlast, -, hmax⟩ :=
    getLast?_takeWhile_le LogIndexEntry.offset k hsorted he₀ (by omega)
  obtain rfl : e₁ = e := Option.some.inj (hlast.symm.trans he)
  have hle := hmax e₀ he₀ (by omega)
  show k < e₁.offset + 64
  omega

/-- **A fetch reads at most a stride of records, all from one segment.** -/
theorem Rep.fetchTraced_eq (h : Rep log Ss) (hk : k < log.nextOffset) :
    ∃ n ≤ kIndexStride, ∃ i m, log.fetchTraced k = (List.replicate n i, .ok m) := by
  obtain ⟨X, A, ms, m, B, Y, rfl, rfl, -, hcp⟩ := h.checkpoint_spec (h.next ▸ hk)
  have hnear := h.lt_checkpoint hk hcp
  have hwalk := h.fetchLoopTraced_eq ms
  refine ⟨ms.length + 1, ?_, X.length, m, ?_⟩
  · dsimp only at hnear
    omega
  · rw [fetchTraced, if_neg (Nat.not_le.mpr hk), hcp]
    dsimp only
    rw [Nat.add_sub_cancel_left, hwalk]

/-- **The index in memory is the rebuilt one.**  In every state that constructions, appends
    and flushes lead to, scanning the segments again from offset 0 gives the index and the
    next offset that the log has in memory.  The offsets of the index increase, every segment
    that is not empty has a checkpoint at its start and every multiple of the stride has one;
    a fetch succeeds, reads from one segment only and at most a stride of records.  The file
    that the next rollover opens is a new one. -/
theorem index_eq_rebuilt (log : Log) (h : Reached log) :
    log.rebuildAll.index = log.index ∧ log.rebuildAll.nextOffset = log.nextOffset ∧
      log.index.Pairwise (fun a b => a.offset < b.offset) ∧
      (∀ i (hi : i < log.segments.length), log.segments[i].file ≠ [] →
        ∃ e ∈ log.index, e.segmentIndex = i ∧ e.bytePosition = 0) ∧
      (∀ k < log.nextOffset, k % kIndexStride = 0 → ∃ e ∈ log.index, e.offset = k) ∧
      (∀ k < log.nextOffset, ∃ n ≤ kIndexStride, ∃ i m,
        log.fetchTraced k = (List.replicate n i, .ok m) ∧ log.fetch k = .ok m) ∧
      segmentName log.segments.length ∉ log.filePaths := by
  obtain ⟨Ss, hrep⟩ := h.rep
  refine ⟨by rw [hrep.rebuildAll_eq], by rw [hrep.rebuildAll_eq], ?_,
    fun i hi => hrep.exists_start hi, fun k hk => hrep.exists_stride hk, fun k hk => ?_, ?_⟩
  · rw [hrep.index]
    exact indexFrom_sorted 0 0 Ss
  · obtain ⟨n, hn, i, m, htraced⟩ := hrep.fetchTraced_eq hk
    refine ⟨n, hn, i, m, htraced, ?_⟩
    rw [← fetchTraced_snd, htraced]
  · rw [← length_filePaths]
    exact h.densePaths.fresh

/-- Two messages in segments of their own; a crash takes the second, and the WAL brings it
    back. -/
theorem index_eq_rebuilt_replayed :
    let log := ((construct [] 9 64).append [7]).2
    let log' := construct ((log.append [8]).2.crashDirectory [9, 3, 0] 34) 9 64
    log'.rebuildAll.index = log'.index ∧ log'.index.length = 2 ∧ log'.fetch 1 = .ok [8] := by
  intro log log'
  have hone : Reached log := (Reached.fresh 9 64).append [7] (by decide)
  have htwo : Reached (log.append [8]).2 := hone.append [8] (by decide)
  have hreached : Reached log' := htwo.reopen _ 9 64 (by decide +kernel)
  have hindex := index_eq_rebuilt log' hreached
  exact ⟨hindex.1, by decide +kernel, by decide +kernel⟩

end Log

end StreamingPlatform
