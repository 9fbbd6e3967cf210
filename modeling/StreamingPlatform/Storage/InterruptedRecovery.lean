import StreamingPlatform.Storage.IndexRebuild

namespace StreamingPlatform

open ByteString

/-!
# Storage — a crash during recovery

Constructing a log writes to the disk: torn tails are cut off, records of the WAL are
appended to the active segment, and at the end the WAL is emptied.  `Interrupted` are the
directories that a crash between or inside these writes leaves.  If the WAL holds entries
with consecutive offsets, a second construction finishes what the first one began
(`interrupted_recovery`): tails that were cut scan the same, and entries whose records are in
the segment already are skipped (`replay_replay_take`).
-/

open LogSegment (records)

namespace Log

/-! ### Replaying twice -/

/-- The number of entries before the one that carries the next offset, when the first entry
    has the offset `a`. -/
def skipped (a next : Nat) : Nat := (next + (2 ^ 64 - a % 2 ^ 64)) % 2 ^ 64

/-- **Replay of consecutive offsets.**  Entries are skipped up to the next offset, and from
    there on all of them are appended. -/
theorem replay_consecutive (ms : List Bytes) (a n : Nat) (rs : List Bytes) :
    replay rs (entriesFrom ms a n)
      = rs ++ ((entriesFrom ms a n).drop (skipped a rs.length)).map Prod.snd := by
  induction n generalizing a rs with
  | zero =>
    have hnil : entriesFrom ms a 0 = [] := rfl
    rw [hnil, List.drop_nil, List.map_nil, List.append_nil]
    rfl
  | succ n ih =>
    rw [entriesFrom_succ, replay, ih]
    by_cases hnext : a % 2 ^ 64 = rs.length % 2 ^ 64
    · -- the entry is appended, and so are all behind it
      have hzero : skipped a rs.length = 0 := by
        unfold skipped
        omega
      have hzero' : skipped (a + 1) (rs ++ [ms.getD a []]).length = 0 := by
        unfold skipped
        rw [List.length_append, List.length_singleton]
        omega
      dsimp only
      rw [if_pos hnext, hzero, hzero', List.drop_zero, List.drop_zero, List.map_cons,
        List.append_assoc, List.singleton_append]
    · -- the entry is skipped
      have hsucc : skipped a rs.length = skipped (a + 1) rs.length + 1 := by
        unfold skipped
        omega
      dsimp only
      rw [if_neg hnext, hsucc, List.drop_succ_cons]

/-- Replaying all entries after the first `k` is replaying all of them. -/
theorem replay_replay_entriesFrom (ms : List Bytes) (a : Nat) {n k : Nat} (hn : n < 2 ^ 64)
    (hk : k ≤ n) (rs : List Bytes) :
    replay (replay rs (entriesFrom ms a k)) (entriesFrom ms a n)
      = replay rs (entriesFrom ms a n) := by
  rw [replay_consecutive ms a k rs]
  by_cases hskip : k ≤ skipped a rs.length
  · -- none of the first `k` was appended
    rw [List.drop_eq_nil_of_le (by rwa [length_entriesFrom]), List.map_nil, List.append_nil]
  · -- the next offset is now that of entry `k`
    have hnext : skipped a (rs ++ ((entriesFrom ms a k).drop (skipped a rs.length)).map
        Prod.snd).length = k := by
      rw [List.length_append, List.length_map, List.length_drop, length_entriesFrom]
      unfold skipped at hskip ⊢
      omega
    have hsplit : (entriesFrom ms a n).drop (skipped a rs.length)
        = (entriesFrom ms a k).drop (skipped a rs.length) ++ (entriesFrom ms a n).drop k := by
      conv_lhs => rw [← List.take_append_drop k (entriesFrom ms a n), take_entriesFrom _ _ _ _ hk]
      rw [List.drop_append_of_le_length (by rw [length_entriesFrom]; omega)]
    rw [replay_consecutive, hnext, replay_consecutive, hsplit, List.map_append, List.append_assoc]

/-- **Replay resumes.**  The same for the entries of some number of rounds. -/
theorem replay_replay_take (ms : List Bytes) (a n : Nat) (hn : n < 2 ^ 64) (rs : List Bytes)
    (rounds : Nat) :
    replay (replay rs ((entriesFrom ms a n).take rounds)) (entriesFrom ms a n)
      = replay rs (entriesFrom ms a n) := by
  by_cases hr : rounds ≤ n
  · rw [take_entriesFrom _ _ _ _ hr]
    exact replay_replay_entriesFrom ms a hn hr rs
  · rw [List.take_of_length_le (by rw [length_entriesFrom]; omega)]
    exact replay_replay_entriesFrom ms a hn le_rfl rs

/-! ### Directories that a crash leaves -/

/-- The log with its active file cut at `c` bytes. -/
def cutActive (log : Log) (c : Nat) : Log :=
  log.setSegment log.activeSegmentIndex
    { log.activeSegment with file := log.activeSegment.file.take c }

/-- The segment files after the first `visited` of them have been loaded into `log`. -/
def partlyLoaded (log : Log) (paths : List File) (visited : Nat) : List File :=
  ((paths.take visited).foldl loadSegment log).segmentFiles ++ paths.drop visited

/-- The directories that a crash during `Log::Log` on `directory` leaves: after some segment
    files were visited and cut; after some rounds of `recover_wal` and any part of the bytes
    that the next round writes; and after the WAL was emptied. -/
inductive Interrupted (directory : List File) (maxSegmentSize syncBatchSize : Nat) :
    List File → Prop where
  | loading (visited : Nat) :
      Interrupted directory maxSegmentSize syncBatchSize
        (partlyLoaded (blank (walContents directory) maxSegmentSize syncBatchSize)
            (segmentPaths directory) visited
          ++ [⟨ofString "append.wal", walContents directory⟩])
  | replaying (rounds c : Nat) :
      (recoverLoop rounds (walContents directory)
        (loaded directory maxSegmentSize syncBatchSize)).activeSegment.file.length ≤ c →
      Interrupted directory maxSegmentSize syncBatchSize
        ((recoverLoop (rounds + 1) (walContents directory)
          (loaded directory maxSegmentSize syncBatchSize)).cutActive c).directory
  | cleared :
      Interrupted directory maxSegmentSize syncBatchSize
        (construct directory maxSegmentSize syncBatchSize).directory

/-! ### The order of the visit -/

/-- Names of segment files in the order in which a construction visits them. -/
structure VisitOrder (names : List Bytes) : Prop where
  segment : ∀ name ∈ names, isSegmentFile name = true
  sorted : names.Pairwise (· ≤ ·)

theorem visitOrder_segmentPaths (directory : List File) :
    VisitOrder ((segmentPaths directory).map File.name) := by
  have hsort : (segmentPaths directory).map File.name
      = (segmentNames directory).insertionSort (· ≤ ·) :=
    List.map_insertionSort _ (fun a b : Bytes => a ≤ b) File.name _ (fun _ _ _ _ => Iff.rfl)
  rw [hsort]
  refine ⟨fun name hname => ?_, List.pairwise_insertionSort _ _⟩
  rw [(List.perm_insertionSort _ _).mem_iff] at hname
  obtain ⟨f, hf, rfl⟩ := List.mem_map.mp hname
  exact (List.mem_filter.mp hf).2

namespace VisitOrder

variable {files : List File}

/-- Files in this order are visited as they are. -/
theorem segmentPaths_concat (h : VisitOrder (files.map File.name)) (wal : Bytes) :
    segmentPaths (files ++ [⟨ofString "append.wal", wal⟩]) = files := by
  have hnames : ∀ f ∈ files, isSegmentFile f.name = true := fun f hf =>
    h.segment f.name (List.mem_map_of_mem hf)
  have hname : ¬ isSegmentFile (ofString "append.wal") = true := by decide
  have hwal : [File.mk (ofString "append.wal") wal].filter (fun f => isSegmentFile f.name) = [] :=
    List.filter_cons_of_neg hname
  rw [segmentPaths, List.filter_append, List.filter_eq_self.mpr hnames, hwal, List.append_nil]
  exact List.Pairwise.insertionSort_eq (List.pairwise_map.mp h.sorted)

theorem walContents_eq (h : VisitOrder (files.map File.name)) (wal : Bytes) :
    walContents (files ++ [⟨ofString "append.wal", wal⟩]) = wal :=
  walContents_concat (fun f hf => h.segment f.name (List.mem_map_of_mem hf)) wal

end VisitOrder

theorem map_name_segmentFiles (log : Log) : log.segmentFiles.map File.name = log.filePaths :=
  List.map_map ..

/-- The segments of a log are in the order of the visit once they are loaded. -/
theorem visitOrder_loaded (directory : List File) (maxSegmentSize syncBatchSize : Nat) :
    VisitOrder (loaded directory maxSegmentSize syncBatchSize).filePaths := by
  rw [filePaths, loaded_filePaths]
  split
  · refine ⟨fun name hname => ?_, List.pairwise_singleton _ _⟩
    rw [List.mem_singleton.mp hname]
    exact isSegmentFile_segmentName 0
  · exact visitOrder_segmentPaths directory

theorem VisitOrder.cutActive {log : Log} (h : VisitOrder log.filePaths) (c : Nat) :
    VisitOrder (log.cutActive c).filePaths := by
  have hnames := map_set_segment LogSegment.filePath log log.activeSegmentIndex
    { log.activeSegment with file := log.activeSegment.file.take c } rfl
  show VisitOrder (List.map _ (List.set _ _ _))
  rwa [hnames]

/-! ### What a crash leaves is an initial part of the replay -/

/-- One more round of `recover_wal` appends at most one record. -/
theorem recoverLoop_succ_cases (rounds : Nat) (wal : Bytes) (log : Log) :
    recoverLoop (rounds + 1) wal log = recoverLoop rounds wal log ∨
      ∃ m, records.Valid m ∧
        recoverLoop (rounds + 1) wal log = (recoverLoop rounds wal log).appendRecord m := by
  cases hread : readWalEntry wal with
  | none =>
    have hstop : ∀ r, recoverLoop r wal log = log := by
      intro r
      cases r with
      | zero => rfl
      | succ r => rw [recoverLoop, hread]
    exact .inl ((hstop _).trans (hstop _).symm)
  | some p =>
    obtain ⟨⟨offset, message⟩, rest⟩ := p
    have hround : ∀ r, recoverLoop (r + 1) wal log = recoverLoop r rest
        (if offset = log.nextOffset % 2 ^ 64 then log.appendRecord message else log) := by
      intro r
      rw [recoverLoop, hread]
    cases rounds with
    | zero =>
      rw [hround, recoverLoop, recoverLoop]
      split
      · exact .inr ⟨message, valid_of_readWalEntry hread, rfl⟩
      · exact .inl rfl
    | succ rounds =>
      rw [hround, hround]
      exact recoverLoop_succ_cases rounds rest _

/-- The records in the files when the active one is cut. -/
theorem Rep.scan_cutActive {log : Log} {X : List (List Bytes)} {S : List Bytes}
    (h : Rep log (X ++ [S])) (c : Nat) :
    (log.cutActive c).segments.map (fun s => records.scan s.file) = X ++ [records.fit c S] := by
  have hS : ∀ m ∈ S, records.Valid m := h.valid S (by simp)
  have hcut : records.scan (log.activeSegment.file.take c) = records.fit c S := by
    rw [activeSegment, h.active_eq, h.segment_file.1, records.scan_take c S hS]
  show (log.segments.set log.activeSegmentIndex _).map _ = _
  rw [List.map_set, h.map_scan, h.active_eq, hcut, List.set_append_right _ _ le_rfl, Nat.sub_self]
  rfl

/-- A cut behind the records of one round leaves those or the records of the next. -/
theorem scan_recoverLoop_cut {log : Log} {ms : List Bytes} (h : log.Stores ms) (wal : Bytes)
    (rounds : Nat) {c : Nat} (hc : (recoverLoop rounds wal log).activeSegment.file.length ≤ c) :
    ∃ k, ((recoverLoop (rounds + 1) wal log).cutActive c).segments.flatMap
      (fun s => records.scan s.file) = replay ms ((walEntries.scan wal).take k) := by
  obtain ⟨Ss, hrep, hflat⟩ := recoverLoop_stores rounds h wal
  obtain ⟨X, S, rfl⟩ := hrep.exists_concat
  have hS : (records.encAll S).length ≤ c := by
    rwa [activeSegment, hrep.active_eq, hrep.segment_file.1] at hc
  have hfit : records.fit c S = S := by
    have hall : records.fit c (S ++ []) = S ++ [] := records.fit_append hS
    rwa [List.append_nil] at hall
  rcases recoverLoop_succ_cases rounds wal log with heq | ⟨m, hm, heq⟩
  · -- the round wrote nothing
    refine ⟨rounds, ?_⟩
    rw [heq, List.flatMap_def, hrep.scan_cutActive, hfit, hflat]
  · have hrep' := hrep.appendRecord hm
    rw [heq, List.flatMap_def, hrep'.scan_cutActive, records.fit_append hS]
    by_cases hwhole : (records.enc m).length ≤ c - (records.encAll S).length
    · -- the record of the round is complete
      refine ⟨rounds + 1, ?_⟩
      obtain ⟨Ss', hnext, hflat'⟩ := recoverLoop_stores (rounds + 1) h wal
      rw [heq] at hnext
      rw [← hflat', ← hnext.map_scan, hrep'.map_scan]
      simp only [Format.fit, if_pos hwhole]
    · -- the record is torn and is cut off by the next construction
      refine ⟨rounds, ?_⟩
      simp only [Format.fit, if_neg hwhole, List.append_nil]
      exact hflat

/-- Loading keeps the names of the files. -/
theorem map_name_partlyLoaded {log : Log} (hlog : log.segments = []) (paths : List File)
    (visited : Nat) : (log.partlyLoaded paths visited).map File.name = paths.map File.name := by
  rw [partlyLoaded, List.map_append, map_name_segmentFiles, filePaths, foldl_loadSegment_filePaths,
    hlog, List.map_nil, List.nil_append, ← List.map_append, List.take_append_drop]

/-- Loading cuts behind the records, so they stay the same. -/
theorem scan_partlyLoaded {log : Log} (hlog : Indexed log []) (paths : List File) (visited : Nat) :
    (log.partlyLoaded paths visited).flatMap (fun f => records.scan f.contents)
      = paths.flatMap (fun f => records.scan f.contents) := by
  have hscan := (hlog.foldl_loadSegment (paths.take visited)).map_scan
  rw [List.nil_append] at hscan
  rw [partlyLoaded, List.flatMap_append, segmentFiles, List.flatMap_map, List.flatMap_def, hscan,
    ← List.flatMap_def, ← List.flatMap_append, List.take_append_drop]

/-- What a construction finds in the directory of a log whose segments are in the order of
    the visit. -/
theorem VisitOrder.directory {log : Log} (h : VisitOrder log.filePaths) :
    (segmentPaths log.directory).flatMap (fun f => records.scan f.contents)
        = log.segments.flatMap (fun s => records.scan s.file) ∧
      walContents log.directory = log.wal := by
  have hfiles : VisitOrder (log.segmentFiles.map File.name) := by rwa [map_name_segmentFiles]
  rw [Log.directory, hfiles.segmentPaths_concat, hfiles.walContents_eq, segmentFiles,
    List.flatMap_map]
  exact ⟨rfl, rfl⟩

/-- The records on disk are those after some rounds of the replay, with the WAL still there,
    or those after all of it. -/
theorem Interrupted.scan_eq {directory directory' : List File} {maxSegmentSize syncBatchSize : Nat}
    (h : Interrupted directory maxSegmentSize syncBatchSize directory') :
    (∃ k, (segmentPaths directory').flatMap (fun f => records.scan f.contents)
        = replay ((segmentPaths directory).flatMap (fun f => records.scan f.contents))
            ((walEntries.scan (walContents directory)).take k) ∧
        walContents directory' = walContents directory) ∨
      ((segmentPaths directory').flatMap (fun f => records.scan f.contents)
        = replay ((segmentPaths directory).flatMap (fun f => records.scan f.contents))
            (walEntries.scan (walContents directory)) ∧
        walContents directory' = []) := by
  let start := loaded directory maxSegmentSize syncBatchSize
  have horder : VisitOrder start.filePaths :=
    visitOrder_loaded directory maxSegmentSize syncBatchSize
  cases h with
  | loading visited =>
    -- while segments are loaded only torn tails are cut off
    have hfiles : VisitOrder ((partlyLoaded
        (blank (walContents directory) maxSegmentSize syncBatchSize)
        (segmentPaths directory) visited).map File.name) := by
      rw [map_name_partlyLoaded rfl]
      exact visitOrder_segmentPaths directory
    refine .inl ⟨0, ?_, hfiles.walContents_eq _⟩
    rw [hfiles.segmentPaths_concat, scan_partlyLoaded (indexed_blank _ _ _)]
    rfl
  | replaying rounds c hc =>
    -- in the replay the last record may be cut short, and a scan ignores it then
    have hstores : start.Stores
        ((segmentPaths directory).flatMap (fun f => records.scan f.contents)) :=
      ⟨_, loaded_rep directory maxSegmentSize syncBatchSize, flatten_loadedRecords _⟩
    obtain ⟨segments, index, nextOffset, hloop, hpaths⟩ :=
      recoverLoop_frame (rounds + 1) (walContents directory) start
    have hreplayed : VisitOrder
        (recoverLoop (rounds + 1) (walContents directory) start).filePaths := by
      rw [hloop]
      show VisitOrder (segments.map LogSegment.filePath)
      rwa [hpaths]
    obtain ⟨hscan, hwal⟩ := (hreplayed.cutActive c).directory
    obtain ⟨k, hk⟩ := scan_recoverLoop_cut hstores (walContents directory) rounds hc
    refine .inl ⟨k, hscan.trans hk, hwal.trans ?_⟩
    show (recoverLoop (rounds + 1) (walContents directory) start).wal = walContents directory
    rw [hloop]
    exact loaded_wal directory maxSegmentSize syncBatchSize
  | cleared =>
    -- after the replay the WAL is emptied
    have hnew : VisitOrder (construct directory maxSegmentSize syncBatchSize).filePaths := by
      rw [filePaths, construct_eq_recoverWal, recoverWal_filePaths]
      exact horder
    obtain ⟨hscan, hwal⟩ := hnew.directory
    obtain ⟨Ss, hrep, hflat⟩ := constructFrom_stores (segmentPaths directory)
      (walContents directory) maxSegmentSize syncBatchSize
    refine .inr ⟨?_, hwal.trans (recoverWal_wal _)⟩
    rw [hscan, ← hflat]
    exact hrep.flatMap_scan

/-! ### The second construction -/

/-- A WAL that is a byte prefix of entries with consecutive offsets is read as such. -/
theorem scan_consecutive {ms : List Bytes} (hms : ∀ m ∈ ms, m.length < 2 ^ 64) {a n : Nat}
    {wal : Bytes} (hwal : wal <+: walEntries.encAll (entriesFrom ms a n)) :
    ∃ k ≤ wal.length, walEntries.scan wal = entriesFrom ms a k := by
  have hes : ∀ e ∈ entriesFrom ms a n, e.1 < 2 ^ 64 ∧ e.2.length < 2 ^ 64 := by
    intro e he
    obtain ⟨i, -, rfl⟩ := List.mem_map.mp he
    refine ⟨Nat.mod_lt _ (by omega), ?_⟩
    show (ms.getD i []).length < 2 ^ 64
    rw [List.getD_eq_getElem?_getD]
    cases hi : ms[i]? with
    | none => simp
    | some m => exact hms m (List.mem_of_getElem? hi)
  have hscan := scan_take_walEntries hes wal.length
  rw [← List.prefix_iff_eq_take.mp hwal] at hscan
  refine ⟨(walEntries.scan wal).length, walEntries.length_scan_le wal, ?_⟩
  have hle := hscan.length_le
  rw [length_entriesFrom] at hle
  rw [← take_entriesFrom ms a n _ hle]
  exact List.prefix_iff_eq_take.mp hscan

/-- **A crash during recovery is harmless.**  Whatever the segment files hold, if the WAL is a
    byte prefix of entries with the offsets `a`, `a + 1`, … (and no larger than a file can be),
    then a construction on what an interrupted one left ends with the same next offset, the
    same answers of `fetch` and the same records in its files as the construction that was not
    interrupted. -/
theorem interrupted_recovery (directory : List File) (ms : List Bytes)
    (hms : ∀ m ∈ ms, m.length < 2 ^ 64) (a n : Nat)
    (hwal : walContents directory <+: walEntries.encAll (entriesFrom ms a n))
    (hsize : (walContents directory).length < 2 ^ 64) (maxSegmentSize syncBatchSize : Nat)
    (directory' : List File) (h : Interrupted directory maxSegmentSize syncBatchSize directory')
    (maxSegmentSize' syncBatchSize' : Nat) :
    let log := construct directory maxSegmentSize syncBatchSize
    let log' := construct directory' maxSegmentSize' syncBatchSize'
    log'.nextOffset = log.nextOffset ∧
      (∀ offset, log'.fetch offset = log.fetch offset) ∧
      log'.segments.flatMap (fun s => records.scan s.file)
        = log.segments.flatMap (fun s => records.scan s.file) := by
  intro log log'
  have hlog := constructFrom_stores (segmentPaths directory) (walContents directory)
    maxSegmentSize syncBatchSize
  have hlog' := constructFrom_stores (segmentPaths directory') (walContents directory')
    maxSegmentSize' syncBatchSize'
  -- both logs store the whole replay of the WAL on the records of the files
  have hsame : replay ((segmentPaths directory').flatMap (fun f => records.scan f.contents))
      (walEntries.scan (walContents directory'))
        = replay ((segmentPaths directory).flatMap (fun f => records.scan f.contents))
            (walEntries.scan (walContents directory)) := by
    rcases h.scan_eq with ⟨rounds, hscan, hcontents⟩ | ⟨hscan, hcontents⟩
    · obtain ⟨k, hk, hentries⟩ := scan_consecutive hms hwal
      rw [hscan, hcontents, hentries, replay_replay_take ms a k (by omega)]
    · rw [hscan, hcontents]
      rfl
  rw [hsame] at hlog'
  refine ⟨hlog'.nextOffset_eq.trans hlog.nextOffset_eq.symm,
    fun offset => (hlog'.fetch_eq offset).trans (hlog.fetch_eq offset).symm, ?_⟩
  obtain ⟨Ss, hrep, hflat⟩ := hlog
  obtain ⟨Ss', hrep', hflat'⟩ := hlog'
  exact hrep'.flatMap_scan.trans ((hflat'.trans hflat.symm).trans hrep.flatMap_scan.symm)

/-- The segment file ends in two stray bytes and the WAL inside its third entry.  The first
    construction stops when six bytes of the second message's record have been written. -/
theorem interrupted_recovery_torn :
    let wal := (walEntries.encAll (entriesFrom [[1], [2], [3]] 0 3)).take 40
    let directory : List File :=
      [⟨segmentName 0, records.encAll [[1]] ++ [9, 9]⟩, ⟨ofString "append.wal", wal⟩]
    let crashed := ((recoverLoop 2 wal (loaded directory 100 64)).cutActive 15).directory
    (construct crashed 100 64).nextOffset = (construct directory 100 64).nextOffset ∧
      (construct crashed 100 64).fetch 1 = (construct directory 100 64).fetch 1 := by
  intro wal directory crashed
  have hcrash : Interrupted directory 100 64 crashed :=
    .replaying 1 15 (by decide +kernel)
  obtain ⟨hnext, hfetch, -⟩ := interrupted_recovery directory [[1], [2], [3]] (by decide) 0 3
    (List.take_prefix 40 _) (by decide +kernel) 100 64 crashed hcrash 100 64
  exact ⟨hnext, hfetch 1⟩

end Log

end StreamingPlatform
