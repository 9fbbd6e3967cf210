import StreamingPlatform.Storage.StreamRefinement

namespace StreamingPlatform

open ByteString

/-!
# Storage — opening a log that has its directory for itself

A log is opened on what is in its directory: the segment files are scanned, torn tails are cut
off and the WAL is replayed.  Here the same is found as in `Storage/Log`
(`Session.open_construct`), so that a session answers every sequence of calls as the log does
(`Session.run_eq_run`).
-/

namespace Session

/-! ### Segment files -/

namespace Shows

variable {s : Session} {log : Log}

/-- The scan of a segment, which cuts a torn tail off. -/
theorem rebuildLoop (h : s.Shows log) {i : Nat} (hi : i < s.segments.length)
    (rounds position : Nat) :
    After s (Session.rebuildLoop i rounds position s) (Log.rebuildLoop i rounds position log) := by
  induction rounds generalizing s log position with
  | zero => exact h.refl
  | succ rounds ih =>
    rw [Session.rebuildLoop, Log.rebuildLoop]
    dsimp only
    rw [h.currentSize_eq]
    split
    · next hposition =>
      obtain ⟨hread, hafter⟩ := h.read i position
      rw [hread]
      generalize s.setSegment i _ = s' at hafter ⊢
      have hi' : i < s'.segments.length := by rwa [← hafter.shows.length_eq, h.length_eq]
      cases (log.segment i).read position with
      | ok message =>
        dsimp only
        rw [hafter.shows.nextOffset, hafter.shows.index]
        have hindexed := hafter.setIndex
          (if s'.nextOffset % Log.kIndexStride = 0 ∨ position = 0 then
            s'.index ++ [⟨s'.nextOffset, i, position⟩] else s'.index) (s'.nextOffset + 1)
        exact hindexed.trans (ih hindexed.shows hi' _)
      | error e =>
        have hcut := (hafter.shows.segment hi').truncate (Nat.le_of_lt hposition)
        exact hafter.trans (hafter.shows.setSegment hi' hcut)
    · exact h.refl

/-- Loading one segment file. -/
theorem loadSegment (h : s.Shows log) {f : File} (hname : Log.isSegmentFile f.name = true)
    (hnew : f.name ∉ s.filePaths) (hcontents : contentsOf s.directory f.name = f.contents) :
    Loads s [f.name] (s.loadSegment f.name) (log.loadSegment f) := by
  have hadded := h.addSegment hname hnew
  rw [hcontents] at hadded
  have hlast : s.segments.length < (s.addSegment f.name).segments.length := by
    show _ < (s.segments ++ [_]).length
    rw [List.length_append]
    exact Nat.lt_succ_self _
  have hsize : (SegmentStream.reopen f.name s.directory).1.currentSize
      = (Log.segment { log with segments := log.segments ++ [LogSegment.reopen f.name f.contents] }
          log.segments.length).sizes := by
    rw [← hadded.shows.currentSize_eq, h.length_eq]
    simp [Session.segment, Session.addSegment]
  have hscan := hadded.shows.rebuildLoop hlast
    ((SegmentStream.reopen f.name s.directory).1.currentSize + 1) 0
  have hlog : log.loadSegment f = Log.rebuildLoop s.segments.length
      ((SegmentStream.reopen f.name s.directory).1.currentSize + 1) 0
      { log with segments := log.segments ++ [LogSegment.reopen f.name f.contents] } := by
    rw [hsize, ← h.length_eq]
    rfl
  rw [hlog]
  refine ⟨hscan.shows, hscan.filePaths.trans hadded.filePaths, fun name hname' hmem => ?_⟩
  exact (hscan.elsewhere name hname' (hadded.filePaths ▸ hmem)).trans
    (hadded.elsewhere name hname' hmem)

/-- Loading a sequence of segment files. -/
theorem loadSegments (h : s.Shows log) {paths : List File}
    (hnamed : ∀ f ∈ paths, Log.isSegmentFile f.name = true)
    (hnodup : (s.filePaths ++ paths.map File.name).Nodup)
    (hcontents : ∀ f ∈ paths, contentsOf s.directory f.name = f.contents) :
    Loads s (paths.map File.name) ((paths.map File.name).foldl Session.loadSegment s)
      (paths.foldl Log.loadSegment log) := by
  induction paths generalizing s log with
  | nil => exact ⟨h, (List.append_nil _).symm, fun _ _ _ => rfl⟩
  | cons f paths ih =>
    rw [List.forall_mem_cons] at hnamed hcontents
    have hnodup' : (s.filePaths ++ [f.name] ++ paths.map File.name).Nodup := by
      rwa [List.append_assoc]
    have hnew : f.name ∉ s.filePaths := fun hmem =>
      List.disjoint_of_nodup_append hnodup hmem List.mem_cons_self
    have hfirst := h.loadSegment hnamed.1 hnew hcontents.1
    -- the first file is not one of the others, which are as before
    have hcontents' : ∀ g ∈ paths,
        contentsOf (s.loadSegment f.name).directory g.name = g.contents := by
      intro g hg
      have hother : g.name ∉ s.filePaths ++ [f.name] := fun hmem =>
        List.disjoint_of_nodup_append hnodup' hmem (List.mem_map_of_mem hg)
      rw [hfirst.elsewhere g.name (hnamed.2 g hg) hother, hcontents.2 g hg]
    have hrest := ih hfirst.shows hnamed.2 (hfirst.filePaths ▸ hnodup') hcontents'
    refine ⟨hrest.shows, ?_, fun name hname hmem => ?_⟩
    · exact hrest.filePaths.trans (by rw [hfirst.filePaths, List.append_assoc]; rfl)
    · have hmem' : name ∉ s.filePaths ++ [f.name] ++ paths.map File.name := by
        rwa [List.append_assoc]
      exact (hrest.elsewhere name hname (hfirst.filePaths ▸ hmem')).trans
        (hfirst.elsewhere name hname (fun hin => hmem' (List.mem_append_left _ hin)))

end Shows

namespace Open

variable {s : Session} {log : Log}

/-- The loop over the WAL. -/
theorem recoverLoop (h : s.Open log) (buffers : Nat → Bool) (rounds : Nat) (wal : Bytes) :
    (Session.recoverLoop buffers rounds wal s).Open (Log.recoverLoop rounds wal log) := by
  induction rounds generalizing s log wal with
  | zero => exact h
  | succ rounds ih =>
    rw [Session.recoverLoop, Log.recoverLoop]
    cases Log.readWalEntry wal with
    | none => exact h
    | some entry =>
      obtain ⟨⟨offset, message⟩, rest⟩ := entry
      refine ih ?_ rest
      rw [h.nextOffset]
      split
      · exact h.appendRecord buffers message
      · exact h

theorem recoverWal (h : s.Open log) (buffers : Nat → Bool) :
    (s.recoverWal buffers).Open log.recoverWal := by
  unfold Session.recoverWal Log.recoverWal
  dsimp only
  rw [h.wal]
  split
  · exact h
  · have hreplayed := h.recoverLoop buffers ((contentsOf s.directory walName).length + 1)
      (contentsOf s.directory walName)
    generalize Session.recoverLoop buffers _ _ s = s' at hreplayed ⊢
    generalize Log.recoverLoop _ _ log = log' at hreplayed ⊢
    have hsynced : Open (if s'.nextOffset > 0 then s'.syncSegments else s')
        (if log'.nextOffset > 0 then { log' with segments := log'.segments.map LogSegment.sync }
          else log') := by
      by_cases hany : s'.nextOffset > 0
      · rw [if_pos hany, if_pos (hreplayed.nextOffset ▸ hany)]
        exact hreplayed.after hreplayed.toShows.syncSegments rfl
      · rw [if_neg hany, if_neg (hreplayed.nextOffset ▸ hany)]
        exact hreplayed
    exact hsynced.after (hsynced.toShows.setWal []) rfl

end Open

/-- The files that are taken for segments, by their names. -/
theorem mem_segmentPaths_iff {directory : List File} {name : Bytes} :
    name ∈ (Log.segmentPaths directory).map File.name ↔
      name ∈ directory.map File.name ∧ Log.isSegmentFile name = true := by
  have hperm : (Log.segmentPaths directory).Perm
      (directory.filter (fun f => Log.isSegmentFile f.name)) := List.perm_insertionSort _ _
  simp only [List.mem_map, hperm.mem_iff, List.mem_filter]
  constructor
  · rintro ⟨f, ⟨hf, hname⟩, rfl⟩
    exact ⟨⟨f, hf, rfl⟩, hname⟩
  · rintro ⟨⟨f, hf, rfl⟩, hname⟩
    exact ⟨f, ⟨hf, hname⟩, rfl⟩

/-- All segment files of the directory are open, and one of them is made the active one. -/
theorem Loads.toOpen {s s' : Session} {names : List Bytes} {log : Log} (h : Loads s names s' log)
    (hnone : s.filePaths = []) (hdense : Log.DensePaths names)
    (hfresh : ∀ name, Log.isSegmentFile name = true → name ∉ names →
      contentsOf s.directory name = []) {k : Nat} (hk : k < names.length) :
    Open { s' with activeSegmentIndex := k } { log with activeSegmentIndex := k } := by
  have hpaths : s'.filePaths = names := by rw [h.filePaths, hnone, List.nil_append]
  have hlength : s'.segments.length = names.length := by
    rw [← hpaths]
    exact (List.length_map ..).symm
  refine
    { h.shows with
      activeSegmentIndex := rfl
      dense := hpaths ▸ hdense
      fresh := fun name hname hmem => ?_
      active := hlength ▸ hk }
  have hmem' : name ∉ names := hpaths ▸ hmem
  rw [h.elsewhere name hname (by rwa [hnone, List.nil_append]), hfresh name hname hmem']

/-- A segment file that is not among the paths is not there. -/
theorem contentsOf_of_notMem_segmentPaths {directory : List File} {name : Bytes}
    (hname : Log.isSegmentFile name = true)
    (hmem : name ∉ (Log.segmentPaths directory).map File.name) :
    contentsOf directory name = [] := by
  refine contentsOf_of_notMem _ _ (fun hin => hmem ?_)
  exact mem_segmentPaths_iff.mpr ⟨hin, hname⟩

section Construct

variable {s : Session} {log : Log} (h : s.Shows log) (hsegments : s.segments = [])

include h hsegments

/-- A directory without segment files. -/
theorem Shows.open_new (hempty : Log.segmentPaths s.directory = []) :
    Open { s with
        segments := [(SegmentStream.reopen (Log.segmentName 0) s.directory).1]
        activeSegmentIndex := 0
        directory := (SegmentStream.reopen (Log.segmentName 0) s.directory).2 }
      { log with
        segments := [LogSegment.reopen (Log.segmentName 0) []]
        activeSegmentIndex := 0 } := by
  have hnone : s.filePaths = [] := List.map_eq_nil_iff.mpr hsegments
  have hlog : log.segments = [] := by
    rw [← List.length_eq_zero_iff, h.length_eq, hsegments]
    rfl
  have hname : Log.isSegmentFile (Log.segmentName 0) = true := Log.isSegmentFile_segmentName 0
  have hfresh : ∀ name, Log.isSegmentFile name = true → contentsOf s.directory name = [] :=
    fun name hname => contentsOf_of_notMem_segmentPaths hname
      (by rw [hempty]; exact List.not_mem_nil)
  have hadded := h.addSegment hname (hnone ▸ List.not_mem_nil)
  rw [hfresh _ hname, hlog, List.nil_append] at hadded
  have hsession : s.addSegment (Log.segmentName 0) = { s with
      segments := [(SegmentStream.reopen (Log.segmentName 0) s.directory).1]
      directory := (SegmentStream.reopen (Log.segmentName 0) s.directory).2 } := by
    unfold Session.addSegment
    rw [hsegments, List.nil_append]
  rw [hsession] at hadded
  exact hadded.toOpen hnone (List.Perm.refl [Log.segmentName 0])
    (fun name hname _ => hfresh name hname) Nat.zero_lt_one

variable (hnodup : (s.directory.map File.name).Nodup)
  (hdense : Log.DensePaths (Log.segmentNames s.directory))

include hnodup hdense

/-- A directory with segment files; the last one in the order of the names becomes the active
    one. -/
theorem Shows.open_existing (hsome : Log.segmentPaths s.directory ≠ []) {s' : Session}
    (hs' : s' = ((Log.segmentPaths s.directory).map File.name).foldl Session.loadSegment s)
    {log' : Log} (hlog' : log' = (Log.segmentPaths s.directory).foldl Log.loadSegment log) :
    Open { s' with activeSegmentIndex := s'.segments.length - 1 }
      { log' with activeSegmentIndex := log'.segments.length - 1 } := by
  have hnone : s.filePaths = [] := List.map_eq_nil_iff.mpr hsegments
  have hperm : ((Log.segmentPaths s.directory).map File.name).Perm
      (Log.segmentNames s.directory) := (List.perm_insertionSort _ _).map _
  have hfile : ∀ f ∈ Log.segmentPaths s.directory,
      f ∈ s.directory ∧ Log.isSegmentFile f.name = true := fun f hf =>
    List.mem_filter.mp ((List.perm_insertionSort _ _).mem_iff.mp hf)
  have hpaths : (s.filePaths ++ (Log.segmentPaths s.directory).map File.name).Nodup := by
    rw [hnone, List.nil_append]
    exact hperm.nodup_iff.mpr hdense.nodup
  have hloaded := h.loadSegments (fun f hf => (hfile f hf).2) hpaths
    (fun f hf => contentsOf_of_mem _ hnodup (hfile f hf).1)
  rw [← hs', ← hlog'] at hloaded
  rw [hloaded.shows.length_eq]
  refine hloaded.toOpen hnone (hdense.perm hperm)
    (fun name hname hmem => contentsOf_of_notMem_segmentPaths hname hmem) ?_
  have hlength : s'.segments.length = ((Log.segmentPaths s.directory).map File.name).length := by
    have hnames := congrArg List.length hloaded.filePaths
    rw [hnone, List.nil_append] at hnames
    exact (List.length_map ..).symm.trans hnames
  have hpos : 0 < ((Log.segmentPaths s.directory).map File.name).length := by
    rw [List.length_map]
    exact List.length_pos_iff.mpr hsome
  omega

theorem Shows.loadExistingSegments :
    s.loadExistingSegments.Open (log.loadExistingSegments (Log.segmentPaths s.directory)) := by
  unfold Session.loadExistingSegments Log.loadExistingSegments
  dsimp only
  by_cases hempty : Log.segmentPaths s.directory = []
  · rw [if_pos (List.map_eq_nil_iff.mpr hempty), if_pos hempty]
    exact h.open_new hsegments hempty
  · rw [if_neg (fun hnil => hempty (List.map_eq_nil_iff.mp hnil)), if_neg hempty]
    exact h.open_existing hsegments hnodup hdense hempty rfl rfl

end Construct

/-- **Opening a log** finds what the model of a log of its own finds. -/
theorem open_construct {directory : List File} (hnodup : (directory.map File.name).Nodup)
    (hdense : Log.DensePaths (Log.segmentNames directory)) (buffers : Nat → Bool)
    (maxSegmentSize syncBatchSize : Nat) :
    (construct buffers directory maxSegmentSize syncBatchSize).Open
      (Log.construct directory maxSegmentSize syncBatchSize) := by
  have hstart : Shows
      { segments := [], index := [], activeSegmentIndex := 0, nextOffset := 0, maxSegmentSize,
        syncBatchSize := max 1 syncBatchSize, pendingAppends := 0, directory }
      (Log.blank (Log.walContents directory) maxSegmentSize syncBatchSize) :=
    ⟨.nil, List.nodup_nil, fun _ h => absurd h List.not_mem_nil, rfl, rfl, rfl, rfl, rfl, rfl, rfl⟩
  exact (hstart.loadExistingSegments rfl hnodup hdense).recoverWal buffers

/-! ### Runs -/

section Runs

variable (buffers : Nat → Bool)

/-- Perform one call. -/
def perform (s : Session) : Log.Op → Log.Answer × Session
  | .append m => (.offset (s.append buffers m).1, (s.append buffers m).2)
  | .flush => (.done, s.flush)
  | .fetch k => (.record (s.fetch k).1, (s.fetch k).2)

/-- Perform a sequence of calls. -/
def run : Session → List Log.Op → List Log.Answer × Session
  | s, [] => ([], s)
  | s, op :: ops => ((s.perform buffers op).1 :: (run (s.perform buffers op).2 ops).1,
      (run (s.perform buffers op).2 ops).2)

theorem Open.perform {s : Session} {log : Log} (h : s.Open log) (op : Log.Op) :
    (s.perform buffers op).1 = (log.perform op).1 ∧
      (s.perform buffers op).2.Open (log.perform op).2 := by
  cases op with
  | append m =>
    obtain ⟨hoffset, hopen⟩ := h.append buffers m
    exact ⟨congrArg Log.Answer.offset hoffset, hopen⟩
  | flush => exact ⟨rfl, h.flush⟩
  | fetch k =>
    obtain ⟨hrecord, hopen⟩ := h.fetch k
    exact ⟨congrArg Log.Answer.record hrecord, hopen⟩

theorem Open.run {s : Session} {log : Log} (h : s.Open log) (ops : List Log.Op) :
    (s.run buffers ops).1 = (log.run ops).1 ∧ (s.run buffers ops).2.Open (log.run ops).2 := by
  induction ops generalizing s log with
  | nil => exact ⟨rfl, h⟩
  | cons op ops ih =>
    obtain ⟨hanswer, hopen⟩ := h.perform buffers op
    obtain ⟨hanswers, hrest⟩ := ih hopen
    exact ⟨congrArg₂ List.cons hanswer hanswers, hrest⟩

/-- **Alone in its directory**, a log with streams answers every sequence of calls as a log
    that owns its files, whatever stays in the buffers. -/
theorem run_eq_run {directory : List File} (hnodup : (directory.map File.name).Nodup)
    (hdense : Log.DensePaths (Log.segmentNames directory)) (maxSegmentSize syncBatchSize : Nat)
    (ops : List Log.Op) :
    ((construct buffers directory maxSegmentSize syncBatchSize).run buffers ops).1
      = ((Log.construct directory maxSegmentSize syncBatchSize).run ops).1 :=
  ((open_construct hnodup hdense buffers maxSegmentSize syncBatchSize).run buffers ops).1

/-- Three segments are found, and the last record stays in the buffer of its stream. -/
theorem run_eq_run_reopened :
    let directory :=
      ((Log.construct [] 16 2).run [.append [65], .append [66], .append [67]]).2.directory
    ((construct (fun _ => true) directory 16 2).run (fun _ => true)
        [.fetch 1, .append [68], .fetch 3, .flush, .fetch 4]).1
      = [.record (.ok [66]), .offset 3, .record (.ok [68]), .done,
          .record (.error (.outOfRange "Invalid offset"))] := by
  intro directory
  have hdense : Log.DensePaths (Log.segmentNames directory) := by
    unfold Log.DensePaths
    decide +kernel
  rw [run_eq_run _ (by decide +kernel) hdense]
  decide +kernel

end Runs

end Session

end StreamingPlatform
