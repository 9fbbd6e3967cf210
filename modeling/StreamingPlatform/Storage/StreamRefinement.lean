import StreamingPlatform.Storage.IndexRebuild
import StreamingPlatform.Storage.StreamSegments

namespace StreamingPlatform

open ByteString

/-!
# Storage — a log that has its directory for itself

`Storage/Log` models a log that owns its files, and `Storage/Streams` one that has streams on
the files of a directory.  As long as nobody else writes there, the two answer alike:

* `Session.Shows` — a session shows a log, segment by segment;
* `Session.After` — the operations of a session keep this and touch no other segment file;
* `Session.Open` — a session on an open log, whose segment files are numbered without gaps, so
  that a rollover finds no file in its way.
-/

/-! ### Sessions -/

/-- Related lists stay related when a pair of elements is replaced. -/
theorem forall₂_set {α β : Type} {R R' : α → β → Prop} {l : List α} {l' : List β} {i : Nat}
    {x : α} {y : β} (h : List.Forall₂ R l l') (hxy : R' x y)
    (hother : ∀ j, j ≠ i → ∀ (hj : j < l.length) (hj' : j < l'.length), R l[j] l'[j] →
      R' l[j] l'[j]) :
    List.Forall₂ R' (l.set i x) (l'.set i y) := by
  rw [List.forall₂_iff_get] at h ⊢
  refine ⟨by simpa using h.1, fun j hj hj' => ?_⟩
  rw [List.length_set] at hj hj'
  rw [List.get_eq_getElem, List.get_eq_getElem, List.getElem_set, List.getElem_set]
  by_cases hij : i = j
  · rw [if_pos hij, if_pos hij]
    exact hxy
  · rw [if_neg hij, if_neg hij]
    exact hother j (Ne.symm hij) hj hj' (h.2 j hj hj')
/-- Another directory in which the files of the segments are the same. -/
theorem forall₂_shown_congr {directory directory' : List File} {segments : List SegmentStream}
    {segs : List LogSegment} (h : List.Forall₂ (Shown directory) segments segs)
    (hsame : ∀ path ∈ segments.map SegmentStream.filePath,
      contentsOf directory' path = contentsOf directory path) :
    List.Forall₂ (Shown directory') segments segs := by
  induction h with
  | nil => exact .nil
  | cons hshown _ ih =>
    rw [List.map_cons, List.forall_mem_cons] at hsame
    exact .cons (hshown.congr hsame.1) (ih hsame.2)

theorem Log.setSegment_self (log : Log) (i : Nat) : log.setSegment i (log.segment i) = log := by
  have hsame : log.segments.set i (log.segment i) = log.segments := by
    by_cases hi : i < log.segments.length
    · rw [Log.segment_eq_getElem hi, List.set_getElem_self]
    · rw [List.set_eq_of_length_le (Nat.le_of_not_lt hi)]
  unfold Log.setSegment
  rw [hsame]

namespace Session

/-- The file names of the segments. -/
def filePaths (s : Session) : List Bytes := s.segments.map SegmentStream.filePath

/-- **A log as its streams show it.** No two segments have one file. -/
structure Shows (s : Session) (log : Log) : Prop where
  segments : List.Forall₂ (Shown s.directory) s.segments log.segments
  nodup : s.filePaths.Nodup
  named : ∀ path ∈ s.filePaths, Log.isSegmentFile path = true
  wal : log.wal = contentsOf s.directory walName
  index : log.index = s.index
  activeSegmentIndex : log.activeSegmentIndex = s.activeSegmentIndex
  nextOffset : log.nextOffset = s.nextOffset
  maxSegmentSize : log.maxSegmentSize = s.maxSegmentSize
  syncBatchSize : log.syncBatchSize = s.syncBatchSize
  pendingAppends : log.pendingAppends = s.pendingAppends

/-- A segment within the bounds. -/
theorem segment_eq_getElem {s : Session} {i : Nat} (hi : i < s.segments.length) :
    s.segment i = s.segments[i] := by
  unfold segment
  rw [List.getD_eq_getElem?_getD, List.getElem?_eq_getElem hi]
  rfl

/-- The write-ahead log is no segment file. -/
theorem walName_ne {path : Bytes} (h : Log.isSegmentFile path = true) : walName ≠ path := by
  intro heq
  rw [← heq] at h
  exact absurd h (by decide)

/-- An operation of a session with the segments it has: the log is shown afterwards, and no
    other segment file changes. -/
structure After (s s' : Session) (log : Log) : Prop where
  shows : s'.Shows log
  filePaths : s'.filePaths = s.filePaths
  elsewhere : ∀ name, Log.isSegmentFile name = true → name ∉ s.filePaths →
    contentsOf s'.directory name = contentsOf s.directory name

/-- Steps compose. -/
theorem After.trans {s s' s'' : Session} {log log' : Log} (h : After s s' log)
    (h' : After s' s'' log') : After s s'' log' where
  shows := h'.shows
  filePaths := h'.filePaths.trans h.filePaths
  elsewhere := fun name hname hmem => by
    rw [h'.elsewhere name hname (h.filePaths ▸ hmem), h.elsewhere name hname hmem]

/-- The index and the count are kept beside the files. -/
theorem After.setIndex {s s' : Session} {log : Log} (h : After s s' log)
    (index : List LogIndexEntry) (nextOffset : Nat) :
    After s { s' with index := index, nextOffset := nextOffset }
      { log with index := index, nextOffset := nextOffset } :=
  ⟨{ h.shows with index := rfl, nextOffset := rfl }, h.filePaths, h.elsewhere⟩

namespace Shows

variable {s : Session} {log : Log}

theorem refl (h : s.Shows log) : After s s log := ⟨h, rfl, fun _ _ _ => rfl⟩

theorem length_eq (h : s.Shows log) : log.segments.length = s.segments.length :=
  h.segments.length_eq.symm

/-- Each stream shows its segment. -/
theorem segment (h : s.Shows log) {i : Nat} (hi : i < s.segments.length) :
    Shown s.directory (s.segment i) (log.segment i) := by
  have hi' : i < log.segments.length := h.length_eq ▸ hi
  rw [segment_eq_getElem hi, Log.segment_eq_getElem hi']
  exact (List.forall₂_iff_get.mp h.segments).2 i hi hi'

/-- Two segments have two files. -/
theorem filePath_ne (h : s.Shows log) {i j : Nat} (hi : i < s.segments.length)
    (hj : j < s.segments.length) (hne : j ≠ i) :
    s.segments[j].filePath ≠ s.segments[i].filePath := by
  intro heq
  have hsegment : s.segments[j] = s.segments[i] :=
    List.inj_on_of_nodup_map h.nodup (List.getElem_mem hj) (List.getElem_mem hi) heq
  exact hne ((List.Nodup.of_map _ h.nodup).getElem_inj_iff.mp hsegment)

/-- An operation on one segment. -/
theorem setSegment (h : s.Shows log) {i : Nat} (hi : i < s.segments.length)
    {changed : SegmentStream × List File} {seg : LogSegment}
    (hchanged : ShownBy s.directory (s.segment i) changed seg) :
    After s (s.setSegment i changed) (log.setSegment i seg) := by
  have hpaths : (s.setSegment i changed).filePaths = s.filePaths :=
    Log.map_set_getD hchanged.path
  have hmem : (s.segment i).filePath ∈ s.filePaths := by
    rw [segment_eq_getElem hi]
    exact List.mem_map_of_mem (List.getElem_mem hi)
  refine ⟨{ h with
      segments := forall₂_set h.segments hchanged.shown (fun j hne hj hj' hshown => ?_)
      nodup := hpaths ▸ h.nodup
      named := hpaths ▸ h.named
      wal := ?_ }, hpaths, fun name _ hname => ?_⟩
  · refine hshown.congr (hchanged.elsewhere _ ?_)
    rw [segment_eq_getElem hi]
    exact h.filePath_ne hi hj hne
  · exact h.wal.trans (hchanged.elsewhere _ (walName_ne (h.named _ hmem))).symm
  · exact hchanged.elsewhere _ (fun heq => hname (heq ▸ hmem))

/-- **Append of a record**, to the WAL excepted. -/
theorem appendRecord (h : s.Shows log) (hactive : s.activeSegmentIndex < s.segments.length)
    (buffers : Nat → Bool) (message : Bytes) :
    After s (s.appendRecord buffers message) (log.appendRecord message) := by
  obtain ⟨hposition, hchanged⟩ := (h.segment hactive).append buffers message
  have hset := h.setSegment hactive hchanged
  unfold Session.appendRecord Log.appendRecord Log.activeSegment
  dsimp only
  rw [h.activeSegmentIndex, h.nextOffset, h.index, ← hposition]
  exact hset.setIndex _ _

/-! The WAL and the segments are different files. -/

/-- Writing the write-ahead log touches no segment. -/
theorem setWal (h : s.Shows log) (wal : Bytes) :
    After s { s with directory := setContents s.directory walName wal } { log with wal } := by
  have hsame : ∀ name, Log.isSegmentFile name = true →
      contentsOf (setContents s.directory walName wal) name = contentsOf s.directory name := by
    intro name hname
    rw [contentsOf_setContents, if_neg (walName_ne hname).symm]
  refine ⟨{ h with segments := ?_, wal := ?_ }, rfl, fun name hname _ => hsame name hname⟩
  · exact forall₂_shown_congr h.segments (fun path hpath => hsame path (h.named path hpath))
  · exact ((contentsOf_setContents _ _ _ _).trans (if_pos rfl)).symm

/-- An entry is added to it. -/
theorem writeWal (h : s.Shows log) (offset : Nat) (message : Bytes) :
    After s (s.writeWal offset message) (log.writeWal offset message) := by
  unfold Log.writeWal
  rw [h.wal]
  exact h.setWal _

/-- The streams are flushed one after the other; each of them touches its own file only. -/
theorem forall₂_syncAll {directory : List File} {segments : List SegmentStream}
    {segs : List LogSegment} (h : List.Forall₂ (Shown directory) segments segs)
    (hnodup : (segments.map SegmentStream.filePath).Nodup) :
    List.Forall₂ (Shown (syncAll segments directory).2) (syncAll segments directory).1
        (segs.map LogSegment.sync) ∧
      (syncAll segments directory).1.map SegmentStream.filePath
        = segments.map SegmentStream.filePath ∧
      ∀ name, name ∉ segments.map SegmentStream.filePath →
        contentsOf (syncAll segments directory).2 name = contentsOf directory name := by
  induction segments generalizing directory segs with
  | nil =>
    cases h
    exact ⟨.nil, rfl, fun _ _ => rfl⟩
  | cons st segments ih =>
    cases h with
    | @cons _ seg _ segs hshown htail =>
      rw [List.map_cons, List.nodup_cons] at hnodup
      -- the other files are as before when the rest of the list is flushed
      have hrest : List.Forall₂ (Shown (st.flush directory).2) segments segs :=
        forall₂_shown_congr htail (fun path hpath =>
          hshown.flush.elsewhere path (fun heq => hnodup.1 (heq ▸ hpath)))
      obtain ⟨hsegments, hpaths, hsame⟩ := ih hrest hnodup.2
      have hown : contentsOf (syncAll segments (st.flush directory).2).2
          (st.flush directory).1.filePath
          = contentsOf (st.flush directory).2 (st.flush directory).1.filePath := by
        rw [hshown.flush.path]
        exact hsame _ hnodup.1
      refine ⟨.cons (hshown.flush.shown.congr hown).sync hsegments,
        congrArg₂ List.cons hshown.flush.path hpaths, fun name hname => ?_⟩
      rw [List.map_cons, List.mem_cons, not_or] at hname
      exact (hsame name hname.2).trans (hshown.flush.elsewhere name hname.1)

/-- Synchronising empties the buffers, which shows nothing new. -/
theorem syncSegments (h : s.Shows log) :
    After s s.syncSegments { log with segments := log.segments.map LogSegment.sync } := by
  obtain ⟨hsegments, hpaths, hsame⟩ := forall₂_syncAll h.segments h.nodup
  refine ⟨{ h with
      segments := hsegments
      nodup := ?_
      named := ?_
      wal := ?_ }, hpaths, fun name _ hname => hsame name hname⟩
  · show ((syncAll s.segments s.directory).1.map SegmentStream.filePath).Nodup
    rw [hpaths]
    exact h.nodup
  · show ∀ path ∈ (syncAll s.segments s.directory).1.map SegmentStream.filePath, _
    rw [hpaths]
    exact h.named
  · exact h.wal.trans (hsame _ (fun hmem => walName_ne (h.named _ hmem) rfl)).symm

theorem syncPending (h : s.Shows log) : After s s.syncPending log.syncPending := by
  have hsynced := h.syncSegments
  have hcleared := hsynced.trans (hsynced.shows.setWal [])
  exact ⟨{ hcleared.shows with pendingAppends := rfl }, hcleared.filePaths, hcleared.elsewhere⟩

theorem flush (h : s.Shows log) : After s s.flush log.flush := by
  unfold Session.flush Log.flush
  rw [h.pendingAppends]
  split
  · exact h.syncPending
  · exact h.refl

/-! ### Fetching -/

/-- A segment that does not exist. -/
theorem segment_of_length_le (h : s.Shows log) {i : Nat} (hi : s.segments.length ≤ i) :
    s.segment i = ⟨[], 0, [], 0⟩ ∧ log.segment i = LogSegment.reopen [] [] := by
  unfold Session.segment Log.segment
  rw [List.getD_eq_getElem?_getD, List.getD_eq_getElem?_getD, List.getElem?_eq_none hi,
    List.getElem?_eq_none (h.length_eq ▸ hi)]
  exact ⟨rfl, rfl⟩

/-- The size that the code keeps is that of the segment. -/
theorem currentSize_eq (h : s.Shows log) (i : Nat) :
    (s.segment i).currentSize = (log.segment i).sizes := by
  by_cases hi : i < s.segments.length
  · exact (h.segment hi).size.symm
  · obtain ⟨hnone, hnone'⟩ := h.segment_of_length_le (Nat.le_of_not_lt hi)
    rw [hnone, hnone']
    rfl

/-- Reading a segment, also one that does not exist. -/
theorem read (h : s.Shows log) (i position : Nat) :
    ((s.segment i).read position s.directory).1 = (log.segment i).read position ∧
      After s (s.setSegment i ((s.segment i).read position s.directory).2) log := by
  by_cases hi : i < s.segments.length
  · obtain ⟨hread, hchanged⟩ := (h.segment hi).read position
    refine ⟨hread, ?_⟩
    have hset := h.setSegment hi hchanged
    rwa [Log.setSegment_self] at hset
  · -- it has no size, so that every position is refused
    obtain ⟨hnone, hnone'⟩ := h.segment_of_length_le (Nat.le_of_not_lt hi)
    have hset : s.setSegment i (⟨[], 0, [], 0⟩, s.directory) = s := by
      unfold Session.setSegment
      rw [List.set_eq_of_length_le (Nat.le_of_not_lt hi)]
    have hrefused : 0 < position ∨ 0 - position < LogSegment.kLengthBytes := by
      rw [Nat.zero_sub]
      exact .inr (by decide)
    have hread : SegmentStream.read ⟨[], 0, [], 0⟩ position s.directory
        = (.error (.outOfRange "invalid record position"), ⟨[], 0, [], 0⟩, s.directory) :=
      if_pos hrefused
    have hread' : (LogSegment.reopen [] []).read position
        = .error (.outOfRange "invalid record position") := if_pos hrefused
    rw [hnone, hnone', hread, hread', hset]
    exact ⟨rfl, h.refl⟩

/-- The loop of `fetch`. -/
theorem fetchLoop (h : s.Shows log) (offset rounds currentOffset segmentIndex position : Nat) :
    (s.fetchLoop offset rounds currentOffset segmentIndex position).1
        = log.fetchLoop offset rounds currentOffset segmentIndex position ∧
      After s (s.fetchLoop offset rounds currentOffset segmentIndex position).2 log := by
  -- a round reads, which keeps the relation, and then decides by the record and the sizes
  induction rounds generalizing s currentOffset segmentIndex position with
  | zero => exact ⟨rfl, h.refl⟩
  | succ rounds ih =>
    obtain ⟨hread, hafter⟩ := h.read segmentIndex position
    rw [Session.fetchLoop, Log.fetchLoop]
    dsimp only
    rw [hread]
    cases (log.segment segmentIndex).read position with
    | error e => exact ⟨rfl, hafter⟩
    | ok record =>
      dsimp only
      rw [hafter.shows.currentSize_eq, ← hafter.shows.length_eq]
      split
      · exact ⟨rfl, hafter⟩
      · -- where the next record is depends on the sizes only
        generalize (if position + (LogSegment.kLengthBytes + record.length)
              = (log.segment segmentIndex).sizes ∧ segmentIndex + 1 < log.segments.length
            then (segmentIndex + 1, 0)
            else (segmentIndex, position + (LogSegment.kLengthBytes + record.length))) = next
        split
        · exact ⟨rfl, hafter⟩
        · obtain ⟨hresult, hrest⟩ := ih hafter.shows (currentOffset + 1) next.1 next.2
          exact ⟨hresult, hafter.trans hrest⟩

/-- **Fetch.** -/
theorem fetch (h : s.Shows log) (offset : Nat) :
    (s.fetch offset).1 = log.fetch offset ∧ After s (s.fetch offset).2 log := by
  unfold Session.fetch Log.fetch Log.checkpoint
  rw [h.nextOffset, h.index]
  split
  · exact ⟨rfl, h.refl⟩
  · cases (s.index.takeWhile (fun e => decide (e.offset ≤ offset))).getLast? with
    | none => exact ⟨rfl, h.refl⟩
    | some e => exact h.fetchLoop _ _ _ _ _

end Shows

/-! ### One more segment -/

/-- The file `name` is opened as one more segment. -/
def addSegment (s : Session) (name : Bytes) : Session :=
  { s with
    segments := s.segments ++ [(SegmentStream.reopen name s.directory).1]
    directory := (SegmentStream.reopen name s.directory).2 }

/-- A session opens the files `names`, and no other segment file changes. -/
structure Loads (s : Session) (names : List Bytes) (s' : Session) (log : Log) : Prop where
  shows : s'.Shows log
  filePaths : s'.filePaths = s.filePaths ++ names
  elsewhere : ∀ name, Log.isSegmentFile name = true → name ∉ s.filePaths ++ names →
    contentsOf s'.directory name = contentsOf s.directory name

/-- A new segment is empty and shown as such. -/
theorem Shows.addSegment {s : Session} {log : Log} (h : s.Shows log) {name : Bytes}
    (hname : Log.isSegmentFile name = true) (hnew : name ∉ s.filePaths) :
    Loads s [name] (s.addSegment name)
      { log with
        segments := log.segments ++ [LogSegment.reopen name (contentsOf s.directory name)] } := by
  have hpaths : (s.addSegment name).filePaths = s.filePaths ++ [name] := List.map_append
  have hold : List.Forall₂ (Shown (s.addSegment name).directory) s.segments log.segments :=
    forall₂_shown_congr h.segments (fun path _ => contentsOf_reopen _ _ path)
  refine ⟨{ h with
      segments := List.rel_append hold (.cons (shown_reopen _ _) .nil)
      nodup := ?_
      named := ?_
      wal := h.wal.trans (contentsOf_reopen _ _ _).symm }, hpaths,
    fun name' _ _ => contentsOf_reopen _ _ name'⟩
  · rw [hpaths, ← List.concat_eq_append]
    exact h.nodup.concat hnew
  · rw [hpaths]
    intro path hpath
    rcases List.mem_append.mp hpath with hmem | hmem
    · exact h.named path hmem
    · rw [List.mem_singleton.mp hmem]
      exact hname

/-! ### Open logs -/

/-- A session on an open log: the segment files are numbered without gaps, there are no others
    in the directory, and one segment is the active one. -/
structure Open (s : Session) (log : Log) : Prop extends s.Shows log where
  dense : Log.DensePaths s.filePaths
  fresh : ∀ name, Log.isSegmentFile name = true → name ∉ s.filePaths →
    contentsOf s.directory name = []
  active : s.activeSegmentIndex < s.segments.length

namespace Open

variable {s s' : Session} {log log' : Log}

/-- Steps that keep the active segment keep the log open. -/
theorem after (h : s.Open log) (h' : After s s' log')
    (hactive : log'.activeSegmentIndex = log.activeSegmentIndex) : s'.Open log' where
  toShows := h'.shows
  dense := h'.filePaths ▸ h.dense
  fresh := fun name hname hmem => by
    rw [h'.filePaths] at hmem
    rw [h'.elsewhere name hname hmem, h.fresh name hname hmem]
  active := by
    have hlength : s'.segments.length = s.segments.length := by
      simpa [filePaths] using congrArg List.length h'.filePaths
    rw [← h'.shows.activeSegmentIndex, hactive, h.activeSegmentIndex, hlength]
    exact h.active

theorem fetch (h : s.Open log) (offset : Nat) :
    (s.fetch offset).1 = log.fetch offset ∧ (s.fetch offset).2.Open log := by
  obtain ⟨hresult, hafter⟩ := h.toShows.fetch offset
  exact ⟨hresult, h.after hafter rfl⟩

theorem appendRecord (h : s.Open log) (buffers : Nat → Bool) (message : Bytes) :
    (s.appendRecord buffers message).Open (log.appendRecord message) :=
  h.after (h.toShows.appendRecord h.active buffers message) rfl

theorem syncPending (h : s.Open log) : s.syncPending.Open log.syncPending :=
  h.after h.toShows.syncPending rfl

/-- **Rollover**: the new file is not there yet. -/
theorem rollOver (h : s.Open log) : s.rollOver.Open log.rollOver := by
  have hlength : s.filePaths.length = s.segments.length := List.length_map ..
  have hname : Log.isSegmentFile (Log.segmentName s.segments.length) = true :=
    Log.isSegmentFile_segmentName _
  -- the names are dense, so the next one is free
  have hnew : Log.segmentName s.segments.length ∉ s.filePaths := by
    rw [← hlength]
    exact h.dense.fresh
  have hadded := h.toShows.addSegment hname hnew
  rw [h.fresh _ hname hnew] at hadded
  have hlog : log.rollOver = { log with
      segments := log.segments ++ [LogSegment.reopen (Log.segmentName s.segments.length) []]
      activeSegmentIndex := s.segments.length } := by
    unfold Log.rollOver
    rw [h.length_eq]
  have hdense : Log.DensePaths s.rollOver.filePaths := by
    have hconcat := h.dense.concat
    rw [hlength] at hconcat
    exact hadded.filePaths ▸ hconcat
  rw [hlog]
  refine
    { hadded.shows with
      activeSegmentIndex := rfl
      dense := hdense
      fresh := fun name hname hmem => ?_
      active := ?_ }
  · have hmem' : name ∉ s.filePaths ++ [Log.segmentName s.segments.length] :=
      hadded.filePaths ▸ hmem
    exact (hadded.elsewhere name hname hmem').trans
      (h.fresh name hname (fun hold => hmem' (List.mem_append_left _ hold)))
  · show s.segments.length < (s.segments ++ [_]).length
    rw [List.length_append]
    exact Nat.lt_succ_self _

/-- A full segment is followed by a new one. -/
theorem rollOverIfFull (h : s.Open log) :
    Open (if (s.segment s.activeSegmentIndex).currentSize ≥ s.maxSegmentSize then s.rollOver
        else s)
      (if log.activeSegment.sizes ≥ log.maxSegmentSize then log.rollOver else log) := by
  unfold Log.activeSegment
  rw [h.activeSegmentIndex, h.maxSegmentSize, ← h.currentSize_eq]
  split
  · exact h.rollOver
  · exact h

theorem countAppend (h : s.Open log) :
    Open { s with pendingAppends := s.pendingAppends + 1 }
      { log with pendingAppends := log.pendingAppends + 1 } :=
  { h with pendingAppends := congrArg (· + 1) h.pendingAppends }

/-- The log is synchronised when the batch is full. -/
theorem syncIfDue (h : s.Open log) :
    Open (if s.pendingAppends ≥ s.syncBatchSize then s.syncPending else s)
      (if log.pendingAppends ≥ log.syncBatchSize then log.syncPending else log) := by
  rw [h.pendingAppends, h.syncBatchSize]
  split
  · exact h.syncPending
  · exact h

/-- **Append.** -/
theorem append (h : s.Open log) (buffers : Nat → Bool) (message : Bytes) :
    (s.append buffers message).1 = (log.append message).1 ∧
      (s.append buffers message).2.Open (log.append message).2 := by
  have hwal : (s.writeWal s.nextOffset message).Open (log.writeWal s.nextOffset message) :=
    h.after (h.toShows.writeWal s.nextOffset message) rfl
  have hrolled := (hwal.appendRecord buffers message).rollOverIfFull
  have hcounted := hrolled.countAppend
  refine ⟨h.nextOffset.symm, ?_⟩
  unfold Session.append Log.append
  dsimp only
  rw [h.nextOffset]
  exact hcounted.syncIfDue

theorem flush (h : s.Open log) : s.flush.Open log.flush := by
  refine h.after h.toShows.flush ?_
  unfold Log.flush
  split <;> rfl

end Open

end Session

end StreamingPlatform
