import StreamingPlatform.Storage.IndexRebuild

namespace StreamingPlatform

open ByteString

/-!
# Storage — the WAL holds the unsynced tail

A record may be lost in a crash as long as no `sync` of its segment has covered it; until
then its entry is in the WAL.  `Running` are the states of a log over any sequence of
constructions, calls and destructions, and `wal_is_unsynced_tail` says that in each of them
the WAL holds the entries of the last `pending_appends_` records and a completed sync covers
all records before these.

Reading a file back does not sync it.  So `reload`, which is `construct` on the directory of
a log, keeps for every file how much of it was synced before.
-/

open LogSegment (records)

namespace Log

/-! ### Covered records -/

/-- The records of the segment files, in the order of their offsets. -/
def messages (log : Log) : List Bytes := log.segments.flatMap (fun s => records.scan s.file)

variable {Ss : List (List Bytes)} {n : Nat} {s : LogSegment} {m : Bytes}

theorem Rep.messages_eq {log : Log} {Ss : List (List Bytes)} (h : Rep log Ss) :
    log.messages = Ss.flatten :=
  h.flatMap_scan

/-- Of the first `n` records, those of each segment end within what is synced of it. -/
def SyncedUpTo : Nat → List LogSegment → Prop
  | _, [] => True
  | n, s :: segments =>
    (records.encAll ((records.scan s.file).take n)).length ≤ s.synced ∧
      SyncedUpTo (n - (records.scan s.file).length) segments

namespace SyncedUpTo

theorem append_iff (n : Nat) (X Y : List LogSegment) :
    SyncedUpTo n (X ++ Y) ↔
      SyncedUpTo n X ∧ SyncedUpTo (n - (X.flatMap (fun s => records.scan s.file)).length) Y := by
  induction X generalizing n with
  | nil => simp [SyncedUpTo]
  | cons s X ih =>
    rw [List.cons_append, SyncedUpTo, SyncedUpTo, ih, List.flatMap_cons, List.length_append,
      Nat.sub_add_eq, and_assoc]

/-- Fewer records of a segment take no more bytes. -/
theorem length_encAll_take_le (S : List Bytes) (n : Nat) :
    (records.encAll (S.take n)).length ≤ (records.encAll S).length := by
  conv_rhs => rw [← List.take_append_drop n S, Format.encAll_append, List.length_append]
  exact Nat.le_add_right _ _

/-- Segments that are synced as a whole. -/
theorem of_all {segments : List LogSegment}
    (h : ∀ s ∈ segments, (records.encAll (records.scan s.file)).length ≤ s.synced) (n : Nat) :
    SyncedUpTo n segments := by
  induction segments generalizing n with
  | nil => trivial
  | cons s segments ih =>
    refine ⟨?_, ih (fun t ht => h t (List.mem_cons_of_mem _ ht)) _⟩
    exact (length_encAll_take_le _ n).trans (h s List.mem_cons_self)

/-- If all records are covered, every segment is. -/
theorem all {segments : List LogSegment} (h : SyncedUpTo n segments)
    (hn : (segments.flatMap (fun s => records.scan s.file)).length ≤ n) :
    ∀ s ∈ segments, (records.encAll (records.scan s.file)).length ≤ s.synced := by
  induction segments generalizing n with
  | nil => exact fun s hs => absurd hs List.not_mem_nil
  | cons s segments ih =>
    obtain ⟨hs, hrest⟩ := h
    rw [List.flatMap_cons, List.length_append] at hn
    intro t ht
    rcases List.mem_cons.mp ht with rfl | ht
    · rwa [List.take_of_length_le (by omega)] at hs
    · exact ih hrest (by omega) t ht

/-- What it says of one record. -/
theorem record {X Y : List LogSegment} (h : SyncedUpTo n (X ++ s :: Y)) {j : Nat}
    (hj : (X.flatMap (fun s => records.scan s.file)).length + j < n) :
    (records.encAll ((records.scan s.file).take (j + 1))).length ≤ s.synced := by
  obtain ⟨-, hs, -⟩ := (append_iff n X (s :: Y)).mp h
  refine le_trans ?_ hs
  have htake : ((records.scan s.file).take
      (n - (X.flatMap (fun s => records.scan s.file)).length)).take (j + 1)
        = (records.scan s.file).take (j + 1) := by
    rw [List.take_take, Nat.min_eq_left (by omega)]
  rw [← htake]
  exact length_encAll_take_le _ _

/-- A sync covers everything. -/
theorem map_sync (segments : List LogSegment) (n : Nat) :
    SyncedUpTo n (segments.map LogSegment.sync) := by
  refine of_all (fun s hs => ?_) n
  obtain ⟨t, -, rfl⟩ := List.mem_map.mp hs
  obtain ⟨rest, hfile, -, -⟩ := records.exists_scan_append t.file
  show (records.encAll (records.scan t.file)).length ≤ t.file.length
  conv_rhs => rw [hfile, List.length_append]
  exact Nat.le_add_right _ _

end SyncedUpTo

/-- The last segment is the active one, and a record goes there. -/
theorem Rep.segments_concat {log : Log} (h : Rep log Ss) :
    ∃ X s, log.segments = X ++ [s] ∧ ∀ m : Bytes,
      (log.appendRecord m).segments = X ++ [(s.append m).2] := by
  have hact := h.active
  have hne : log.segments ≠ [] := by
    intro hnil
    rw [hnil] at hact
    exact absurd hact (Nat.succ_ne_zero _)
  have hsplit := List.dropLast_concat_getLast hne
  generalize log.segments.dropLast = X at hsplit
  generalize log.segments.getLast hne = s at hsplit
  have hlen : log.activeSegmentIndex = X.length := by
    rw [← hsplit, List.length_append, List.length_singleton] at hact
    omega
  have hactive : log.activeSegment = s := by
    rw [activeSegment, segment, hlen, ← hsplit, List.getD_eq_getElem?_getD,
      List.getElem?_append_right le_rfl, Nat.sub_self]
    rfl
  refine ⟨X, s, hsplit.symm, fun m => ?_⟩
  show log.segments.set log.activeSegmentIndex (log.activeSegment.append m).2 = _
  rw [hactive, hlen, ← hsplit, List.set_append_right _ _ le_rfl, Nat.sub_self]
  rfl

/-- The records of the last segment before and after. -/
theorem Rep.scan_append {log : Log} (h : Rep log Ss) {X : List LogSegment}
    (hsegments : log.segments = X ++ [s])
    (happend : (log.appendRecord m).segments = X ++ [(s.append m).2]) (hm : records.Valid m) :
    records.scan (s.append m).2.file = records.scan s.file ++ [m] := by
  obtain ⟨Ss', S, rfl⟩ := h.exists_concat
  have hold := h.map_scan
  have hnew := (h.appendRecord hm).map_scan
  rw [hsegments, List.map_append, List.map_singleton] at hold
  rw [happend, List.map_append, List.map_singleton] at hnew
  rw [(List.append_singleton_inj.mp hold).2, (List.append_singleton_inj.mp hnew).2]

/-- Appending a record covers no record less. -/
theorem SyncedUpTo.appendRecord {log : Log} (hrep : Rep log Ss) (h : SyncedUpTo n log.segments)
    (hn : n ≤ log.nextOffset) (hm : records.Valid m) :
    SyncedUpTo n (log.appendRecord m).segments := by
  obtain ⟨X, s, hsegments, happend⟩ := hrep.segments_concat
  have hscan := hrep.scan_append hsegments (happend m) hm
  have hcount : log.nextOffset
      = (X.flatMap (fun s => records.scan s.file)).length + (records.scan s.file).length := by
    rw [hrep.next, ← hrep.messages_eq, messages, hsegments, List.flatMap_append,
      List.length_append, List.flatMap_singleton]
  rw [hsegments, append_iff] at h
  rw [happend, append_iff]
  refine ⟨h.1, ?_, trivial⟩
  -- the new record is not among the first `n`
  rw [hscan, List.take_append_of_le_length (by omega)]
  exact h.2.1

/-! ### Construction on the files of a log -/

/-- How much of a file the log has synced. -/
def syncedOf (log : Log) (path : Bytes) : Nat :=
  match log.segments.find? (fun s => s.filePath == path) with
  | some s => s.synced
  | none => 0

/-- `Log::Log` on the directory that `log` leaves behind.  `recover_wal` syncs the segments
    if it finds a WAL and there are records; otherwise no more of a file is synced than `log`
    had synced. -/
def reload (log : Log) (maxSegmentSize syncBatchSize : Nat) : Log :=
  let log' := construct log.directory maxSegmentSize syncBatchSize
  if log.wal ≠ [] ∧ log'.nextOffset > 0 then log'
  else
    { log' with
      segments := log'.segments.map
        (fun s => { s with synced := min (log.syncedOf s.filePath) s.synced }) }

/-- The states of a log over constructions and calls, from an empty directory, with the
    `sync_batch_size` of the last construction. -/
inductive Running : Nat → Log → Prop where
  | fresh (maxSegmentSize syncBatchSize : Nat) :
      Running syncBatchSize (construct [] maxSegmentSize syncBatchSize)
  | reload {batch : Nat} {log : Log} (maxSegmentSize syncBatchSize : Nat) :
      Running batch log → Running syncBatchSize (log.reload maxSegmentSize syncBatchSize)
  | call {batch : Nat} {log : Log} (op : Op) :
      Running batch log → op.Fits → Running batch (log.perform op).2

/-- What holds between two calls. -/
structure Windowed (batch : Nat) (log : Log) : Prop where
  stored : ∃ Ss, Rep log Ss
  paths : DensePaths log.filePaths
  batchSize : log.syncBatchSize = max 1 batch
  pending : log.pendingAppends < log.syncBatchSize
  le : log.pendingAppends ≤ log.nextOffset
  wal : log.wal = walEntries.encAll
    (entriesFrom log.messages (log.nextOffset - log.pendingAppends) log.pendingAppends)
  synced : SyncedUpTo (log.nextOffset - log.pendingAppends) log.segments

namespace Windowed

variable {batch : Nat} {log : Log}

/-- A log whose WAL is empty and whose segments are synced. -/
theorem emptied (hstored : ∃ Ss, Rep log Ss) (hpaths : DensePaths log.filePaths)
    (hbatch : log.syncBatchSize = max 1 batch) (hpending : log.pendingAppends = 0)
    (hwal : log.wal = []) (hsynced : ∀ n, SyncedUpTo n log.segments) : Windowed batch log := by
  refine ⟨hstored, hpaths, hbatch, by omega, by omega, ?_, hsynced _⟩
  rw [hwal, hpending]
  rfl

/-- After a sync. -/
theorem syncPending (hstored : ∃ Ss, Rep log Ss) (hpaths : DensePaths log.filePaths)
    (hbatch : log.syncBatchSize = max 1 batch) : Windowed batch log.syncPending := by
  obtain ⟨Ss, hrep⟩ := hstored
  refine emptied ⟨Ss, hrep.map_sync rfl rfl rfl rfl⟩ ?_ hbatch rfl rfl
    (SyncedUpTo.map_sync log.segments)
  rw [filePaths_syncPending]
  exact hpaths

theorem flush (h : Windowed batch log) : Windowed batch log.flush := by
  unfold Log.flush
  split
  · exact syncPending h.stored h.paths h.batchSize
  · exact h

/-- The end of `append` on a log whose WAL is one entry ahead of the count. -/
theorem settle (hstored : ∃ Ss, Rep log Ss) (hpaths : DensePaths log.filePaths)
    (hbatch : log.syncBatchSize = max 1 batch) (hle : log.pendingAppends + 1 ≤ log.nextOffset)
    (hwal : log.wal = walEntries.encAll (entriesFrom log.messages
      (log.nextOffset - (log.pendingAppends + 1)) (log.pendingAppends + 1)))
    (hsynced : SyncedUpTo (log.nextOffset - (log.pendingAppends + 1)) log.segments) :
    Windowed batch log.settle := by
  obtain ⟨Ss, hrep⟩ := hstored
  have hrolled : DensePaths log.rollOver.filePaths := by
    rw [filePaths_rollOver]
    exact hpaths.concat
  rcases log.settle_cases with ⟨-, heq | heq⟩ | ⟨hpending, heq | heq⟩ <;> rw [heq]
  · exact syncPending ⟨Ss, hrep⟩ hpaths hbatch
  · exact syncPending ⟨_, hrep.rollOver⟩ hrolled hbatch
  · exact ⟨⟨_, hrep.of_eq rfl rfl rfl rfl rfl⟩, hpaths, hbatch, hpending, hle, hwal, hsynced⟩
  · -- the new segment has no records
    refine ⟨⟨_, hrep.rollOver.of_eq rfl rfl rfl rfl rfl⟩, hrolled, hbatch, hpending, hle, ?_, ?_⟩
    · have hmessages : log.rollOver.messages = log.messages := by
        rw [hrep.rollOver.messages_eq, hrep.messages_eq]
        simp
      show log.wal = walEntries.encAll (entriesFrom log.rollOver.messages _ _)
      rw [hmessages]
      exact hwal
    · refine (SyncedUpTo.append_iff _ log.segments _).mpr ⟨hsynced, ?_, trivial⟩
      show (records.encAll (([] : List Bytes).take _)).length ≤ 0
      rw [List.take_nil]
      exact le_rfl

theorem append (h : Windowed batch log) (hm : records.Valid m) :
    Windowed batch (log.append m).2 := by
  obtain ⟨Ss, hrep⟩ := h.stored
  obtain ⟨X, S, rfl⟩ := hrep.exists_concat
  have hrep' : Rep (log.writeWal log.nextOffset m) (X ++ [S]) := hrep.of_eq rfl rfl rfl rfl rfl
  have hrec := hrep'.appendRecord hm
  have hle := h.le
  have hmessages : ((log.writeWal log.nextOffset m).appendRecord m).messages
      = log.messages ++ [m] := by
    rw [hrec.messages_eq, hrep.messages_eq, flatten_concat]
  have hcount : log.nextOffset = log.messages.length := by rw [hrep.next, hrep.messages_eq]
  -- the window grows at its end, and its start stays
  have hstart : log.nextOffset + 1 - (log.pendingAppends + 1)
      = log.nextOffset - log.pendingAppends := by omega
  rw [append_eq_settle]
  refine settle ⟨_, hrec⟩ ?_ h.batchSize (show log.pendingAppends + 1 ≤ log.nextOffset + 1 by omega)
    ?_ ?_
  · have hpaths : ((log.writeWal log.nextOffset m).appendRecord m).filePaths = log.filePaths :=
      filePaths_appendRecord _ m
    rw [hpaths]
    exact h.paths
  · show log.wal ++ walEntry log.nextOffset m = walEntries.encAll (entriesFrom
      ((log.writeWal log.nextOffset m).appendRecord m).messages
      (log.nextOffset + 1 - (log.pendingAppends + 1)) (log.pendingAppends + 1))
    rw [hmessages, hstart, entriesFrom_concat (by omega), Format.encAll_append, ← h.wal, ← hcount]
    show _ = log.wal ++ (walEntry _ m ++ [])
    rw [walEntry_mod, List.append_nil]
  · show SyncedUpTo (log.nextOffset + 1 - (log.pendingAppends + 1)) _
    rw [hstart]
    exact SyncedUpTo.appendRecord hrep' h.synced (Nat.sub_le _ _) hm

/-- An empty WAL has no pending appends. -/
theorem pending_eq_zero (h : Windowed batch log) (hwal : log.wal = []) :
    log.pendingAppends = 0 := by
  cases hpending : log.pendingAppends with
  | zero => rfl
  | succ n =>
    have hentries := h.wal
    rw [hwal, hpending, entriesFrom_succ, Format.encAll_cons] at hentries
    have hlen := congrArg List.length hentries
    have hpos := walEntries.enc_pos ((log.nextOffset - (n + 1)) % 2 ^ 64,
      log.messages.getD (log.nextOffset - (n + 1)) [])
    rw [List.length_append, List.length_nil] at hlen
    omega

end Windowed

/-! ### One reload -/

/-- Replay ends with a sync of all segments, if there was a WAL and there are records. -/
theorem recoverWal_synced {log : Log} (hwal : log.wal ≠ [])
    (hnext : log.recoverWal.nextOffset > 0) :
    ∃ segments : List LogSegment, log.recoverWal.segments = segments.map LogSegment.sync := by
  unfold recoverWal at hnext ⊢
  rw [if_neg hwal] at hnext ⊢
  dsimp only at hnext ⊢
  split
  · exact ⟨_, rfl⟩
  · next hzero =>
    rw [if_neg hzero] at hnext
    exact absurd hnext hzero

/-- The segments of a log that was constructed on intact files and without a WAL. -/
theorem Rep.mem_segments_construct {log : Log} (h : Rep log Ss) (hnamed : log.Named)
    (hwal : log.wal = []) (maxSegmentSize syncBatchSize : Nat) :
    ∀ s' ∈ (construct log.directory maxSegmentSize syncBatchSize).segments,
      ∃ s ∈ log.segments, s' = LogSegment.reopen s.filePath s.file := by
  have hcontents : walContents log.directory = [] := hnamed.walContents_directory.trans hwal
  have hperm : (segmentPaths log.directory).Perm log.segmentFiles := by
    rw [hnamed.segmentPaths_directory]
    exact List.perm_insertionSort _ _
  have hpaths : segmentPaths log.directory ≠ [] := by
    intro hnil
    rw [hnil] at hperm
    have hlen := hperm.length_eq
    have hact := h.active
    rw [segmentFiles, List.length_map, List.length_nil] at hlen
    omega
  have hstale : Stale [] ((segmentPaths log.directory).flatMap
      (fun f => records.scan f.contents)).length := fun e he => absurd he List.not_mem_nil
  rw [construct, hcontents, constructFrom_stale _ _ hstale]
  show ∀ s' ∈ ((blank [] maxSegmentSize syncBatchSize).loadExistingSegments _).segments, _
  rw [loadExistingSegments_segments [] maxSegmentSize syncBatchSize hpaths, List.map_map]
  intro s' hs'
  obtain ⟨f, hf, rfl⟩ := List.mem_map.mp hs'
  obtain ⟨s, hs, rfl⟩ := List.mem_map.mp (hperm.mem_iff.mp hf)
  refine ⟨s, hs, ?_⟩
  show LogSegment.reopen s.filePath (records.encAll (records.scan s.file)) = _
  rw [h.encAll_scan hs]

/-- What a log has synced of one of its own files. -/
theorem syncedOf_filePath {log : Log} (hnodup : log.filePaths.Nodup) (hs : s ∈ log.segments) :
    log.syncedOf s.filePath = s.synced := by
  unfold syncedOf
  cases hfind : log.segments.find? (fun t => t.filePath == s.filePath) with
  | none => exact absurd (beq_self_eq_true s.filePath) (List.find?_eq_none.mp hfind s hs)
  | some t =>
    have hfound := List.find?_some hfind
    have hpath : t.filePath = s.filePath := eq_of_beq hfound
    rw [List.inj_on_of_nodup_map hnodup (List.mem_of_find?_eq_some hfind) hs hpath]

namespace Windowed

variable {batch : Nat} {log : Log}

theorem reload (h : Windowed batch log) (maxSegmentSize syncBatchSize : Nat) :
    Windowed syncBatchSize (log.reload maxSegmentSize syncBatchSize) := by
  have hnamed : log.Named := by
    intro s hs
    exact h.paths.isSegmentFile _ (List.mem_map_of_mem hs)
  obtain ⟨Ss, hrep⟩ := h.stored
  obtain ⟨Ss', hrep', -⟩ := constructFrom_stores (segmentPaths log.directory)
    (walContents log.directory) maxSegmentSize syncBatchSize
  have hpaths : DensePaths (construct log.directory maxSegmentSize syncBatchSize).filePaths := by
    refine densePaths_construct ?_ maxSegmentSize syncBatchSize
    rw [hnamed.segmentNames_directory]
    exact h.paths
  obtain ⟨_, _, _, _, hframe⟩ := construct_frame log.directory maxSegmentSize syncBatchSize
  have hbatch : (construct log.directory maxSegmentSize syncBatchSize).syncBatchSize
      = max 1 syncBatchSize := by rw [hframe]
  have hpending : (construct log.directory maxSegmentSize syncBatchSize).pendingAppends = 0 := by
    rw [hframe]
  have hwal : (construct log.directory maxSegmentSize syncBatchSize).wal = [] := by rw [hframe]
  unfold Log.reload
  dsimp only
  split
  · next hsynced =>
    refine emptied ⟨Ss', hrep'⟩ hpaths hbatch hpending hwal (fun n => ?_)
    have hloaded : (loaded log.directory maxSegmentSize syncBatchSize).wal ≠ [] := by
      rw [loaded_wal]
      exact hnamed.walContents_directory.trans_ne hsynced.1
    obtain ⟨segments, heq⟩ := recoverWal_synced hloaded hsynced.2
    exact (congrArg (SyncedUpTo n) heq).mpr (SyncedUpTo.map_sync segments n)
  · next hsynced =>
    refine emptied ⟨Ss', ?_⟩ ?_ hbatch hpending hwal (fun n => SyncedUpTo.of_all (fun s hs => ?_) n)
    · refine Rep.of_eq hrep' ?_ ?_ rfl rfl rfl <;> exact List.map_map ..
    · exact (congrArg DensePaths (List.map_map ..)).mpr hpaths
    · obtain ⟨t, ht, rfl⟩ := List.mem_map.mp hs
      by_cases hempty : log.wal = []
      · -- without a WAL nothing was pending, and every file was synced as a whole
        obtain ⟨s, hmem, rfl⟩ := hrep.mem_segments_construct hnamed hempty _ _ t ht
        have hall := h.synced
        rw [h.pending_eq_zero hempty, Nat.sub_zero] at hall
        have hcovered := hall.all (by rw [hrep.next, ← hrep.messages_eq]; exact le_rfl) s hmem
        show (records.encAll (records.scan s.file)).length
          ≤ min (log.syncedOf s.filePath) s.file.length
        rw [syncedOf_filePath h.paths.nodup hmem]
        refine Nat.le_min.mpr ⟨hcovered, ?_⟩
        rw [hrep.encAll_scan hmem]
      · -- no records
        have hzero : (construct log.directory maxSegmentSize syncBatchSize).nextOffset = 0 :=
          Nat.eq_zero_of_not_pos (fun hpos => hsynced ⟨hempty, hpos⟩)
        have hnone : (construct log.directory maxSegmentSize syncBatchSize).messages = [] := by
          have hnext := hrep'.next
          rw [← Rep.messages_eq hrep'] at hnext
          exact List.length_eq_zero_iff.mp (hnext.symm.trans hzero)
        show (records.encAll (records.scan t.file)).length ≤ _
        rw [List.flatMap_eq_nil_iff.mp hnone t ht]
        exact Nat.zero_le _

end Windowed

/-- **Every state** keeps the window. -/
theorem Running.windowed {batch : Nat} {log : Log} (h : Running batch log) :
    Windowed batch log := by
  induction h with
  | fresh maxSegmentSize syncBatchSize =>
    refine .emptied ⟨_, rep_construct_empty maxSegmentSize syncBatchSize⟩ ?_ rfl rfl rfl
      (SyncedUpTo.of_all ?_)
    · exact List.Perm.refl [segmentName 0]
    · intro s hs
      rw [show (construct [] maxSegmentSize syncBatchSize).segments
        = [LogSegment.reopen (segmentName 0) []] from rfl, List.mem_singleton] at hs
      rw [hs]
      exact le_rfl
  | reload maxSegmentSize syncBatchSize _ ih => exact ih.reload maxSegmentSize syncBatchSize
  | call op _ hop ih =>
    cases op with
    | append m => exact ih.append hop
    | flush => exact ih.flush
    | fetch k => exact ih

/-- **The WAL holds exactly the unsynced tail.**  In every state that constructions, appends,
    fetches and flushes lead to, the WAL is the entries of the last `pending_appends_` records
    in the order of their offsets, fewer than the sync batch size; and every record before
    these ends within the synced part of its segment. -/
theorem wal_is_unsynced_tail (batch : Nat) (log : Log) (h : Running batch log) :
    log.messages.length = log.nextOffset ∧ log.pendingAppends ≤ log.nextOffset ∧
      log.wal = walEntries.encAll
        (entriesFrom log.messages (log.nextOffset - log.pendingAppends) log.pendingAppends) ∧
      log.pendingAppends < max 1 batch ∧
      ∀ X s Y, log.segments = X ++ s :: Y → ∀ j < (records.scan s.file).length,
        (X.flatMap (fun s => records.scan s.file)).length + j + log.pendingAppends
          < log.nextOffset →
        (records.encAll ((records.scan s.file).take (j + 1))).length ≤ s.synced := by
  have hwindow := h.windowed
  obtain ⟨Ss, hrep⟩ := hwindow.stored
  refine ⟨by rw [hrep.messages_eq, hrep.next], hwindow.le, hwindow.wal, ?_, ?_⟩
  · rw [← hwindow.batchSize]
    exact hwindow.pending
  · intro X s Y hsegments j _ hj
    have hsynced := hwindow.synced
    rw [hsegments] at hsynced
    exact hsynced.record (by omega)

/-- A message is synced by the construction that finds it in the WAL; the next one is not
    synced yet, and has its entry there. -/
theorem wal_is_unsynced_tail_reloaded :
    let log := ((((construct [] 20 64).append [7]).2.reload 20 3).append [8]).2
    log.wal = walEntry 1 [8] ∧ log.segments.map LogSegment.synced = [9] ∧
      log.pendingAppends < 3 := by
  intro log
  have hfits : ∀ b : UInt8, (Op.append [b]).Fits := by
    intro b
    show 1 < 256 ^ 8
    omega
  have hone : Running 64 ((construct [] 20 64).append [7]).2 :=
    (Running.fresh 20 64).call (.append [7]) (hfits 7)
  have hrunning : Running 3 log := (hone.reload 20 3).call (.append [8]) (hfits 8)
  obtain ⟨-, -, -, hpending, -⟩ := wal_is_unsynced_tail 3 log hrunning
  exact ⟨by decide +kernel, by decide +kernel, hpending⟩

end Log

end StreamingPlatform
