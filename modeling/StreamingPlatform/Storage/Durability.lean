import StreamingPlatform.Storage.WriteAheadLog

namespace StreamingPlatform

open ByteString

/-!
# Storage — what of a running log is on stable storage

`Tracked` is the invariant of a running log that says what a crash can take away: the
WAL holds exactly the pending appends, and the synced part of every segment is a number
of whole records, as many in total as are not pending.  Every call keeps it
(`Tracked.run`).
-/

open LogSegment (records)

namespace Log

/-- What a replaced element keeps is the same in the whole list. -/
theorem map_set_getD {α β : Type} {f : α → β} {l : List α} {i : Nat} {x default : α}
    (hx : f x = f (l.getD i default)) : (l.set i x).map f = l.map f := by
  rw [List.map_set]
  by_cases hi : i < l.length
  · have hi' : i < (l.map f).length := by simpa using hi
    have hval : f x = (l.map f)[i] := by
      rw [hx, List.getD_eq_getElem?_getD, List.getElem?_eq_getElem hi, Option.getD_some,
        List.getElem_map]
    rw [hval, List.set_getElem_self]
  · rw [List.set_eq_of_length_le (by simpa using hi)]

/-- Replacing a segment by one that agrees on `f` does not change the `f` values. -/
theorem map_set_segment {α : Type} (f : LogSegment → α) (log : Log) (i : Nat) (s : LogSegment)
    (hs : f s = f (log.segment i)) : (log.segments.set i s).map f = log.segments.map f :=
  map_set_getD hs

/-! ### The invariant -/

/-- `log` stores the records `Ss`; of every segment the part `Ts` is on stable storage
    and the WAL holds the rest. -/
structure Tracked (log : Log) (Ss Ts : List (List Bytes)) : Prop where
  rep : Rep log Ss
  synced : log.segments.map LogSegment.synced = Ts.map (fun T => (records.encAll T).length)
  /-- What is synced of a segment is an initial part of it. -/
  sub : List.Forall₂ (fun T S => T <+: S) Ts Ss
  pending : Ts.flatten.length + log.pendingAppends = Ss.flatten.length
  wal : log.wal
    = walEntries.encAll (entriesFrom Ss.flatten Ts.flatten.length log.pendingAppends)
  batch : log.pendingAppends < log.syncBatchSize
  /-- The segments are numbered in the order of their creation. -/
  names : log.segments.map LogSegment.filePath
    = (List.range log.segments.length).map segmentName

/-- Rolling over names the new segment by its number. -/
theorem names_rollOver {log : Log}
    (h : log.segments.map LogSegment.filePath = (List.range log.segments.length).map segmentName) :
    log.rollOver.segments.map LogSegment.filePath
      = (List.range log.rollOver.segments.length).map segmentName := by
  show (log.segments ++ [_]).map _ = (List.range (log.segments ++ [_]).length).map segmentName
  rw [List.map_append, h, List.length_append, List.length_singleton, List.range_succ,
    List.map_append]
  rfl

theorem names_appendRecord {log : Log} (m : Bytes)
    (h : log.segments.map LogSegment.filePath = (List.range log.segments.length).map segmentName) :
    (log.appendRecord m).segments.map LogSegment.filePath
      = (List.range (log.appendRecord m).segments.length).map segmentName := by
  show (log.segments.set _ _).map _ = (List.range (log.segments.set _ _).length).map segmentName
  rw [map_set_segment LogSegment.filePath log _ (log.activeSegment.append m).2 rfl, List.length_set,
    h]

namespace Tracked

variable {log : Log} {Ss Ts : List (List Bytes)}

/-- After a sync nothing is pending and everything is stable. -/
theorem syncPending (hrep : Rep log Ss) (hbatch : 0 < log.syncBatchSize)
    (hnames : log.segments.map LogSegment.filePath
      = (List.range log.segments.length).map segmentName) :
    Tracked log.syncPending Ss Ss := by
  refine ⟨hrep.map_sync rfl rfl rfl rfl, ?_, ?_, rfl, rfl, hbatch, ?_⟩
  · show (log.segments.map LogSegment.sync).map _ = _
    have hfiles := congrArg (List.map List.length) hrep.files
    rw [List.map_map, List.map_map] at hfiles
    rw [List.map_map]
    exact hfiles
  · exact List.forall₂_same.mpr (fun S _ => List.prefix_refl S)
  · show (log.segments.map LogSegment.sync).map _
      = (List.range (log.segments.map LogSegment.sync).length).map segmentName
    rw [map_map_sync _ (fun _ => rfl), hnames, List.length_map]

/-- Appending a record to the active segment and its entry to the WAL. -/
theorem appendRecord {X : List (List Bytes)} {S : List Bytes} (h : Tracked log (X ++ [S]) Ts)
    {m : Bytes} (hm : records.Valid m) (hbatch : log.pendingAppends + 1 < log.syncBatchSize) :
    Tracked { (log.writeWal log.nextOffset m).appendRecord m with
      pendingAppends := log.pendingAppends + 1 } (X ++ [S ++ [m]]) Ts := by
  have hflat := flatten_concat X S [m]
  have hrep : Rep (log.writeWal log.nextOffset m) (X ++ [S]) := h.rep.of_eq rfl rfl rfl rfl rfl
  refine ⟨(hrep.appendRecord hm).of_eq rfl rfl rfl rfl rfl, ?_, ?_, ?_, ?_, hbatch,
    names_appendRecord m h.names⟩
  · -- writing syncs nothing
    show (log.segments.set log.activeSegmentIndex (log.activeSegment.append m).2).map _ = _
    rw [map_set_segment LogSegment.synced log _ (log.activeSegment.append m).2 rfl, h.synced]
  · have hX := List.forall₂_take_append _ _ _ h.sub
    have hS := List.forall₂_drop_append _ _ _ h.sub
    rw [List.forall₂_cons_right_iff] at hS
    obtain ⟨T, rest, hT, hrest, heq⟩ := hS
    rw [List.forall₂_nil_right_iff] at hrest
    rw [hrest] at heq
    rw [← List.take_append_drop X.length Ts, heq]
    exact List.rel_append hX (.cons (hT.trans (List.prefix_append _ _)) .nil)
  · show Ts.flatten.length + (log.pendingAppends + 1) = _
    rw [hflat, List.length_append, List.length_singleton, ← h.pending]
    omega
  · show log.wal ++ walEntry log.nextOffset m = _
    rw [hflat, entriesFrom_concat h.pending, Format.encAll_append, ← h.wal, h.rep.next]
    show _ = log.wal ++ (walEntry _ m ++ [])
    rw [walEntry_mod, List.append_nil]

/-- A new empty segment. -/
theorem rollOver (h : Tracked log Ss Ts) : Tracked log.rollOver (Ss ++ [[]]) (Ts ++ [[]]) := by
  have hflat : ∀ Us : List (List Bytes), (Us ++ [[]]).flatten = Us.flatten := by simp
  refine ⟨h.rep.rollOver, ?_, ?_, ?_, ?_, h.batch, names_rollOver h.names⟩
  · show (log.segments ++ [_]).map _ = _
    rw [List.map_append, h.synced, List.map_append]
    rfl
  · exact List.rel_append h.sub (.cons (List.prefix_refl _) .nil)
  · rw [hflat, hflat]
    exact h.pending
  · rw [hflat, hflat]
    exact h.wal

/-- **Append keeps track.** -/
theorem append (h : Tracked log Ss Ts) {m : Bytes} (hm : records.Valid m) :
    ∃ Ss' Ts', Tracked (log.append m).2 Ss' Ts' ∧ Ss'.flatten = Ss.flatten ++ [m] := by
  obtain ⟨X, S, rfl⟩ := h.rep.exists_concat
  have hflat := flatten_concat X S [m]
  have hflat' : (X ++ [S ++ [m]] ++ [[]]).flatten = (X ++ [S]).flatten ++ [m] := by simp
  have hpos : 0 < log.syncBatchSize := by have := h.batch; omega
  have hrep : Rep (log.writeWal log.nextOffset m) (X ++ [S]) := h.rep.of_eq rfl rfl rfl rfl rfl
  have hrec := hrep.appendRecord hm
  have hnames : ((log.writeWal log.nextOffset m).appendRecord m).segments.map LogSegment.filePath
      = _ := names_appendRecord m h.names
  rw [append_eq_settle]
  rcases settle_cases ((log.writeWal log.nextOffset m).appendRecord m) with
    ⟨-, heq | heq⟩ | ⟨hbatch, heq | heq⟩ <;> rw [heq]
  · -- the batch is full: everything is synced
    exact ⟨_, _, syncPending hrec hpos hnames, hflat⟩
  · exact ⟨_, _, syncPending hrec.rollOver hpos (names_rollOver hnames), hflat'⟩
  · exact ⟨_, _, h.appendRecord hm hbatch, hflat⟩
  · exact ⟨_, _, (h.appendRecord hm hbatch).rollOver, hflat'⟩

theorem flush (h : Tracked log Ss Ts) : ∃ Ts', Tracked log.flush Ss Ts' := by
  unfold Log.flush
  split
  · have hpos : 0 < log.syncBatchSize := by have := h.batch; omega
    exact ⟨_, syncPending h.rep hpos h.names⟩
  · exact ⟨_, h⟩

/-- Every call keeps track of the messages. -/
theorem perform (h : Tracked log Ss Ts) {op : Op} (hop : op.Fits) :
    ∃ Ss' Ts', Tracked (log.perform op).2 Ss' Ts' ∧
      Ss'.flatten = (specPerform Ss.flatten op).2 := by
  cases op with
  | append m => exact h.append hop
  | flush =>
    obtain ⟨Ts', hflush⟩ := h.flush
    exact ⟨Ss, Ts', hflush, rfl⟩
  | fetch k => exact ⟨Ss, Ts, h, rfl⟩

/-- **Every run keeps track of the messages.** -/
theorem run (h : Tracked log Ss Ts) {ops : List Op} (hops : ∀ op ∈ ops, op.Fits) :
    ∃ Ss' Ts', Tracked (log.run ops).2 Ss' Ts' ∧ Ss'.flatten = (specRun Ss.flatten ops).2 := by
  induction ops generalizing log Ss Ts with
  | nil => exact ⟨Ss, Ts, h, rfl⟩
  | cons op ops ih =>
    obtain ⟨Ss₁, Ts₁, h₁, hflat⟩ := h.perform (hops op (by simp))
    obtain ⟨Ss₂, Ts₂, h₂, hflat'⟩ := ih h₁ (fun o ho => hops o (by simp [ho]))
    exact ⟨Ss₂, Ts₂, h₂, by rw [hflat', hflat]; rfl⟩

end Tracked

theorem tracked_construct_empty (maxSegmentSize syncBatchSize : Nat) :
    Tracked (construct [] maxSegmentSize syncBatchSize) [[]] [[]] := by
  exact ⟨rep_construct_empty maxSegmentSize syncBatchSize, rfl,
    .cons (List.prefix_refl _) .nil, rfl, rfl, show 0 < max 1 syncBatchSize by omega, rfl⟩

end Log

end StreamingPlatform
