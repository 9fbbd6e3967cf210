import StreamingPlatform.Storage.CrashRecovery

namespace StreamingPlatform

open ByteString

/-!
# Storage — the numbers of the segment files

A segment file carries its number in its name.  `Numbered` says how the numbers of a
log's segments relate to its records: the segments that hold records are in the order of
their numbers, and the active segment has the largest.  Every call keeps it
(`Numbered.run`); `Storage/Reopen` shows when a reopen does.
-/

open LogSegment (records)

namespace Log

/-! ### Names -/

/-- Names tell the segments apart. -/
theorem segmentName_injective {m n : Nat} (h : segmentName m = segmentName n) : m = n := by
  unfold segmentName at h
  exact decimal_injective (List.append_cancel_left (List.append_cancel_right h))

/-- Below ten the names are in the order of the numbers. -/
theorem le_of_segmentName_le {m n : Nat} (hm : m < 10) (hn : n < 10)
    (h : segmentName m ≤ segmentName n) : m ≤ n := by
  have hall : ∀ m < 10, ∀ n < 10, segmentName m ≤ segmentName n → m ≤ n := by decide +kernel
  exact hall m hm n hn h

/-- Loading keeps the file names. -/
theorem rebuildLoop_filePaths (si rounds position : Nat) (log : Log) :
    (rebuildLoop si rounds position log).segments.map LogSegment.filePath
      = log.segments.map LogSegment.filePath := by
  induction rounds generalizing position log with
  | zero => rfl
  | succ rounds ih =>
    rw [rebuildLoop]
    split
    · split
      · rw [ih]
      · exact map_set_segment LogSegment.filePath log si _ rfl
    · rfl

theorem foldl_loadSegment_filePaths (log : Log) (paths : List File) :
    (paths.foldl loadSegment log).segments.map LogSegment.filePath
      = log.segments.map LogSegment.filePath ++ paths.map File.name := by
  induction paths generalizing log with
  | nil => simp
  | cons f paths ih =>
    rw [List.foldl_cons, ih, loadSegment, rebuildIndexFromSegment, rebuildLoop_filePaths]
    simp [LogSegment.reopen]

theorem loadExistingSegments_filePaths (log : Log) (hlog : log.segments = []) {paths : List File}
    (hp : paths ≠ []) :
    (log.loadExistingSegments paths).segments.map LogSegment.filePath = paths.map File.name := by
  rw [loadExistingSegments, if_neg hp]
  show (paths.foldl loadSegment log).segments.map LogSegment.filePath = _
  rw [foldl_loadSegment_filePaths, hlog]
  rfl

/-! ### The invariant -/

/-- The segments of `log` are `xs` and then the active one `q`, each with the number in
    its file name. -/
structure Numbered (log : Log) (xs : List (Nat × List Bytes)) (q : Nat × List Bytes) : Prop where
  rep : Rep log ((xs ++ [q]).map Prod.snd)
  names : log.segments.map LogSegment.filePath = (xs ++ [q]).map (fun p => segmentName p.1)
  nodup : ((xs ++ [q]).map Prod.fst).Nodup
  bound : ∀ p ∈ xs ++ [q], p.1 < (xs ++ [q]).length
  /-- The segments that hold records are in the order of their numbers. -/
  sorted : (xs.filter (fun p => p.2 ≠ [])).Pairwise (fun p p' => p.1 < p'.1)
  /-- The active segment has a larger number than any other that holds records. -/
  last : ∀ p ∈ xs, p.2 ≠ [] → p.1 < q.1
  wal : log.pendingAppends = 0 → log.wal = []

/-- A last segment with the largest number keeps the segments with records sorted. -/
theorem pairwise_filter_concat {xs : List (Nat × List Bytes)} {q : Nat × List Bytes}
    (hsorted : (xs.filter (fun p => p.2 ≠ [])).Pairwise (fun p p' => p.1 < p'.1))
    (hlast : ∀ p ∈ xs, p.2 ≠ [] → p.1 < q.1) :
    ((xs ++ [q]).filter (fun p => p.2 ≠ [])).Pairwise (fun p p' => p.1 < p'.1) := by
  rw [List.filter_append, List.pairwise_append]
  refine ⟨hsorted, List.Pairwise.filter _ (List.pairwise_singleton _ _), ?_⟩
  intro p hp p' hp'
  rw [List.mem_filter] at hp hp'
  rw [List.mem_singleton.mp hp'.1]
  exact hlast p hp.1 (by simpa using hp.2)

/-- The messages of numbered segments. -/
def messagesOf (ps : List (Nat × List Bytes)) : List Bytes := (ps.map Prod.snd).flatten

namespace Numbered

variable {log : Log} {xs : List (Nat × List Bytes)} {q : Nat × List Bytes}

theorem length_eq (h : Numbered log xs q) : log.segments.length = (xs ++ [q]).length := by
  have := congrArg List.length h.names
  rwa [List.length_map, List.length_map] at this

/-- All segments with records, the active one included, are sorted by their numbers. -/
theorem sorted_concat (h : Numbered log xs q) :
    ((xs ++ [q]).filter (fun p => p.2 ≠ [])).Pairwise (fun p p' => p.1 < p'.1) :=
  pairwise_filter_concat h.sorted h.last

theorem appendRecord (h : Numbered log xs q) {m : Bytes} (hm : records.Valid m) :
    Numbered { (log.writeWal log.nextOffset m).appendRecord m with
      pendingAppends := log.pendingAppends + 1 } xs (q.1, q.2 ++ [m]) := by
  have hrep : Rep (log.writeWal log.nextOffset m) (xs.map Prod.snd ++ [q.2]) :=
    (show Rep log (xs.map Prod.snd ++ [q.2]) by simpa using h.rep).of_eq rfl rfl rfl rfl rfl
  refine ⟨?_, ?_, ?_, ?_, h.sorted, h.last, ?_⟩
  · rw [List.map_append]
    exact (hrep.appendRecord hm).of_eq rfl rfl rfl rfl rfl
  · show (log.segments.set log.activeSegmentIndex (log.activeSegment.append m).2).map _ = _
    rw [map_set_segment LogSegment.filePath log _ (log.activeSegment.append m).2 rfl, h.names]
    simp
  · simpa using h.nodup
  · intro p hp
    rw [List.length_append, List.length_singleton]
    rcases List.mem_append.mp hp with hp | hp
    · simpa using h.bound p (List.mem_append_left _ hp)
    · rw [List.mem_singleton.mp hp]
      simpa using h.bound q (by simp)
  · intro hpending
    exact absurd hpending (by simp)

/-- A roll-over numbers the next segment. -/
theorem rollOver (h : Numbered log xs q) :
    Numbered log.rollOver (xs ++ [q]) (log.segments.length, []) := by
  have hlt : ∀ p ∈ xs ++ [q], p.1 < log.segments.length := by
    intro p hp
    rw [h.length_eq]
    exact h.bound p hp
  refine ⟨?_, ?_, ?_, ?_, ?_, fun p hp _ => hlt p hp, h.wal⟩
  · rw [List.map_append]
    exact h.rep.rollOver
  · show (log.segments ++ [_]).map _ = _
    rw [List.map_append, h.names]
    simp [LogSegment.reopen]
  · rw [List.map_append, List.nodup_append]
    refine ⟨h.nodup, by simp, ?_⟩
    intro a ha b hb
    obtain ⟨p, hp, rfl⟩ := List.mem_map.mp ha
    rw [List.map_singleton, List.mem_singleton] at hb
    have := hlt p hp
    omega
  · intro p hp
    rw [List.length_append, List.length_singleton, ← h.length_eq]
    rcases List.mem_append.mp hp with hp | hp
    · exact Nat.lt_succ_of_lt (hlt p hp)
    · rw [List.mem_singleton.mp hp]
      exact Nat.lt_succ_self _
  · exact h.sorted_concat

theorem syncPending (h : Numbered log xs q) : Numbered log.syncPending xs q :=
  ⟨h.rep.map_sync rfl rfl rfl rfl, (map_map_sync _ (fun _ => rfl) _).trans h.names, h.nodup,
    h.bound, h.sorted, h.last, fun _ => rfl⟩

theorem flush (h : Numbered log xs q) : Numbered log.flush xs q := by
  unfold Log.flush
  split
  · exact h.syncPending
  · exact h

/-- An append goes to the last segment, and may start another one. -/
theorem append (h : Numbered log xs q) {m : Bytes} (hm : records.Valid m) :
    ∃ xs' q', Numbered (log.append m).2 xs' q' ∧
      messagesOf (xs' ++ [q']) = messagesOf (xs ++ [q]) ++ [m] := by
  have hrec := h.appendRecord hm
  have hmsg : messagesOf (xs ++ [(q.1, q.2 ++ [m])]) = messagesOf (xs ++ [q]) ++ [m] := by
    simp [messagesOf]
  have hmsg' : messagesOf (xs ++ [(q.1, q.2 ++ [m])] ++ [(log.segments.length, [])])
      = messagesOf (xs ++ [q]) ++ [m] := by
    simp [messagesOf]
  have hlen : log.segments.length
      = ((log.writeWal log.nextOffset m).appendRecord m).segments.length :=
    (List.length_set ..).symm
  rw [hlen] at hmsg'
  rw [append_eq_settle]
  rcases settle_cases ((log.writeWal log.nextOffset m).appendRecord m) with
    ⟨-, heq | heq⟩ | ⟨-, heq | heq⟩ <;> rw [heq]
  · exact ⟨_, _, hrec.syncPending, hmsg⟩
  · exact ⟨_, _, hrec.rollOver.syncPending, hmsg'⟩
  · exact ⟨_, _, hrec, hmsg⟩
  · exact ⟨_, _, hrec.rollOver, hmsg'⟩

/-- Any number of calls. -/
theorem run (h : Numbered log xs q) {ops : List Op} (hops : ∀ op ∈ ops, op.Fits) :
    ∃ xs' q', Numbered (log.run ops).2 xs' q' ∧
      messagesOf (xs' ++ [q']) = (specRun (messagesOf (xs ++ [q])) ops).2 := by
  induction ops generalizing log xs q with
  | nil => exact ⟨xs, q, h, rfl⟩
  | cons op ops ih =>
    have hrest : ∀ o ∈ ops, o.Fits := fun o ho => hops o (List.mem_cons_of_mem _ ho)
    cases op with
    | append m =>
      obtain ⟨xs₁, q₁, h₁, hmsg⟩ := h.append (hops (.append m) List.mem_cons_self)
      obtain ⟨xs₂, q₂, h₂, hmsg'⟩ := ih h₁ hrest
      exact ⟨xs₂, q₂, h₂, by rw [hmsg', hmsg]; rfl⟩
    | flush => exact ih h.flush hrest
    | fetch k => exact ih h hrest

end Numbered

end Log

end StreamingPlatform
