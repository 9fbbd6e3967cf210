import StreamingPlatform.Storage.Log

namespace StreamingPlatform

open ByteString

/-!
# Storage — the representation invariant of a log

`Rep log Ss` says that `log` stores the records `Ss`, given segment by segment: every
file is the encoding of its segment's records, the counters agree with their number,
and the index is the one `indexFrom` computes from the records.  It carries all that
`fetch` relies on:

* `Rep.appendRecord`, `Rep.rollOver` — the two steps that change the records keep it;
* `Rep.fetch_eq` — under it, `fetch` is list access on `Ss.flatten`, and its error
  branches other than `"Invalid offset"` are dead.
-/

open LogSegment (records)

namespace Log

/-! ### The end of an append -/

/-- The end of `append`: roll over to a new segment if the active one is full, count the
    pending append and sync if the batch is full. -/
def settle (log : Log) : Log :=
  let log := if log.activeSegment.sizes ≥ log.maxSegmentSize then log.rollOver else log
  let log := { log with pendingAppends := log.pendingAppends + 1 }
  if log.pendingAppends ≥ log.syncBatchSize then log.syncPending else log

theorem append_eq_settle (log : Log) (m : Bytes) :
    log.append m
      = (log.nextOffset, ((log.writeWal log.nextOffset m).appendRecord m).settle) := rfl

theorem settle_cases (log : Log) :
    (log.syncBatchSize ≤ log.pendingAppends + 1 ∧
      (log.settle = log.syncPending ∨ log.settle = log.rollOver.syncPending)) ∨
    (log.pendingAppends + 1 < log.syncBatchSize ∧
      (log.settle = { log with pendingAppends := log.pendingAppends + 1 } ∨
        log.settle = { log.rollOver with pendingAppends := log.pendingAppends + 1 })) := by
  by_cases hfull : log.activeSegment.sizes ≥ log.maxSegmentSize <;>
    by_cases hbatch : log.pendingAppends + 1 ≥ log.syncBatchSize
  · refine .inl ⟨hbatch, .inr ?_⟩
    simp only [settle, if_pos hfull, rollOver, if_pos hbatch]
    rfl
  · refine .inr ⟨Nat.not_le.mp hbatch, .inr ?_⟩
    simp only [settle, if_pos hfull, rollOver, if_neg hbatch]
  · refine .inl ⟨hbatch, .inl ?_⟩
    simp only [settle, if_neg hfull, if_pos hbatch]
    rfl
  · refine .inr ⟨Nat.not_le.mp hbatch, .inl ?_⟩
    simp only [settle, if_neg hfull, if_neg hbatch]

/-! ### The index of given records -/

/-- The checkpoints of one segment whose next record has offset `offset` and starts at
    byte `position`. -/
def indexSegment (segmentIndex : Nat) : Nat → Nat → List Bytes → List LogIndexEntry
  | _, _, [] => []
  | offset, position, m :: ms =>
    (if offset % kIndexStride = 0 ∨ position = 0 then [⟨offset, segmentIndex, position⟩] else [])
      ++ indexSegment segmentIndex (offset + 1) (position + (records.enc m).length) ms

/-- The checkpoints of consecutive segments, the first of which has number
    `segmentIndex` and starts at `offset`. -/
def indexFrom : Nat → Nat → List (List Bytes) → List LogIndexEntry
  | _, _, [] => []
  | segmentIndex, offset, S :: Ss =>
    indexSegment segmentIndex offset 0 S ++ indexFrom (segmentIndex + 1) (offset + S.length) Ss

theorem indexSegment_append (si offset position : Nat) (A B : List Bytes) :
    indexSegment si offset position (A ++ B)
      = indexSegment si offset position A
        ++ indexSegment si (offset + A.length) (position + (records.encAll A).length) B := by
  induction A generalizing offset position with
  | nil => simp [indexSegment]
  | cons m A ih =>
    simp only [List.cons_append, indexSegment, ih, List.append_assoc, List.length_cons,
      Format.encAll_cons, List.length_append]
    rw [show offset + 1 + A.length = offset + (A.length + 1) by omega, Nat.add_assoc position]

theorem indexFrom_append (si offset : Nat) (X Y : List (List Bytes)) :
    indexFrom si offset (X ++ Y)
      = indexFrom si offset X ++ indexFrom (si + X.length) (offset + X.flatten.length) Y := by
  induction X generalizing si offset with
  | nil => simp [indexFrom]
  | cons S X ih =>
    simp only [List.cons_append, indexFrom, ih, List.append_assoc, List.length_cons,
      List.flatten_cons, List.length_append]
    rw [show si + 1 + X.length = si + (X.length + 1) by omega, Nat.add_assoc offset]

/-- Appending one record to the last segment adds at most its own checkpoint. -/
theorem indexFrom_concat_record (X : List (List Bytes)) (S : List Bytes) (m : Bytes) :
    indexFrom 0 0 (X ++ [S ++ [m]])
      = indexFrom 0 0 (X ++ [S])
        ++ (if (X ++ [S]).flatten.length % kIndexStride = 0 ∨ (records.encAll S).length = 0 then
              [⟨(X ++ [S]).flatten.length, X.length, (records.encAll S).length⟩]
            else []) := by
  simp only [indexFrom_append, indexFrom, indexSegment_append, indexSegment, List.append_nil,
    Nat.zero_add, List.append_assoc, List.flatten_append, List.flatten_cons, List.flatten_nil,
    List.length_append]

/-- A new empty segment adds no checkpoint. -/
theorem indexFrom_concat_nil (X : List (List Bytes)) :
    indexFrom 0 0 (X ++ [[]]) = indexFrom 0 0 X := by
  simp [indexFrom_append, indexFrom, indexSegment]

variable {S : List Bytes} {X : List (List Bytes)}

/-- Where a checkpoint of one segment points: at a record of it. -/
theorem exists_of_mem_indexSegment {si offset position : Nat} {e : LogIndexEntry}
    (he : e ∈ indexSegment si offset position S) :
    ∃ A m B, S = A ++ m :: B ∧
      e = ⟨offset + A.length, si, position + (records.encAll A).length⟩ := by
  induction S generalizing offset position with
  | nil => exact absurd he (by simp [indexSegment])
  | cons m S ih =>
    rw [indexSegment, List.mem_append] at he
    rcases he with he | he
    · split at he
      · rw [List.mem_singleton] at he
        exact ⟨[], m, S, rfl, by simpa using he⟩
      · exact absurd he (by simp)
    · obtain ⟨A, m', B, rfl, rfl⟩ := ih he
      refine ⟨m :: A, m', B, rfl, ?_⟩
      simp only [List.length_cons, Format.encAll_cons, List.length_append]
      rw [show offset + 1 + A.length = offset + (A.length + 1) by omega, Nat.add_assoc position]

/-- Where a checkpoint of a log points: at a record of one of its segments. -/
theorem exists_of_mem_indexFrom {si offset : Nat} {Ss : List (List Bytes)}
    {e : LogIndexEntry} (he : e ∈ indexFrom si offset Ss) :
    ∃ X A m B Y, Ss = X ++ (A ++ m :: B) :: Y ∧
      e = ⟨offset + X.flatten.length + A.length, si + X.length, (records.encAll A).length⟩ := by
  induction Ss generalizing si offset with
  | nil => exact absurd he (by simp [indexFrom])
  | cons S Ss ih =>
    rw [indexFrom, List.mem_append] at he
    rcases he with he | he
    · obtain ⟨A, m, B, rfl, rfl⟩ := exists_of_mem_indexSegment he
      exact ⟨[], A, m, B, Ss, rfl, by simp⟩
    · obtain ⟨X, A, m, B, Y, rfl, rfl⟩ := ih he
      refine ⟨S :: X, A, m, B, Y, rfl, ?_⟩
      simp only [List.flatten_cons, List.length_append, List.length_cons]
      rw [show si + 1 + X.length = si + (X.length + 1) by omega, ← Nat.add_assoc offset]

/-- The first record of every segment has a checkpoint. -/
theorem start_mem_indexFrom (si offset : Nat) (X Y : List (List Bytes)) (m : Bytes)
    (S : List Bytes) :
    (⟨offset + X.flatten.length, si + X.length, 0⟩ : LogIndexEntry)
      ∈ indexFrom si offset (X ++ (m :: S) :: Y) := by
  rw [indexFrom_append, indexFrom, indexSegment]
  simp

/-- Checkpoint offsets of one segment increase and lie in the range of its records. -/
theorem indexSegment_sorted (si offset position : Nat) (S : List Bytes) :
    (indexSegment si offset position S).Pairwise (fun a b => a.offset < b.offset) := by
  induction S generalizing offset position with
  | nil => simp [indexSegment]
  | cons m S ih =>
    rw [indexSegment, List.pairwise_append]
    refine ⟨by split <;> simp, ih _ _, ?_⟩
    -- a checkpoint of the rest belongs to a later record
    intro a ha b hb
    obtain ⟨A, m', B, -, rfl⟩ := exists_of_mem_indexSegment hb
    split at ha
    · rw [List.mem_singleton] at ha
      subst ha
      show offset < offset + 1 + A.length
      omega
    · exact absurd ha (by simp)

/-- The index is sorted, as `std::upper_bound` needs it. -/
theorem indexFrom_sorted (si offset : Nat) (Ss : List (List Bytes)) :
    (indexFrom si offset Ss).Pairwise (fun a b => a.offset < b.offset) := by
  induction Ss generalizing si offset with
  | nil => simp [indexFrom]
  | cons S Ss ih =>
    rw [indexFrom, List.pairwise_append]
    refine ⟨indexSegment_sorted _ _ _ _, ih _ _, ?_⟩
    intro a ha b hb
    obtain ⟨A, m, B, rfl, rfl⟩ := exists_of_mem_indexSegment ha
    obtain ⟨X, A', m', B', Y, -, rfl⟩ := exists_of_mem_indexFrom hb
    simp only [List.length_append, List.length_cons]
    omega

/-! ### The invariant -/

/-- The files, counters and index of `log` are those of the records `Ss`, given segment
    by segment.  This much already holds while the segments are being loaded. -/
structure Indexed (log : Log) (Ss : List (List Bytes)) : Prop where
  /-- Every segment file is the encoding of its records. -/
  files : log.segments.map LogSegment.file = Ss.map records.encAll
  /-- The in-memory sizes are the file sizes. -/
  sizes : ∀ s ∈ log.segments, s.currentSize = s.file.length
  /-- Every message fits its length field. -/
  valid : ∀ S ∈ Ss, ∀ m ∈ S, records.Valid m
  next : log.nextOffset = Ss.flatten.length
  index : log.index = indexFrom 0 0 Ss

/-- `log` stores the records `Ss`: in addition, the last segment is the active one. -/
structure Rep (log : Log) (Ss : List (List Bytes)) : Prop extends Indexed log Ss where
  active : log.activeSegmentIndex + 1 = log.segments.length

/-- `segments[i]` within the bounds of the vector. -/
theorem segment_eq_getElem {log : Log} {i : Nat} (h : i < log.segments.length) :
    log.segment i = log.segments[i] := by
  rw [segment, List.getD_eq_getElem?_getD, List.getElem?_eq_getElem h, Option.getD_some]

/-- One more record in the last segment that fits its length field. -/
theorem valid_concat {m : Bytes} (h : ∀ S' ∈ X ++ [S], ∀ m' ∈ S', records.Valid m')
    (hm : records.Valid m) : ∀ S' ∈ X ++ [S ++ [m]], ∀ m' ∈ S', records.Valid m' := by
  intro S' hS' m' hm'
  rw [List.mem_append, List.mem_singleton] at hS'
  rcases hS' with hS' | rfl
  · exact h S' (by simp [hS']) m' hm'
  · rw [List.mem_append, List.mem_singleton] at hm'
    rcases hm' with hm' | rfl
    · exact h S (by simp) m' hm'
    · exact hm

/-- All records, with more of them in the last segment. -/
theorem flatten_concat (X : List (List Bytes)) (S R : List Bytes) :
    (X ++ [S ++ R]).flatten = (X ++ [S]).flatten ++ R := by
  simp

/-- Syncing segments changes none of their other fields. -/
theorem map_map_sync {α : Type} (f : LogSegment → α) (hf : ∀ s : LogSegment, f s.sync = f s)
    (segments : List LogSegment) : (segments.map LogSegment.sync).map f = segments.map f := by
  rw [List.map_map]
  exact List.map_congr_left (fun s _ => hf s)

theorem Indexed.length_eq {log : Log} {Ss : List (List Bytes)} (h : Indexed log Ss) :
    log.segments.length = Ss.length := by
  have := congrArg List.length h.files
  simpa using this

namespace Rep

variable {log : Log} {Ss : List (List Bytes)}

/-- The last segment, split off. -/
theorem exists_concat (h : Rep log Ss) : ∃ X S, Ss = X ++ [S] := by
  have hne : Ss ≠ [] := by
    rintro rfl
    have hlen : log.segments.length = 0 := h.length_eq
    have hact := h.active
    omega
  exact ⟨Ss.dropLast, Ss.getLast hne, (List.dropLast_concat_getLast hne).symm⟩

/-- The active segment is the last one. -/
theorem active_eq (h : Rep log (X ++ [S])) : log.activeSegmentIndex = X.length := by
  have hlen := h.length_eq
  have hact := h.active
  rw [List.length_append, List.length_singleton] at hlen
  omega

/-- The segment at a given position and the bytes of its file. -/
theorem segment_file {Y : List (List Bytes)} (h : Rep log (X ++ S :: Y)) :
    (log.segment X.length).file = records.encAll S ∧
      (log.segment X.length).currentSize = (log.segment X.length).file.length := by
  have hlt : X.length < log.segments.length := by
    rw [h.length_eq, List.length_append, List.length_cons]; omega
  rw [segment_eq_getElem hlt]
  refine ⟨?_, h.sizes _ (List.getElem_mem hlt)⟩
  have hfile := congrArg (fun l => l[X.length]?) h.files
  simpa [hlt] using hfile

/-! ### The steps that change the records -/

/-- Updating the last file of the vector. -/
theorem map_file_set (h : Rep log (X ++ [S])) (s : LogSegment) (S' : List Bytes)
    (hs : s.file = records.encAll S') :
    (log.segments.set log.activeSegmentIndex s).map LogSegment.file
      = (X ++ [S']).map records.encAll := by
  rw [List.map_set, h.files, h.active_eq, hs, List.map_append, List.map_append,
    List.set_append_right _ _ (by simp)]
  simp

/-- **Appending a record.** The record goes to the end of the last segment. -/
theorem appendRecord (h : Rep log (X ++ [S])) {m : Bytes} (hm : records.Valid m) :
    Rep (log.appendRecord m) (X ++ [S ++ [m]]) := by
  have hact := h.active_eq
  obtain ⟨hfile, hsize⟩ := h.segment_file
  have hpos : (log.activeSegment.append m).1 = (records.encAll S).length := by
    show (log.segment log.activeSegmentIndex).currentSize = _
    rw [hact, hsize, hfile]
  have hnew : (log.activeSegment.append m).2.file = records.encAll (S ++ [m]) := by
    rw [LogSegment.append_file, activeSegment, hact, hfile, Format.encAll_append]
    simp
  refine ⟨⟨h.map_file_set _ _ hnew, ?_, ?_, ?_, ?_⟩, ?_⟩
  · -- the written segment grows in memory as it does on disk
    intro s hs
    rcases List.mem_or_eq_of_mem_set hs with hs | rfl
    · exact h.sizes s hs
    · rw [LogSegment.append_file, List.length_append, LogSegment.length_enc]
      show log.activeSegment.currentSize + _ = _
      rw [activeSegment, hact, hsize]
  · exact valid_concat h.valid hm
  · show log.nextOffset + 1 = _
    rw [h.next, flatten_concat, List.length_append, List.length_singleton]
  · -- a checkpoint is added under the same condition on both sides
    show (if log.nextOffset % kIndexStride = 0 ∨ (log.activeSegment.append m).1 = 0 then _ else _)
      = _
    rw [indexFrom_concat_record, hpos, h.next, h.index, hact]
    split <;> simp
  · show log.activeSegmentIndex + 1 = (log.segments.set _ _).length
    rw [List.length_set, h.active]

/-- **Rolling over.** A new empty segment changes no record. -/
theorem rollOver (h : Rep log Ss) : Rep log.rollOver (Ss ++ [[]]) := by
  refine ⟨⟨?_, ?_, ?_, ?_, ?_⟩, ?_⟩
  · show (log.segments ++ [_]).map LogSegment.file = _
    rw [List.map_append, h.files]
    simp [LogSegment.reopen]
  · intro s hs
    have hs' : s ∈ log.segments ++ [LogSegment.reopen (segmentName log.segments.length) []] := hs
    rw [List.mem_append, List.mem_singleton] at hs'
    rcases hs' with hs' | rfl
    · exact h.sizes s hs'
    · rfl
  · intro S hS m hm
    rw [List.mem_append, List.mem_singleton] at hS
    rcases hS with hS | rfl
    · exact h.valid S hS m hm
    · exact absurd hm (by simp)
  · show log.nextOffset = _
    simp [h.next]
  · show log.index = _
    rw [indexFrom_concat_nil, h.index]
  · show log.segments.length + 1 = (log.segments ++ [_]).length
    simp

/-- Steps that touch neither the files nor the counters keep the invariant. -/
theorem of_eq (h : Rep log Ss) {log' : Log}
    (hfiles : log'.segments.map LogSegment.file = log.segments.map LogSegment.file)
    (hsizes : log'.segments.map LogSegment.currentSize = log.segments.map LogSegment.currentSize)
    (hact : log'.activeSegmentIndex = log.activeSegmentIndex)
    (hnext : log'.nextOffset = log.nextOffset) (hindex : log'.index = log.index) :
    Rep log' Ss := by
  have hlen : log'.segments.length = log.segments.length := by
    simpa using congrArg List.length hfiles
  refine ⟨⟨hfiles.trans h.files, ?_, h.valid, hnext.trans h.next, hindex.trans h.index⟩,
    by rw [hact, hlen, h.active]⟩
  -- a size and a file with the same position belong to the same segment
  intro s hs
  obtain ⟨i, hi, rfl⟩ := List.getElem_of_mem hs
  have hi' : i < log.segments.length := by omega
  have h₁ := congrArg (fun l => l[i]?) hfiles
  have h₂ := congrArg (fun l => l[i]?) hsizes
  simp only [List.getElem?_map, List.getElem?_eq_getElem hi, List.getElem?_eq_getElem hi',
    Option.map_some, Option.some.injEq] at h₁ h₂
  rw [h₁, h₂, h.sizes _ (List.getElem_mem hi')]

/-- Syncing the segments is such a step. -/
theorem map_sync (h : Rep log Ss) {log' : Log}
    (hsegments : log'.segments = log.segments.map LogSegment.sync)
    (hact : log'.activeSegmentIndex = log.activeSegmentIndex)
    (hnext : log'.nextOffset = log.nextOffset) (hindex : log'.index = log.index) :
    Rep log' Ss := by
  refine h.of_eq ?_ ?_ hact hnext hindex
  · rw [hsegments, map_map_sync _ (fun _ => rfl)]
  · rw [hsegments, map_map_sync _ (fun _ => rfl)]

end Rep

end Log

end StreamingPlatform
