import StreamingPlatform.Storage.LogInvariant
import Mathlib.Algebra.Order.BigOperators.Group.List

namespace StreamingPlatform

open ByteString

/-!
# Storage — a log behaves as a list of messages

The abstract log is a plain `List Bytes`: `append` answers with the length, `fetch`
with the element.  `Stores log ms` relates a byte-level log to its message list; every
operation of `Log` preserves it and answers as the list does, so any sequence of calls
on a fresh log is indistinguishable from the list (`run_eq_specRun`).
-/

open LogSegment (records)

namespace Log

/-! ### The checkpoint search -/

/-- On a list sorted by `f`, the last element of the `f · ≤ k` run is the largest one
    not above `k`. -/
theorem getLast?_takeWhile_le {α : Type} (f : α → Nat) (k : Nat) {l : List α}
    (hl : l.Pairwise (fun a b => f a < f b)) {a₀ : α} (ha₀ : a₀ ∈ l) (hk : f a₀ ≤ k) :
    ∃ a ∈ l, (l.takeWhile (fun a => decide (f a ≤ k))).getLast? = some a ∧ f a ≤ k ∧
      ∀ b ∈ l, f b ≤ k → f b ≤ f a := by
  induction l generalizing a₀ with
  | nil => exact absurd ha₀ (by simp)
  | cons x l ih =>
    rw [List.pairwise_cons] at hl
    obtain ⟨hx, hl'⟩ := hl
    have hxk : f x ≤ k := by
      rcases List.mem_cons.mp ha₀ with rfl | h
      · exact hk
      · exact le_trans (le_of_lt (hx a₀ h)) hk
    rw [List.takeWhile_cons_of_pos (by simpa using hxk)]
    by_cases hex : ∃ b ∈ l, f b ≤ k
    · obtain ⟨b, hb, hbk⟩ := hex
      obtain ⟨a, ha, hlast, hak, hmax⟩ := ih hl' hb hbk
      refine ⟨a, List.mem_cons_of_mem x ha, ?_, hak, ?_⟩
      · rw [List.getLast?_cons, hlast, Option.getD_some]
      · intro c hc hck
        rcases List.mem_cons.mp hc with rfl | hc
        · exact le_of_lt (hx a ha)
        · exact hmax c hc hck
    · -- nothing after `x` qualifies
      have hnil : l.takeWhile (fun a => decide (f a ≤ k)) = [] := by
        cases l with
        | nil => rfl
        | cons y l =>
          rw [List.takeWhile_cons_of_neg]
          simpa using fun h => hex ⟨y, by simp, h⟩
      refine ⟨x, by simp, by simp [hnil], hxk, ?_⟩
      intro c hc hck
      rcases List.mem_cons.mp hc with rfl | hc
      · exact le_refl _
      · exact absurd ⟨c, hc, hck⟩ hex

/-- A position in a flattened list, located in its segment. -/
theorem exists_of_lt_flatten {α : Type} {Ss : List (List α)} {k : Nat}
    (hk : k < Ss.flatten.length) :
    ∃ X A m B Y, Ss = X ++ (A ++ m :: B) :: Y ∧ k = X.flatten.length + A.length ∧
      Ss.flatten[k]? = some m := by
  induction Ss generalizing k with
  | nil => exact absurd hk (by simp)
  | cons S Ss ih =>
    rw [List.flatten_cons, List.length_append] at hk
    by_cases h : k < S.length
    · refine ⟨[], S.take k, S[k], S.drop (k + 1), Ss, ?_, ?_, ?_⟩
      · rw [List.nil_append, List.getElem_cons_drop, List.take_append_drop]
      · simp [Nat.min_eq_left (le_of_lt h)]
      · rw [List.flatten_cons, List.getElem?_append_left h, List.getElem?_eq_getElem h]
    · obtain ⟨X, A, m, B, Y, rfl, hk', hget⟩ := ih (k := k - S.length) (by omega)
      refine ⟨S :: X, A, m, B, Y, rfl, ?_, ?_⟩
      · rw [List.flatten_cons, List.length_append]; omega
      · rw [List.flatten_cons, List.getElem?_append_right (by omega), hget]

/-! ### Walking from a checkpoint -/

/-- The loop of `Log::fetch` together with the segments that it reads a record from, one
    entry for each read. -/
def fetchLoopTraced (log : Log) (offset : Nat) :
    Nat → Nat → Nat → Nat → List Nat × Except StdException Bytes
  | 0, _, _, _ => ([], .error (.outOfRange "invalid sparse index traversal"))
  | rounds + 1, currentOffset, segmentIndex, position =>
    match (log.segment segmentIndex).read position with
    | .error e => ([segmentIndex], .error e)
    | .ok record =>
      if currentOffset = offset then ([segmentIndex], .ok record)
      else
        let currentOffset := currentOffset + 1
        let position := position + (LogSegment.kLengthBytes + record.length)
        let atEnd := position = (log.segment segmentIndex).sizes ∧
          segmentIndex + 1 < log.segments.length
        let next := if atEnd then (segmentIndex + 1, 0) else (segmentIndex, position)
        if currentOffset > offset ∨ next.1 ≥ log.segments.length then
          ([segmentIndex], .error (.outOfRange "invalid sparse index traversal"))
        else
          let rest := fetchLoopTraced log offset rounds currentOffset next.1 next.2
          (segmentIndex :: rest.1, rest.2)

theorem fetchLoopTraced_snd (log : Log) (offset rounds currentOffset segmentIndex position : Nat) :
    (log.fetchLoopTraced offset rounds currentOffset segmentIndex position).2
      = log.fetchLoop offset rounds currentOffset segmentIndex position := by
  induction rounds generalizing currentOffset segmentIndex position with
  | zero => rfl
  | succ rounds ih =>
    rw [fetchLoopTraced, fetchLoop]
    cases (log.segment segmentIndex).read position with
    | error e => rfl
    | ok record =>
      dsimp only
      split
      · rfl
      · split
        · split
          · rfl
          · exact ih _ _ _
        · split
          · rfl
          · exact ih _ _ _

variable {m : Bytes}

namespace Rep

variable {log : Log} {X Y : List (List Bytes)} {A B : List Bytes}

/-- Reading where a record of a segment starts. -/
theorem read_eq (h : Rep log (X ++ (A ++ m :: B) :: Y)) :
    (log.segment X.length).read (records.encAll A).length = .ok m := by
  obtain ⟨hfile, hsize⟩ := h.segment_file
  have hvalid : ∀ r ∈ A ++ m :: B, records.Valid r := h.valid _ (by simp)
  exact LogSegment.read_record hsize (records.encAll B) (hvalid m (by simp)) (by rw [hfile]; simp)

/-- A record with another one behind it does not end its segment. -/
theorem position_ne_sizes {r : Bytes} (h : Rep log (X ++ (A ++ r :: m :: B) :: Y)) :
    ¬ (records.encAll A).length + (LogSegment.kLengthBytes + r.length)
      = (log.segment X.length).sizes := by
  obtain ⟨hfile, hsize⟩ := h.segment_file
  have hpos := records.enc_pos m
  rw [LogSegment.sizes, hsize, hfile]
  simp only [Format.encAll_append, Format.encAll_cons, List.length_append, LogSegment.length_enc]
    at hpos ⊢
  omega

/-- The walk from a record to a later one of the same segment returns the later one:
    between the two the position never reaches the end of the file, and every record is read
    from the segment. -/
theorem fetchLoopTraced_eq (ms : List Bytes) (h : Rep log (X ++ (A ++ ms ++ m :: B) :: Y)) :
    log.fetchLoopTraced (X.flatten.length + A.length + ms.length) (ms.length + 1)
        (X.flatten.length + A.length) X.length (records.encAll A).length
      = (List.replicate (ms.length + 1) X.length, .ok m) := by
  induction ms generalizing A with
  | nil =>
    have hread := (show Rep log (X ++ (A ++ m :: B) :: Y) by simpa using h).read_eq
    simp [fetchLoopTraced, hread]
  | cons r ms ih =>
    obtain ⟨r', B', hB'⟩ : ∃ r' B', ms ++ m :: B = r' :: B' :=
      List.exists_cons_of_ne_nil (by simp)
    have hrep : Rep log (X ++ (A ++ r :: r' :: B') :: Y) := by
      rw [← hB']
      simpa using h
    have hpos : (records.encAll A).length + (LogSegment.kLengthBytes + r.length)
        = (records.encAll (A ++ [r])).length := by
      simp [LogSegment.length_enc]
    have hsegs : X.length < log.segments.length := by
      rw [h.length_eq, List.length_append, List.length_cons]; omega
    -- the next round starts after `r`, with `r` among the records passed
    have hrec := @ih (A ++ [r]) (by simpa using h)
    have hoff : X.flatten.length + (A ++ [r]).length = X.flatten.length + A.length + 1 := by
      simp; omega
    have hgoal : X.flatten.length + A.length + (r :: ms).length
        = X.flatten.length + A.length + 1 + ms.length := by
      simp; omega
    rw [hoff, ← hpos] at hrec
    rw [hgoal, List.length_cons, fetchLoopTraced, hrep.read_eq]
    simp only [hrep.position_ne_sizes, false_and, if_false]
    rw [if_neg (by omega), if_neg (by omega), hrec]
    rfl

/-- The loop walks over `ms` and returns the record behind it. -/
theorem fetchLoop_eq (ms : List Bytes) (h : Rep log (X ++ (A ++ ms ++ m :: B) :: Y)) :
    log.fetchLoop (X.flatten.length + A.length + ms.length) (ms.length + 1)
      (X.flatten.length + A.length) X.length (records.encAll A).length = .ok m := by
  rw [← fetchLoopTraced_snd, h.fetchLoopTraced_eq]

/-- The checkpoint found for offset `k` lies in the segment that stores `k`. -/
theorem checkpoint_spec {Ss : List (List Bytes)} (h : Rep log Ss) {k : Nat}
    (hk : k < Ss.flatten.length) :
    ∃ X A ms m B Y, Ss = X ++ (A ++ ms ++ m :: B) :: Y ∧
      k = X.flatten.length + A.length + ms.length ∧ Ss.flatten[k]? = some m ∧
      log.checkpoint k
        = some ⟨X.flatten.length + A.length, X.length, (records.encAll A).length⟩ := by
  obtain ⟨X, A', m, B, Y, hSs, hkX, hget⟩ := exists_of_lt_flatten hk
  -- the segment of `k` starts with a checkpoint at or before `k` …
  have hstart : (⟨X.flatten.length, X.length, 0⟩ : LogIndexEntry) ∈ log.index := by
    rw [h.index, hSs]
    cases A' with
    | nil => simpa using start_mem_indexFrom 0 0 X Y m B
    | cons a A' => simpa using start_mem_indexFrom 0 0 X Y a (A' ++ m :: B)
  have hsorted : log.index.Pairwise (fun a b => a.offset < b.offset) := by
    rw [h.index]; exact indexFrom_sorted 0 0 Ss
  obtain ⟨e, he, hlast, hek, hmax⟩ :=
    getLast?_takeWhile_le LogIndexEntry.offset k hsorted hstart
      (by show X.flatten.length ≤ k; omega)
  have hlow : X.flatten.length ≤ e.offset := hmax _ hstart (by show X.flatten.length ≤ k; omega)
  rw [h.index] at he
  obtain ⟨X₁, A, m₁, B₁, Y₁, hSs₁, rfl⟩ := exists_of_mem_indexFrom he
  simp only [Nat.zero_add] at hlow hek hlast
  -- … so the last such checkpoint is in the same segment
  have hX : X₁ = X ∧ A ++ m₁ :: B₁ = A' ++ m :: B := by
    have heq : X₁ ++ (A ++ m₁ :: B₁) :: Y₁ = X ++ (A' ++ m :: B) :: Y := by rw [← hSs₁, hSs]
    rcases List.append_eq_append_iff.mp heq with ⟨Z, hZ, hZ'⟩ | ⟨Z, hZ, hZ'⟩
    · cases Z with
      | nil =>
        rw [List.append_nil] at hZ
        rw [List.nil_append, List.cons.injEq] at hZ'
        exact ⟨hZ.symm, hZ'.1⟩
      | cons T Z =>
        rw [List.cons_append, List.cons.injEq] at hZ'
        simp only [hZ, ← hZ'.1, List.flatten_append, List.flatten_cons, List.length_append,
          List.length_cons] at hlow
        omega
    · cases Z with
      | nil =>
        rw [List.append_nil] at hZ
        rw [List.nil_append, List.cons.injEq] at hZ'
        exact ⟨hZ, hZ'.1.symm⟩
      | cons T Z =>
        rw [List.cons_append, List.cons.injEq] at hZ'
        simp only [hZ, ← hZ'.1, List.flatten_append, List.flatten_cons, List.length_append,
          List.length_cons] at hek
        omega
  obtain ⟨rfl, hseg⟩ := hX
  -- `A` is the part of the segment before the checkpoint, a prefix of what precedes `k`
  have hpre : A <+: A' := by
    have hpre' : A <+: A' ++ m :: B := by
      rw [← hseg]
      exact List.prefix_append _ _
    exact List.prefix_of_prefix_length_le hpre' (List.prefix_append _ _) (by omega)
  obtain ⟨ms, rfl⟩ := hpre
  refine ⟨X₁, A, ms, m, B, Y, hSs, by rw [hkX, List.length_append]; omega, hget, ?_⟩
  rw [checkpoint]
  exact hlast

end Rep

/-! ### Operations and the list specification -/

/-- `fetch` on a list of messages. -/
def listFetch (ms : List Bytes) (k : Nat) : Except StdException Bytes :=
  match ms[k]? with
  | some m => .ok m
  | none => .error (.outOfRange "Invalid offset")

/-- **Fetch is list access.** Every other error branch of `fetch` is dead. -/
theorem Rep.fetch_eq {log : Log} {Ss : List (List Bytes)} (h : Rep log Ss) (k : Nat) :
    log.fetch k = listFetch Ss.flatten k := by
  unfold fetch listFetch
  by_cases hk : k < Ss.flatten.length
  · obtain ⟨X, A, ms, m, B, Y, rfl, rfl, hget, hcp⟩ := h.checkpoint_spec hk
    rw [if_neg (by rw [h.next]; omega), hcp, hget]
    simp only [Nat.add_sub_cancel_left]
    exact h.fetchLoop_eq ms
  · rw [if_pos (by rw [h.next]; omega), List.getElem?_eq_none (by omega)]

/-- `log` stores the messages `ms`, whatever the segments are. -/
def Stores (log : Log) (ms : List Bytes) : Prop := ∃ Ss, Rep log Ss ∧ Ss.flatten = ms

namespace Stores

variable {log : Log} {ms : List Bytes}

/-- A fetch reads the list. -/
theorem fetch_eq (h : log.Stores ms) (k : Nat) : log.fetch k = listFetch ms k := by
  obtain ⟨Ss, hrep, rfl⟩ := h
  exact hrep.fetch_eq k

theorem nextOffset_eq (h : log.Stores ms) : log.nextOffset = ms.length := by
  obtain ⟨Ss, hrep, rfl⟩ := h
  exact hrep.next

/-- An append adds to the list. -/
theorem appendRecord (h : log.Stores ms) (hm : records.Valid m) :
    (log.appendRecord m).Stores (ms ++ [m]) := by
  obtain ⟨Ss, hrep, rfl⟩ := h
  obtain ⟨X, S, rfl⟩ := hrep.exists_concat
  exact ⟨_, hrep.appendRecord hm, by simp⟩

theorem rollOver (h : log.Stores ms) : log.rollOver.Stores ms := by
  obtain ⟨Ss, hrep, rfl⟩ := h
  exact ⟨_, hrep.rollOver, by simp⟩

/-- Only the files, the index and the next offset matter. -/
theorem of_eq (h : log.Stores ms) {log' : Log}
    (hfiles : log'.segments.map LogSegment.file = log.segments.map LogSegment.file)
    (hsizes : log'.segments.map LogSegment.currentSize = log.segments.map LogSegment.currentSize)
    (hact : log'.activeSegmentIndex = log.activeSegmentIndex)
    (hnext : log'.nextOffset = log.nextOffset) (hindex : log'.index = log.index) :
    log'.Stores ms := by
  obtain ⟨Ss, hrep, rfl⟩ := h
  exact ⟨Ss, hrep.of_eq hfiles hsizes hact hnext hindex, rfl⟩

/-- Syncing the segments changes no message. -/
theorem map_sync (h : log.Stores ms) {log' : Log}
    (hsegments : log'.segments = log.segments.map LogSegment.sync)
    (hact : log'.activeSegmentIndex = log.activeSegmentIndex)
    (hnext : log'.nextOffset = log.nextOffset) (hindex : log'.index = log.index) :
    log'.Stores ms := by
  obtain ⟨Ss, hrep, rfl⟩ := h
  exact ⟨Ss, hrep.map_sync hsegments hact hnext hindex, rfl⟩

theorem syncPending (h : log.Stores ms) : log.syncPending.Stores ms :=
  h.map_sync rfl rfl rfl rfl

theorem flush (h : log.Stores ms) : log.flush.Stores ms := by
  unfold Log.flush
  split
  · exact h.syncPending
  · exact h

/-- `append` answers with the number of earlier appends and stores the message last. -/
theorem append (h : log.Stores ms) (hm : records.Valid m) :
    (log.append m).1 = ms.length ∧ (log.append m).2.Stores (ms ++ [m]) := by
  refine ⟨h.nextOffset_eq, ?_⟩
  have hwal : (log.writeWal log.nextOffset m).Stores ms := h.of_eq rfl rfl rfl rfl rfl
  have hrec := hwal.appendRecord hm
  rw [append_eq_settle]
  -- rolling over, counting the pending append and syncing keep the messages
  rcases settle_cases _ with ⟨-, heq | heq⟩ | ⟨-, heq | heq⟩ <;> rw [heq]
  · exact hrec.syncPending
  · exact hrec.rollOver.syncPending
  · exact hrec.of_eq rfl rfl rfl rfl rfl
  · exact hrec.rollOver.of_eq rfl rfl rfl rfl rfl

end Stores

/-- A log constructed on an empty directory has one empty segment. -/
theorem rep_construct_empty (maxSegmentSize syncBatchSize : Nat) :
    Rep (construct [] maxSegmentSize syncBatchSize) [[]] := by
  refine ⟨⟨rfl, ?_, ?_, rfl, rfl⟩, rfl⟩
  · intro s hs
    rw [show (construct [] maxSegmentSize syncBatchSize).segments
      = [LogSegment.reopen (segmentName 0) []] from rfl, List.mem_singleton] at hs
    subst hs
    rfl
  · intro S hS m hm
    rw [List.mem_singleton] at hS
    subst hS
    exact absurd hm (by simp)

/-- A new log is empty. -/
theorem construct_empty (maxSegmentSize syncBatchSize : Nat) :
    (construct [] maxSegmentSize syncBatchSize).Stores [] :=
  ⟨[[]], rep_construct_empty maxSegmentSize syncBatchSize, rfl⟩

/-- A call on a log. -/
inductive Op where
  | append (message : Bytes)
  | flush
  | fetch (offset : Nat)
  deriving DecidableEq, Repr

/-- What a call answers. -/
inductive Answer where
  | offset (o : Nat)
  | done
  | record (r : Except StdException Bytes)
  deriving DecidableEq

/-- Perform one call. -/
def perform (log : Log) : Op → Answer × Log
  | .append m => (.offset (log.append m).1, (log.append m).2)
  | .flush => (.done, log.flush)
  | .fetch k => (.record (log.fetch k), log)

/-- Perform a sequence of calls. -/
def run : Log → List Op → List Answer × Log
  | log, [] => ([], log)
  | log, op :: ops => ((log.perform op).1 :: (run (log.perform op).2 ops).1,
      (run (log.perform op).2 ops).2)

/-- The same call on a list of messages. -/
def specPerform (ms : List Bytes) : Op → Answer × List Bytes
  | .append m => (.offset ms.length, ms ++ [m])
  | .flush => (.done, ms)
  | .fetch k => (.record (listFetch ms k), ms)

/-- The same sequence of calls on a list of messages. -/
def specRun : List Bytes → List Op → List Answer × List Bytes
  | ms, [] => ([], ms)
  | ms, op :: ops => ((specPerform ms op).1 :: (specRun (specPerform ms op).2 ops).1,
      (specRun (specPerform ms op).2 ops).2)

/-- The bytes a call adds to the segment files. -/
def Op.bytes : Op → Nat
  | .append m => LogSegment.kLengthBytes + m.length
  | _ => 0

/-- Every appended message fits its length field. -/
def Op.Fits : Op → Prop
  | .append m => records.Valid m
  | _ => True

theorem Op.fits_of_bytes_lt {op : Op} (h : op.bytes < 2 ^ 63) : op.Fits := by
  cases op with
  | append m =>
    show m.length < 256 ^ 8
    have h' : LogSegment.kLengthBytes + m.length < 2 ^ 63 := h
    omega
  | flush => trivial
  | fetch k => trivial

/-- One call answers as the list does and keeps the relation to it. -/
theorem Stores.perform {log : Log} {ms : List Bytes} (h : log.Stores ms) {op : Op}
    (hop : op.Fits) :
    (log.perform op).1 = (specPerform ms op).1 ∧
      (log.perform op).2.Stores (specPerform ms op).2 := by
  cases op with
  | append m =>
    obtain ⟨hoff, hst⟩ := h.append hop
    exact ⟨congrArg Answer.offset hoff, hst⟩
  | flush => exact ⟨rfl, h.flush⟩
  | fetch k => exact ⟨congrArg Answer.record (h.fetch_eq k), h⟩

/-- A sequence of calls answers as the list does. -/
theorem Stores.run {log : Log} {ms : List Bytes} (h : log.Stores ms) {ops : List Op}
    (hops : ∀ op ∈ ops, op.Fits) :
    (log.run ops).1 = (specRun ms ops).1 ∧ (log.run ops).2.Stores (specRun ms ops).2 := by
  induction ops generalizing log ms with
  | nil => exact ⟨rfl, h⟩
  | cons op ops ih =>
    obtain ⟨hans, hst⟩ := h.perform (hops op (by simp))
    obtain ⟨hans', hst'⟩ := ih hst (fun o ho => hops o (by simp [ho]))
    refine ⟨?_, hst'⟩
    show (log.perform op).1 :: _ = (specPerform ms op).1 :: _
    rw [hans, hans']

/-- **Append/fetch refinement.** Whatever the segment size and the sync batch size, a
    sequence of calls on a log opened on an empty directory answers exactly as a plain
    list of messages does, as long as fewer than `2 ^ 63` bytes are written. -/
theorem run_eq_specRun (maxSegmentSize syncBatchSize : Nat) (ops : List Op)
    (hbytes : (ops.map Op.bytes).sum < 2 ^ 63) :
    ((construct [] maxSegmentSize syncBatchSize).run ops).1 = (specRun [] ops).1 := by
  refine ((construct_empty maxSegmentSize syncBatchSize).run (fun op hop => ?_)).1
  apply Op.fits_of_bytes_lt
  have hle : op.bytes ≤ (ops.map Op.bytes).sum :=
    List.single_le_sum (by simp) _ (List.mem_map_of_mem hop)
  omega

/-- A run over a segment boundary, with an empty message and an offset out of range. -/
theorem run_eq_specRun_two_segments :
    ((construct [] 9 1).run [.append [7], .append [], .flush, .fetch 1, .fetch 2]).1
      = [.offset 0, .offset 1, .done, .record (.ok []),
          .record (.error (.outOfRange "Invalid offset"))] := by
  rw [run_eq_specRun 9 1 _ (by decide)]
  rfl

end Log

end StreamingPlatform
