import StreamingPlatform.Storage.CleanLog

namespace StreamingPlatform

open ByteString

/-!
# Storage — appends that fail

`Log::append` throws when `write_wal` or `LogSegment::append` cannot write all of its output.
Nothing is rolled back: what reached the files stays there behind `current_size`, what was on
its way stays in the buffer of the stream, and the stream of the active segment stays in its
error state until the next `file.clear()`.

* `LogHandle` — a log together with the streams of its segments, and the calls on it;
* `LogHandle.Tolerates` — the left-overs do not get in the way of a call;
* `failed_appends_leave_no_trace` — in a run of calls, crashes and reopens that tolerates them,
  the failed appends change no answer;
* `failed_append_leaves_trace` — outside of it, they do.
-/

open LogSegment (records)

/-- Where an append fails, and how many bytes get `written` before.  A stream buffers short
    output, so a write can fail late: what `flush` writes is the record of an earlier append,
    and `write` is reached by messages only that are too long for the buffer.  Closing the WAL
    reports no error, so by then only `logged` bytes of a short entry may be in the file. -/
inductive WriteFailure where
  /-- The WAL cannot be opened. -/
  | walOpen
  /-- The message of a WAL entry is written through the buffer; the two numbers before it are
      still there, and `again` bytes of them are written once more when the file is closed. -/
  | wal (written again : Nat)
  /-- `seekp` cannot write what the buffer of the active segment holds. -/
  | flush (logged written : Nat)
  /-- The message is written through the buffer, with the length before it. -/
  | write (logged written : Nat)
  deriving DecidableEq, Repr

/-- What `append` throws; file names are relative to the directory of the log. -/
def WriteFailure.what : WriteFailure → StdException
  | .walOpen => .runtimeError "unable to open WAL: append.wal"
  | .wal _ _ => .runtimeError "unable to write WAL"
  | .flush _ _ => .runtimeError "log segment write failed"
  | .write _ _ => .runtimeError "log segment write failed"

/-- A segment without the last `n` bytes of its file. -/
def LogSegment.withoutLast (s : LogSegment) (n : Nat) : LogSegment :=
  { s with file := s.file.take (s.file.length - n) }

/-- The log with another file for its active segment; `current_size` is as before. -/
def Log.withFile (log : Log) (file : Bytes) : Log :=
  log.setSegment log.activeSegmentIndex { log.activeSegment with file := file }

/-- The log with more bytes in its WAL. -/
def Log.extendWal (log : Log) (bytes : Bytes) : Log := { log with wal := log.wal ++ bytes }

/-- Every record that is counted is in the files. -/
def Log.Intact (log : Log) : Prop := ∀ s ∈ log.segments, s.currentSize ≤ s.file.length

instance (log : Log) : Decidable log.Intact :=
  inferInstanceAs (Decidable (∀ s ∈ log.segments, s.currentSize ≤ s.file.length))

instance (log : Log) : Decidable log.BelowTen :=
  inferInstanceAs (Decidable (∀ s ∈ log.segments,
    s.file = [] ∨ ∃ n < 10, s.filePath = Log.segmentName n))

/-- A log and the streams of its segments.  The `file` of a segment is what a reader finds
    through its stream: the file on disk and behind it the contents of the buffer. -/
structure LogHandle where
  log : Log
  /-- How many bytes at the end of the file of a segment are still in the buffer. -/
  buffered : Nat → Nat
  /-- The value of `!file` of the active segment.  Every other stream is in a good state:
      `LogSegment::append` resets the stream before it writes, and only the active segment is
      written to. -/
  failed : Bool

namespace LogHandle

/-- `LogSegment::read`: `seekg` writes out the buffer.  A stream in an error state neither
    writes nor reads; it is reset before the exception. -/
def read (h : LogHandle) (segmentIndex position : Nat) : Except StdException Bytes × LogHandle :=
  let s := h.log.segment segmentIndex
  if s.currentSize < position ∨ s.currentSize - position < LogSegment.kLengthBytes then
    (.error (.outOfRange "invalid record position"), h)
  else if h.failed = true ∧ segmentIndex = h.log.activeSegmentIndex then
    (.error (.outOfRange "incomplete record"), { h with failed := false })
  else (s.read position, { h with buffered := Function.update h.buffered segmentIndex 0 })

/-- The loop of `Log::fetch`, as `Log.fetchLoop` with the streams passed along. -/
def fetchLoop (offset : Nat) :
    Nat → LogHandle → Nat → Nat → Nat → Except StdException Bytes × LogHandle
  | 0, h, _, _, _ => (.error (.outOfRange "invalid sparse index traversal"), h)
  | rounds + 1, h, currentOffset, segmentIndex, position =>
    match h.read segmentIndex position with
    | (.error e, h) => (.error e, h)
    | (.ok record, h) =>
      if currentOffset = offset then (.ok record, h)
      else
        let currentOffset := currentOffset + 1
        let position := position + (LogSegment.kLengthBytes + record.length)
        let atEnd := position = (h.log.segment segmentIndex).sizes ∧
          segmentIndex + 1 < h.log.segments.length
        let next := if atEnd then (segmentIndex + 1, 0) else (segmentIndex, position)
        if currentOffset > offset ∨ next.1 ≥ h.log.segments.length then
          (.error (.outOfRange "invalid sparse index traversal"), h)
        else fetchLoop offset rounds h currentOffset next.1 next.2

/-- `Log::fetch`. -/
def fetch (h : LogHandle) (offset : Nat) : Except StdException Bytes × LogHandle :=
  if offset ≥ h.log.nextOffset then (.error (.outOfRange "Invalid offset"), h)
  else
    match h.log.checkpoint offset with
    | none => (.error (.outOfRange "missing sparse index checkpoint"), h)
    | some e =>
      fetchLoop offset (offset - e.offset + 1) h e.offset e.segmentIndex e.bytePosition

/-- `Log::append` when a write fails: it throws before the index and the counters are
    updated. -/
def appendFails (h : LogHandle) (message : Bytes) (failure : WriteFailure) : LogHandle :=
  let entry := Log.walEntry h.log.nextOffset message
  match failure with
  | .walOpen => h
  | .wal written again =>
    { h with log := h.log.extendWal (entry.take written ++ entry.take (min again 16)) }
  | .flush logged written =>
    let file := h.log.activeSegment.file
    let onDisk := file.length - h.buffered h.log.activeSegmentIndex
    -- what was written stays in the buffer
    { h with
      log := (h.log.extendWal (entry.take logged)).withFile
        (file.take onDisk ++ ((file.drop onDisk).take written ++ file.drop onDisk))
      failed := true }
  | .write logged written =>
    let length := putLE LogSegment.kLengthBytes message.length
    -- the length stays in the buffer
    { log := (h.log.extendWal (entry.take logged)).withFile
        (h.log.activeSegment.file ++ ((length ++ message).take written ++ length))
      buffered := Function.update h.buffered h.log.activeSegmentIndex LogSegment.kLengthBytes
      failed := true }

/-- `Log::flush`: flushing a stream in an error state does nothing. -/
def flush (h : LogHandle) : LogHandle :=
  { h with
    log := h.log.flush
    buffered := fun i =>
      if h.log.pendingAppends > 0 ∧ ¬ (h.failed = true ∧ i = h.log.activeSegmentIndex) then 0
      else h.buffered i }

/-- Construct a log on a directory. -/
def construct (directory : List File) (maxSegmentSize syncBatchSize : Nat) : LogHandle :=
  ⟨Log.construct directory maxSegmentSize syncBatchSize, fun _ => 0, false⟩

/-- The log with the files as they are without the buffers. -/
def onDisk (h : LogHandle) : Log :=
  { h.log with segments := h.log.segments.mapIdx (fun i s => s.withoutLast (h.buffered i)) }

/-- The log with the files that the next log on the directory finds: a crash loses the
    buffers, the destruction of the log writes them out. -/
def files (h : LogHandle) (crash : Bool) : Log := if crash then h.onDisk else h.log

/-- What happens to a log.  After a `reopen` there is a new log on the same directory. -/
inductive Event where
  | append (message : Bytes)
  | appendFails (message : Bytes) (failure : WriteFailure)
  | fetch (offset : Nat)
  | flush
  | reopen (crash : Bool) (maxSegmentSize syncBatchSize : Nat)
  deriving DecidableEq, Repr

section Runs

-- which messages are kept in the buffer, by their length, is up to the library
variable (buffers : Nat → Bool)

/-- `Log::append` when both writes succeed. -/
def append (h : LogHandle) (message : Bytes) : Nat × LogHandle :=
  let log := (h.log.append message).2
  let record := if buffers message.length then LogSegment.kLengthBytes + message.length else 0
  ((h.log.append message).1,
    { log
      -- a sync of the batch leaves nothing pending
      buffered := if log.pendingAppends = 0 then fun _ => 0
        else Function.update h.buffered h.log.activeSegmentIndex record
      failed := false })

/-- Let one event happen: an answer or an exception of `append`. -/
def perform (h : LogHandle) : Event → Except StdException Log.Answer × LogHandle
  | .append m => (.ok (.offset (h.append buffers m).1), (h.append buffers m).2)
  | .appendFails m failure => (.error failure.what, h.appendFails m failure)
  | .fetch k => (.ok (.record (h.fetch k).1), (h.fetch k).2)
  | .flush => (.ok .done, h.flush)
  | .reopen crash maxSegmentSize syncBatchSize =>
    (.ok .done, construct (h.files crash).directory maxSegmentSize syncBatchSize)

/-- The answers of the calls that return, in a sequence of events. -/
def run : LogHandle → List Event → List Log.Answer
  | _, [] => []
  | h, e :: es =>
    match h.perform buffers e with
    | (.ok answer, h) => answer :: run h es
    | (.error _, h) => run h es

/-- The sequence of events meets `P` in the states it goes through. -/
def Along (P : LogHandle → Event → Prop) : LogHandle → List Event → Prop
  | _, [] => True
  | h, e :: es => P h e ∧ Along P (h.perform buffers e).2 es

end Runs

/-- Every event but a failed append. -/
def Event.completes : Event → Bool
  | .appendFails _ _ => false
  | _ => true

/-- The sizes of a message and of a sync batch are 64-bit numbers. -/
def Event.Fits : Event → Prop
  | .append m => m.length < 2 ^ 64
  | .reopen _ _ syncBatchSize => syncBatchSize < 2 ^ 64
  | _ => True

instance : (e : Event) → Decidable e.Fits
  | .append m => inferInstanceAs (Decidable (m.length < 2 ^ 64))
  | .reopen _ _ syncBatchSize => inferInstanceAs (Decidable (syncBatchSize < 2 ^ 64))
  | .appendFails _ _ => .isTrue trivial
  | .fetch _ => .isTrue trivial
  | .flush => .isTrue trivial

/-- The record of an offset is in the active segment. -/
def inActiveSegment (log : Log) (offset : Nat) : Bool :=
  decide (offset < log.nextOffset) &&
    (log.checkpoint offset).any (fun e => e.segmentIndex == log.activeSegmentIndex)

/-- A reopen meets `P`, with the kind of its reopening. -/
def AtReopen (P : LogHandle → Bool → Prop) (h : LogHandle) : Event → Prop
  | .reopen crash _ _ => P h crash
  | _ => True

instance (P : LogHandle → Bool → Prop) [∀ h crash, Decidable (P h crash)] (h : LogHandle) :
    (e : Event) → Decidable (AtReopen P h e)
  | .reopen crash _ _ => inferInstanceAs (Decidable (P h crash))
  | .append _ => .isTrue trivial
  | .appendFails _ _ => .isTrue trivial
  | .fetch _ => .isTrue trivial
  | .flush => .isTrue trivial

/-- A reopen finds the files intact: no record that is counted was in a buffer that a crash
    has lost. -/
abbrev IntactAtReopen : LogHandle → Event → Prop :=
  AtReopen (fun h crash => (h.files crash).Intact)

/-- At a reopen, every segment file with contents is numbered below ten. -/
abbrev SmallAtReopen : LogHandle → Event → Prop := AtReopen (fun h _ => h.log.BelowTen)

/-- **The left-overs are not in the way.**
    * An append finds no bytes behind `current_size` in the active segment.
    * A fetch does not read the active segment while its stream is in an error state.
    * A reopen finds intact files, no complete record in the bytes behind `current_size`, and
      no entry with the next offset in the WAL.
    * A failed append does not tear a record that is counted and still in the buffer. -/
def Tolerates (h : LogHandle) : Event → Prop
  | .append _ => h.log.activeSegment.file.length = h.log.activeSegment.currentSize
  | .fetch k => h.failed = true → inActiveSegment h.log k = false
  | .reopen crash _ _ =>
    let log := h.files crash
    log.Intact ∧ records.scan (log.activeSegment.file.drop log.activeSegment.currentSize) = [] ∧
      Log.Stale log.wal log.nextOffset
  | .appendFails _ (.flush _ written) =>
    written = 0 ∨ h.log.activeSegment.currentSize
      ≤ h.log.activeSegment.file.length - h.buffered h.log.activeSegmentIndex
  | .appendFails _ _ => True
  | .flush => True

instance (h : LogHandle) : (e : Event) → Decidable (h.Tolerates e)
  | .append _ => inferInstanceAs (Decidable (_ = _))
  | .fetch _ => inferInstanceAs (Decidable (_ → _))
  | .reopen _ _ _ => inferInstanceAs (Decidable (_ ∧ _ ∧ _))
  | .appendFails _ (.flush _ _) => inferInstanceAs (Decidable (_ ∨ _))
  | .appendFails _ .walOpen => .isTrue trivial
  | .appendFails _ (.wal _ _) => .isTrue trivial
  | .appendFails _ (.write _ _) => .isTrue trivial
  | .flush => .isTrue trivial

instance (buffers : Nat → Bool) (P : LogHandle → Event → Prop) [∀ h e, Decidable (P h e)]
    (h : LogHandle) : (es : List Event) → Decidable (h.Along buffers P es)
  | [] => .isTrue trivial
  | e :: es =>
    have := instDecidableAlong buffers P (h.perform buffers e).2 es
    inferInstanceAs (Decidable (P h e ∧ Along buffers P (h.perform buffers e).2 es))

/-- The events that return, on a list of messages: appends answer with the number of messages
    so far, fetches with the message whose append answered with that offset. -/
def specAnswers : List Bytes → List Event → List Log.Answer
  | _, [] => []
  | ms, .append m :: es => .offset ms.length :: specAnswers (ms ++ [m]) es
  | ms, .fetch k :: es => .record (Log.listFetch ms k) :: specAnswers ms es
  | ms, .flush :: es => .done :: specAnswers ms es
  | ms, .reopen _ _ _ :: es => .done :: specAnswers ms es
  | ms, .appendFails _ _ :: es => specAnswers ms es

end LogHandle

/-! ### What failed appends leave behind -/

/-- Bytes behind `current_size` are not read. -/
theorem LogSegment.read_tail {s : LogSegment} (hs : s.currentSize = s.file.length) (tail : Bytes)
    (synced position : Nat) :
    LogSegment.read { s with file := s.file ++ tail, synced := synced } position
      = s.read position := by
  simp only [LogSegment.read]
  by_cases hpos : s.currentSize < position ∨ s.currentSize - position < kLengthBytes
  · rw [if_pos hpos, if_pos hpos]
  · have hle : position + kLengthBytes ≤ s.file.length := by
      simp only [not_or, Nat.not_lt, kLengthBytes] at hpos ⊢
      omega
    have hheader : ((s.file ++ tail).drop position).take kLengthBytes
        = (s.file.drop position).take kLengthBytes := by
      rw [List.drop_append_of_le_length (by omega),
        List.take_append_of_le_length (by rw [List.length_drop]; omega)]
    rw [if_neg hpos, if_neg hpos, hheader]
    generalize (s.file.drop position).take kLengthBytes = header
    by_cases hlen : header.length < kLengthBytes ∨
        s.currentSize - position - kLengthBytes < valueLE header
    · rw [if_pos hlen, if_pos hlen]
    · -- the whole message lies before the tail
      have hmessage : ((s.file ++ tail).drop (position + kLengthBytes)).take (valueLE header)
          = (s.file.drop (position + kLengthBytes)).take (valueLE header) := by
        rw [List.drop_append_of_le_length hle,
          List.take_append_of_le_length (by rw [List.length_drop]; omega)]
      rw [if_neg hlen, if_neg hlen, hmessage]

/-- A cut that keeps `xs` takes bytes from `ys` only. -/
theorem LogSegment.withoutLast_append {s : LogSegment} {xs ys : Bytes} {n : Nat}
    (hfile : s.file = xs ++ ys) (hsize : s.currentSize = xs.length)
    (h : s.currentSize ≤ (s.withoutLast n).file.length) :
    s.withoutLast n = { s with file := xs ++ ys.take (s.file.length - n - xs.length) } := by
  have hle : xs.length ≤ s.file.length - n := by
    rw [hsize, withoutLast, List.length_take] at h
    omega
  rw [withoutLast, hfile, List.take_append, ← hfile, List.take_of_length_le hle]

/-- A flush that fails repeats a part of what is behind `xs`. -/
theorem take_append_repeat {xs : Bytes} (ys : Bytes) {n written : Nat}
    (h : written = 0 ∨ xs.length ≤ n) :
    ∃ zs, ys.length ≤ zs.length ∧ (xs ++ ys).take n ++
      (((xs ++ ys).drop n).take written ++ (xs ++ ys).drop n) = xs ++ zs := by
  rcases h with rfl | h
  · exact ⟨ys, le_rfl, by rw [List.take_zero, List.nil_append, List.take_append_drop]⟩
  · refine ⟨ys.take (n - xs.length) ++ ((ys.drop (n - xs.length)).take written ++
      ys.drop (n - xs.length)), ?_, ?_⟩
    · simp only [List.length_append, List.length_take, List.length_drop]
      omega
    · rw [List.take_append, List.drop_append, List.take_of_length_le h,
        List.drop_eq_nil_of_le h, List.nil_append, List.append_assoc]

variable {wal tail : Bytes} {synced : Nat}

namespace Log

/-- The active segment with `tail` behind its records, `synced` bytes of it on stable storage. -/
def tailed (log : Log) (tail : Bytes) (synced : Nat) : LogSegment :=
  { log.activeSegment with
    file := log.activeSegment.file ++ tail
    synced := log.activeSegment.synced + synced }

/-- The log with `tail` in its active segment, and another WAL. -/
def disturbed (log : Log) (tail : Bytes) (synced : Nat) (wal : Bytes) : Log :=
  { log with
    segments := log.segments.set log.activeSegmentIndex (log.tailed tail synced)
    wal := wal }

/-- `log'` is `log` but for what failed appends left behind. -/
def Disturbed (log log' : Log) : Prop :=
  ∃ tail synced wal, synced ≤ tail.length ∧ log' = log.disturbed tail synced wal

/-- Without a tail only the WAL differs. -/
theorem disturbed_nil (log : Log) (wal : Bytes) :
    log.disturbed [] 0 wal = { log with wal := wal } := by
  have hset : log.segments.set log.activeSegmentIndex (log.tailed [] 0) = log.segments := by
    rw [tailed, List.append_nil, Nat.add_zero]
    show log.segments.set log.activeSegmentIndex log.activeSegment = log.segments
    by_cases hi : log.activeSegmentIndex < log.segments.length
    · rw [activeSegment, segment_eq_getElem hi, List.set_getElem_self]
    · exact List.set_eq_of_length_le (by omega)
  unfold disturbed
  rw [hset]

/-- A log is its own disturbance. -/
theorem disturbed_self (log : Log) : log = log.disturbed [] 0 log.wal :=
  (log.disturbed_nil log.wal).symm

theorem Disturbed.refl (log : Log) : log.Disturbed log :=
  ⟨[], 0, log.wal, Nat.le_refl 0, log.disturbed_self⟩

section

variable {log : Log} {Ss : List (List Bytes)}

theorem Rep.active_lt (h : Rep log Ss) : log.activeSegmentIndex < log.segments.length := by
  have := h.active
  omega

theorem Rep.activeSegment_size (h : Rep log Ss) :
    log.activeSegment.currentSize = log.activeSegment.file.length := by
  rw [activeSegment, segment_eq_getElem h.active_lt]
  exact h.sizes _ (List.getElem_mem h.active_lt)

/-- The tail is in the active segment. -/
theorem activeSegment_disturbed (h : Rep log Ss) (tail : Bytes) (synced : Nat) (wal : Bytes) :
    (log.disturbed tail synced wal).activeSegment = log.tailed tail synced := by
  have hlt : log.activeSegmentIndex < (log.disturbed tail synced wal).segments.length := by
    show _ < (log.segments.set _ _).length
    rw [List.length_set]
    exact h.active_lt
  show (log.disturbed tail synced wal).segment log.activeSegmentIndex = _
  rw [segment_eq_getElem hlt]
  exact List.getElem_set_self _

/-- The other segments have none. -/
theorem segment_disturbed_of_ne {i : Nat} (hi : i ≠ log.activeSegmentIndex) (tail : Bytes)
    (synced : Nat) (wal : Bytes) :
    (log.disturbed tail synced wal).segment i = log.segment i := by
  show (log.segments.set _ _).getD i _ = log.segments.getD i _
  rw [List.getD_eq_getElem?_getD, List.getD_eq_getElem?_getD, List.getElem?_set_ne (Ne.symm hi)]

/-- A segment of the disturbed log reads as before. -/
theorem read_disturbed (h : Rep log Ss) (tail : Bytes) (synced : Nat) (wal : Bytes)
    (i position : Nat) :
    ((log.disturbed tail synced wal).segment i).read position = (log.segment i).read position ∧
      ((log.disturbed tail synced wal).segment i).sizes = (log.segment i).sizes := by
  by_cases hi : i = log.activeSegmentIndex
  · have hactive : (log.disturbed tail synced wal).segment log.activeSegmentIndex = _ :=
      activeSegment_disturbed h tail synced wal
    rw [hi, hactive]
    exact ⟨LogSegment.read_tail h.activeSegment_size tail _ position, rfl⟩
  · rw [segment_disturbed_of_ne hi]
    exact ⟨rfl, rfl⟩

/-- Another tail in the place of the first, and more bytes in the WAL. -/
theorem disturbed_withFile (h : Rep log Ss) {tail' file : Bytes} (wal bytes : Bytes)
    (hle : synced ≤ tail'.length) (hfile : file = log.activeSegment.file ++ tail') :
    log.Disturbed (((log.disturbed tail synced wal).extendWal bytes).withFile file) := by
  refine ⟨tail', synced, wal ++ bytes, hle, ?_⟩
  have hactive : ((log.disturbed tail synced wal).extendWal bytes).activeSegment
      = log.tailed tail synced := activeSegment_disturbed h tail synced wal
  rw [withFile, hactive, hfile]
  simp only [disturbed, extendWal, tailed, setSegment, List.set_set]

/-- The bytes behind `current_size`. -/
theorem drop_disturbed (h : Rep log Ss) (tail : Bytes) (synced : Nat) (wal : Bytes) :
    (log.disturbed tail synced wal).activeSegment.file.drop
      (log.disturbed tail synced wal).activeSegment.currentSize = tail := by
  rw [activeSegment_disturbed h]
  exact List.drop_left' h.activeSegment_size.symm

theorem settle_withWal (log : Log) (wal : Bytes) :
    ∃ wal', settle { log with wal := wal } = { log.settle with wal := wal' } := by
  have hactive : Log.activeSegment { log with wal := wal } = log.activeSegment := rfl
  by_cases hfull : log.activeSegment.sizes ≥ log.maxSegmentSize <;>
    by_cases hbatch : log.pendingAppends + 1 ≥ log.syncBatchSize
  · simp only [settle, hactive, if_pos hfull, rollOver, if_pos hbatch]
    exact ⟨[], rfl⟩
  · simp only [settle, hactive, if_pos hfull, rollOver, if_neg hbatch]
    exact ⟨wal, rfl⟩
  · simp only [settle, hactive, if_neg hfull, if_pos hbatch]
    exact ⟨[], rfl⟩
  · simp only [settle, hactive, if_neg hfull, if_neg hbatch]
    exact ⟨wal, rfl⟩

/-- `append` writes to the WAL but reads nothing from it. -/
theorem append_withWal (log : Log) (wal m : Bytes) :
    ∃ wal', Log.append { log with wal := wal } m
      = ((log.append m).1, { (log.append m).2 with wal := wal' }) := by
  obtain ⟨wal', heq⟩ := settle_withWal ((log.writeWal log.nextOffset m).appendRecord m)
    (wal ++ walEntry log.nextOffset m)
  exact ⟨wal', congrArg (Prod.mk log.nextOffset) heq⟩

/-- A successful append on a log without a tail. -/
theorem Disturbed.append {log' : Log} (h : Rep log Ss) (hd : log.Disturbed log')
    (htail : log'.activeSegment.file.length = log'.activeSegment.currentSize) (m : Bytes) :
    (log'.append m).1 = (log.append m).1 ∧ (log.append m).2.Disturbed (log'.append m).2 := by
  obtain ⟨tail, synced, wal, hle, rfl⟩ := hd
  obtain rfl : tail = [] := by
    rw [← drop_disturbed h tail synced wal, ← htail, List.drop_length]
  obtain rfl : synced = 0 := Nat.le_zero.mp hle
  rw [disturbed_nil]
  obtain ⟨wal', heq⟩ := append_withWal log wal m
  rw [heq]
  exact ⟨rfl, [], 0, wal', Nat.le_refl 0, (disturbed_nil _ _).symm⟩

/-- A flush syncs the tail too. -/
theorem Disturbed.flush {log' : Log} (h : Rep log Ss) (hd : log.Disturbed log') :
    log.flush.Disturbed log'.flush := by
  obtain ⟨tail, synced, wal, hle, rfl⟩ := hd
  unfold Log.flush
  by_cases hpending : log.pendingAppends > 0
  · rw [if_pos hpending, if_pos (show (log.disturbed tail synced wal).pendingAppends > 0 from
      hpending)]
    refine ⟨tail, tail.length, [], le_rfl, ?_⟩
    have hactive : log.syncPending.activeSegment = log.activeSegment.sync := by
      have hlt : log.activeSegmentIndex < log.syncPending.segments.length := by
        show _ < (log.segments.map _).length
        rw [List.length_map]
        exact h.active_lt
      show log.syncPending.segment log.activeSegmentIndex = _
      rw [segment_eq_getElem hlt, activeSegment, segment_eq_getElem h.active_lt]
      exact List.getElem_map _
    unfold disturbed tailed
    rw [hactive]
    simp only [syncPending, List.map_set, LogSegment.sync, List.length_append]
  · rw [if_neg hpending, if_neg (show ¬ (log.disturbed tail synced wal).pendingAppends > 0 from
      hpending)]
    exact ⟨tail, synced, wal, hle, rfl⟩

end

/-! ### Reopening -/

/-- The files of a disturbed log, as loading sees them. -/
theorem visited_disturbed {log : Log} {Ss : List (List Bytes)} (h : Rep log Ss)
    (htail : records.scan tail = []) (synced : Nat) (wal : Bytes) :
    (log.disturbed tail synced wal).segmentFiles.map File.visited
      = log.segmentFiles.map File.visited := by
  rw [segmentFiles, segmentFiles, List.map_map, List.map_map]
  refine map_set_segment (fun s => File.visited ⟨s.filePath, s.file⟩) log _ _ ?_
  obtain ⟨X, S, rfl⟩ := h.exists_concat
  have hfile : (log.segment log.activeSegmentIndex).file = records.encAll S := by
    rw [h.active_eq]
    exact h.segment_file.1
  have hvalid := h.valid S (by simp)
  have hscan := records.scan_encAll_append S hvalid
  show (_, records.scan ((log.segment log.activeSegmentIndex).file ++ tail))
    = (_, records.scan (log.segment log.activeSegmentIndex).file)
  rw [hfile, hscan, htail, List.append_nil, records.scan_encAll S hvalid]
  rfl

/-- **A reopen forgets the left-overs.** -/
theorem construct_disturbed {log : Log} (h : log.Clean) (htail : records.scan tail = [])
    (synced : Nat) (hstale : Stale wal log.nextOffset) (maxSegmentSize syncBatchSize : Nat) :
    construct (log.disturbed tail synced wal).directory maxSegmentSize syncBatchSize
      = construct log.directory maxSegmentSize syncBatchSize := by
  obtain ⟨Ss, hrep⟩ := h.stored
  have hnamed : (log.disturbed tail synced wal).Named :=
    named_of_filePaths h.named (map_set_segment LogSegment.filePath log _ _ rfl)
  have hpaths : (segmentPaths (log.disturbed tail synced wal).directory).map File.visited
      = (segmentPaths log.directory).map File.visited := by
    rw [hnamed.visited_segmentPaths, h.named.visited_segmentPaths,
      visited_disturbed hrep htail synced wal]
  have hcount : ((segmentPaths (log.disturbed tail synced wal).directory).flatMap
      (fun f => records.scan f.contents)).length = log.nextOffset := by
    have hflat := congrArg (List.flatMap Prod.snd) hpaths
    rw [List.flatMap_map, List.flatMap_map] at hflat
    exact (congrArg List.length hflat).trans h.length_scan
  rw [construct, construct, hnamed.walContents_directory, h.named.walContents_directory]
  refine constructFrom_congr maxSegmentSize syncBatchSize hpaths ?_ ?_
  · rw [hcount]
    exact hstale
  · rw [h.length_scan]
    exact h.stale

end Log

namespace LogHandle

open Log

/-- **A crash with intact files** takes nothing but a part of the left-overs. -/
theorem onDisk_eq {log : Log} {Ss : List (List Bytes)} {h : LogHandle} (hrep : Rep log Ss)
    (hlog : h.log = log.disturbed tail synced wal) (hintact : h.onDisk.Intact) :
    ∃ n, h.onDisk = log.disturbed (tail.take n) synced wal := by
  obtain ⟨log', buffered, failed⟩ := h
  obtain rfl : log' = log.disturbed tail synced wal := hlog
  suffices hsegments : (log.segments.set log.activeSegmentIndex (log.tailed tail synced)).mapIdx
      (fun i s => s.withoutLast (buffered i))
        = log.segments.set log.activeSegmentIndex (log.tailed (tail.take
          ((log.tailed tail synced).file.length - buffered log.activeSegmentIndex
            - log.activeSegment.file.length)) synced) from
    ⟨_, congrArg (fun segments => { log with segments := segments, wal := wal }) hsegments⟩
  refine List.ext_getElem (by simp) (fun i hi hi' => ?_)
  have hkept := hintact _ (List.getElem_mem hi)
  rw [List.getElem_mapIdx] at hkept ⊢
  by_cases hactive : log.activeSegmentIndex = i
  · subst hactive
    simp only [List.getElem_set_self] at hkept ⊢
    exact LogSegment.withoutLast_append rfl hrep.activeSegment_size hkept
  · simp only [List.getElem_set_ne hactive] at hkept ⊢
    have hsize := hrep.sizes _ (List.getElem_mem (by simpa using hi'))
    have hsame := LogSegment.withoutLast_append (List.append_nil _).symm hsize hkept
    rwa [List.take_nil, List.append_nil] at hsame

/-- Both kinds of reopen. -/
theorem files_eq {log : Log} {Ss : List (List Bytes)} {h : LogHandle} (hrep : Rep log Ss)
    (hlog : h.log = log.disturbed tail synced wal) {crash : Bool}
    (hintact : (h.files crash).Intact) :
    ∃ n, h.files crash = log.disturbed (tail.take n) synced wal := by
  cases crash with
  | true => exact onDisk_eq hrep hlog hintact
  | false => exact ⟨tail.length, hlog.trans (by rw [List.take_length])⟩

/-- A failed append adds to the left-overs. -/
theorem disturbed_appendFails {log : Log} {Ss : List (List Bytes)} {h : LogHandle} {m : Bytes}
    {failure : WriteFailure} (hrep : Rep log Ss) (hd : log.Disturbed h.log)
    (htol : h.Tolerates (.appendFails m failure)) :
    log.Disturbed (h.appendFails m failure).log := by
  obtain ⟨log', buffered, failed⟩ := h
  obtain ⟨tail, synced, wal, hle, rfl⟩ : log.Disturbed log' := hd
  have hfile : (log.disturbed tail synced wal).activeSegment.file
      = log.activeSegment.file ++ tail := by
    rw [activeSegment_disturbed hrep]
    rfl
  have hsize : (log.disturbed tail synced wal).activeSegment.currentSize
      = log.activeSegment.file.length := by
    rw [activeSegment_disturbed hrep]
    exact hrep.activeSegment_size
  cases failure with
  | walOpen => exact ⟨tail, synced, wal, hle, rfl⟩
  | wal written again => exact ⟨tail, synced, _, hle, rfl⟩
  | flush logged written =>
    have hkept : written = 0 ∨ (log.disturbed tail synced wal).activeSegment.currentSize
        ≤ (log.disturbed tail synced wal).activeSegment.file.length
          - buffered log.activeSegmentIndex := htol
    rw [hsize, hfile] at hkept
    obtain ⟨tail', hle', heq⟩ := take_append_repeat tail hkept
    rw [← hfile] at heq
    exact disturbed_withFile hrep wal _ (hle.trans hle') heq
  | write logged written =>
    refine disturbed_withFile hrep wal _ ?_ ((congrArg (· ++ _) hfile).trans (List.append_assoc ..))
    rw [List.length_append]
    omega

/-! ### Fetching -/

/-- A good stream, or one of another segment, reads what is in the file. -/
theorem read_eq {h : LogHandle} {i : Nat} (position : Nat)
    (hok : h.failed = true → i ≠ h.log.activeSegmentIndex) :
    ∃ buffered, h.read i position
      = ((h.log.segment i).read position, { h with buffered := buffered }) := by
  unfold LogHandle.read
  dsimp only
  by_cases hpos : (h.log.segment i).currentSize < position ∨
      (h.log.segment i).currentSize - position < LogSegment.kLengthBytes
  · -- `LogSegment.read` makes the same check first
    refine ⟨h.buffered, ?_⟩
    rw [if_pos hpos, LogSegment.read, if_pos hpos]
  · exact ⟨_, by rw [if_neg hpos, if_neg (fun hbad => hok hbad.1 hbad.2)]⟩

section

variable {log : Log} {h : LogHandle}

/-- The walk reads the segment it starts in. -/
theorem mem_fetchLoopTraced (offset rounds currentOffset segmentIndex position : Nat) :
    segmentIndex
      ∈ (log.fetchLoopTraced offset (rounds + 1) currentOffset segmentIndex position).1 := by
  rw [fetchLoopTraced]
  cases (log.segment segmentIndex).read position with
  | error e => exact List.mem_singleton_self _
  | ok record => dsimp only; split_ifs <;> exact List.mem_cons_self

/-- The walk through segments that read as those of `log`, around the stream in an error
    state. -/
theorem fetchLoop_eq_traced
    (halike : ∀ i position, (h.log.segment i).read position = (log.segment i).read position ∧
      (h.log.segment i).sizes = (log.segment i).sizes)
    (hlen : h.log.segments.length = log.segments.length)
    (offset rounds currentOffset segmentIndex position : Nat)
    (hok : h.failed = true → h.log.activeSegmentIndex
      ∉ (log.fetchLoopTraced offset rounds currentOffset segmentIndex position).1) :
    ∃ buffered, h.fetchLoop offset rounds currentOffset segmentIndex position
      = ((log.fetchLoopTraced offset rounds currentOffset segmentIndex position).2,
          { h with buffered := buffered }) := by
  induction rounds generalizing h currentOffset segmentIndex position with
  | zero => exact ⟨h.buffered, rfl⟩
  | succ rounds ih =>
    have hother : h.failed = true → segmentIndex ≠ h.log.activeSegmentIndex := by
      rintro hfailed rfl
      exact hok hfailed (mem_fetchLoopTraced ..)
    obtain ⟨buffered, hread⟩ := read_eq position hother
    rw [fetchLoop, hread, (halike segmentIndex position).1]
    rw [fetchLoopTraced] at hok ⊢
    cases hrecord : (log.segment segmentIndex).read position with
    | error e => exact ⟨buffered, rfl⟩
    | ok record =>
      rw [hrecord] at hok
      dsimp only at hok ⊢
      rw [(halike segmentIndex position).2, hlen]
      by_cases hfound : currentOffset = offset
      · rw [if_pos hfound, if_pos hfound]
        exact ⟨buffered, rfl⟩
      · rw [if_neg hfound] at hok ⊢
        rw [if_neg hfound]
        -- the two walks take the same next step
        generalize (if position + (LogSegment.kLengthBytes + record.length)
            = (log.segment segmentIndex).sizes ∧ segmentIndex + 1 < log.segments.length
          then (segmentIndex + 1, 0)
          else (segmentIndex, position + (LogSegment.kLengthBytes + record.length))) = next
          at hok ⊢
        by_cases hend : currentOffset + 1 > offset ∨ next.1 ≥ log.segments.length
        · rw [if_pos hend, if_pos hend]
          exact ⟨buffered, rfl⟩
        · rw [if_neg hend] at hok ⊢
          rw [if_neg hend]
          exact @ih { h with buffered := buffered } halike hlen _ _ _
            (fun hfailed hmem => hok hfailed (List.mem_cons_of_mem _ hmem))

/-- **Fetching around the left-overs.** -/
theorem fetch_eq {Ss : List (List Bytes)} (hrep : Rep log Ss) (hd : log.Disturbed h.log) (k : Nat)
    (hok : h.failed = true → inActiveSegment h.log k = false) :
    ∃ buffered, h.fetch k = (listFetch Ss.flatten k, { h with buffered := buffered }) := by
  obtain ⟨log', buffered, failed⟩ := h
  obtain ⟨tail, synced, wal, hle, rfl⟩ : log.Disturbed log' := hd
  have hnext : (log.disturbed tail synced wal).nextOffset = Ss.flatten.length := hrep.next
  have hcheckpoint : (log.disturbed tail synced wal).checkpoint k = log.checkpoint k := rfl
  have hactive : (log.disturbed tail synced wal).activeSegmentIndex = log.activeSegmentIndex := rfl
  unfold LogHandle.fetch listFetch
  by_cases hk : k < Ss.flatten.length
  · obtain ⟨X, A, ms, m, B, Y, rfl, rfl, hget, hcp⟩ := hrep.checkpoint_spec hk
    have hwalk := hrep.fetchLoopTraced_eq ms
    have hother : failed = true → log.activeSegmentIndex
        ∉ List.replicate (ms.length + 1) X.length := by
      intro hfailed hmem
      have hin := hok hfailed
      rw [inActiveSegment, hcheckpoint, hactive, hcp, hnext, decide_eq_true hk] at hin
      have hX : X.length = log.activeSegmentIndex := (List.mem_replicate.mp hmem).2.symm
      exact absurd hin (by simpa using hX)
    rw [if_neg (by dsimp only; omega), hcheckpoint, hcp, hget]
    simp only [Nat.add_sub_cancel_left]
    obtain ⟨buffered', heq⟩ := @fetchLoop_eq_traced log
      ⟨log.disturbed tail synced wal, buffered, failed⟩ (read_disturbed hrep tail synced wal)
      List.length_set _ _ _ _ _ (by rw [hwalk]; exact hother)
    rw [hwalk] at heq
    exact ⟨buffered', heq⟩
  · rw [if_pos (by dsimp only; omega), List.getElem?_eq_none (by omega)]
    exact ⟨buffered, rfl⟩

end

/-! ### Runs -/

/-- A handle without left-overs. -/
def Good (g : LogHandle) : Prop := g.log.Clean ∧ g.failed = false

/-- `h` is `g` but for what failed appends left behind. -/
def Trails (g h : LogHandle) : Prop := g.Good ∧ g.log.Disturbed h.log

section

variable (buffers : Nat → Bool) {g h : LogHandle} {e : Event}

/-- Where there is nothing left over, a fetch finds the list of messages. -/
theorem Good.fetch_eq {Ss : List (List Bytes)} (hg : g.Good) (hrep : Rep g.log Ss) (k : Nat) :
    ∃ buffered, g.fetch k = (listFetch Ss.flatten k, { g with buffered := buffered }) :=
  LogHandle.fetch_eq hrep (.refl g.log) k (fun hfailed => by simp [hg.2] at hfailed)

/-- A reopen finds all files. -/
theorem Good.files_eq (hg : g.Good) {crash : Bool} (hintact : (g.files crash).Intact) :
    g.files crash = g.log := by
  obtain ⟨Ss, hrep⟩ := hg.1.stored
  obtain ⟨n, heq⟩ := LogHandle.files_eq hrep g.log.disturbed_self hintact
  rw [heq, List.take_nil, ← disturbed_self]

/-- What succeeds leaves nothing over. -/
theorem Good.perform (hg : g.Good) (hfits : e.Fits) (hcompletes : e.completes = true) :
    (g.perform buffers e).2.Good := by
  cases e with
  | append m => exact ⟨hg.1.append hfits, rfl⟩
  | appendFails m failure => exact absurd hcompletes (by simp [Event.completes])
  | fetch k =>
    obtain ⟨Ss, hrep⟩ := hg.1.stored
    obtain ⟨buffered, heq⟩ := hg.fetch_eq hrep k
    show (g.fetch k).2.Good
    rw [heq]
    exact hg
  | flush => exact ⟨hg.1.flush, hg.2⟩
  | reopen crash maxSegmentSize syncBatchSize => exact ⟨clean_construct _ _ hfits, rfl⟩

/-- **One event.**  Around the left-overs every call answers as it does without them, and the
    logs stay as they are but for the left-overs. -/
theorem Trails.perform (ht : g.Trails h) (hfits : e.Fits) (htol : h.Tolerates e)
    (hintact : g.IntactAtReopen e) (hcompletes : e.completes = true) :
    ∃ answer, (h.perform buffers e).1 = .ok answer ∧ (g.perform buffers e).1 = .ok answer ∧
      (g.perform buffers e).2.Trails (h.perform buffers e).2 := by
  obtain ⟨hg, hd⟩ := ht
  obtain ⟨Ss, hrep⟩ := hg.1.stored
  have hg' := hg.perform buffers hfits hcompletes
  cases e with
  | append m =>
    obtain ⟨hoffset, hd'⟩ := hd.append hrep htol m
    exact ⟨_, congrArg (fun o => Except.ok (Answer.offset o)) hoffset, rfl, hg', hd'⟩
  | appendFails m failure => exact absurd hcompletes (by simp [Event.completes])
  | fetch k =>
    obtain ⟨buffered, hfetch⟩ := fetch_eq hrep hd k htol
    obtain ⟨buffered', hfetch'⟩ := hg.fetch_eq hrep k
    refine ⟨.record (listFetch Ss.flatten k), ?_, ?_, hg', ?_⟩
    · show Except.ok (Answer.record (h.fetch k).1) = _
      rw [hfetch]
    · show Except.ok (Answer.record (g.fetch k).1) = _
      rw [hfetch']
    · show (g.fetch k).2.log.Disturbed (h.fetch k).2.log
      rw [hfetch, hfetch']
      exact hd
  | flush => exact ⟨_, rfl, rfl, hg', hd.flush hrep⟩
  | reopen crash maxSegmentSize syncBatchSize =>
    refine ⟨_, rfl, rfl, hg', ?_⟩
    obtain ⟨tail, synced, wal, -, hlog⟩ := hd
    -- what is left over is cut off or skipped when the log is opened
    obtain ⟨n, hfiles⟩ := files_eq hrep hlog htol.1
    obtain ⟨-, htail, hstale⟩ := htol
    rw [hfiles, drop_disturbed hrep] at htail
    rw [hfiles] at hstale
    have hstale : Stale wal g.log.nextOffset := hstale
    show Log.Disturbed (Log.construct (g.files crash).directory maxSegmentSize syncBatchSize)
      (Log.construct (h.files crash).directory maxSegmentSize syncBatchSize)
    rw [hg.files_eq hintact, hfiles, construct_disturbed hg.1 htail synced hstale]
    exact .refl _

/-- A failed append. -/
theorem Trails.appendFails (ht : g.Trails h) {m : Bytes} {failure : WriteFailure}
    (htol : h.Tolerates (.appendFails m failure)) : g.Trails (h.appendFails m failure) := by
  obtain ⟨Ss, hrep⟩ := ht.1.1.stored
  exact ⟨ht.1, disturbed_appendFails hrep ht.2 htol⟩

variable {buffers} in
/-- An event that returns. -/
theorem run_of_ok {answer : Answer} (h : LogHandle) (heq : (h.perform buffers e).1 = .ok answer)
    (es : List Event) :
    h.run buffers (e :: es) = answer :: (h.perform buffers e).2.run buffers es := by
  rw [LogHandle.run, show h.perform buffers e = (.ok answer, (h.perform buffers e).2) from
    Prod.ext heq rfl]

end

/-- The run with the failed appends and the run without them. -/
theorem Trails.run {buffers : Nat → Bool} (events : List Event) {g h : LogHandle}
    (ht : g.Trails h) (hfits : ∀ e ∈ events, e.Fits) (htol : h.Along buffers Tolerates events)
    (hintact : g.Along buffers IntactAtReopen (events.filter Event.completes)) :
    h.run buffers events = g.run buffers (events.filter Event.completes) := by
  induction events generalizing g h with
  | nil => rfl
  | cons e es ih =>
    have hrest : ∀ e ∈ es, e.Fits := fun e he => hfits e (List.mem_cons_of_mem _ he)
    cases hc : e.completes with
    | true =>
      rw [List.filter_cons_of_pos hc] at hintact ⊢
      obtain ⟨answer, hanswer, hanswer', ht'⟩ :=
        ht.perform buffers (hfits e List.mem_cons_self) htol.1 hintact.1 hc
      rw [run_of_ok h hanswer, run_of_ok g hanswer', ih ht' hrest htol.2 hintact.2]
    | false =>
      rw [List.filter_cons_of_neg (by simp [hc])] at hintact ⊢
      cases e with
      | appendFails m failure => exact ih (ht.appendFails htol.1) hrest htol.2 hintact
      | _ => exact absurd hc (by simp [Event.completes])

variable {xs : List (Nat × List Bytes)} {q : Nat × List Bytes}

/-- A reopen of a clean log that need not be flushed. -/
theorem numbered_reopen {log : Log} (hclean : log.Clean) (hnum : Numbered log xs q)
    (hten : log.BelowTen) (maxSegmentSize syncBatchSize : Nat) :
    ∃ ys r, Numbered (Log.construct log.directory maxSegmentSize syncBatchSize) ys r ∧
      messagesOf (ys ++ [r]) = messagesOf (xs ++ [q]) := by
  -- the entries of the WAL are stale, so it may as well be empty
  let emptied : Log := { log with wal := [] }
  have hnum' : Numbered emptied xs q :=
    ⟨hnum.rep.of_eq rfl rfl rfl rfl rfl, hnum.names, hnum.nodup, hnum.bound, hnum.sorted,
      hnum.last, fun _ => rfl⟩
  have hstale : Stale [] log.nextOffset := fun e he => absurd he (by
    rw [walEntries.scan_of_dec_none walEntries.dec_nil]
    simp)
  rw [← construct_disturbed hclean (show records.scan [] = [] from rfl) 0 hstale, disturbed_nil]
  exact hnum'.reopen rfl hten maxSegmentSize syncBatchSize

/-- **One event, on the list of messages.** -/
theorem Good.perform_numbered (buffers : Nat → Bool) {g : LogHandle} {e : Event} (hg : g.Good)
    (hnum : Numbered g.log xs q) (hfits : e.Fits) (hintact : g.IntactAtReopen e)
    (hsmall : g.SmallAtReopen e) (hcompletes : e.completes = true) :
    ∃ answer xs' q', (g.perform buffers e).1 = .ok answer ∧
      Numbered (g.perform buffers e).2.log xs' q' ∧
      ∀ es, specAnswers (messagesOf (xs ++ [q])) (e :: es)
        = answer :: specAnswers (messagesOf (xs' ++ [q'])) es := by
  cases e with
  | append m =>
    have hvalid : records.Valid m := by
      show m.length < 256 ^ 8
      have hlt : m.length < 2 ^ 64 := hfits
      omega
    -- only here is the write-ahead log replayed
    obtain ⟨xs', q', hnum', hmsg⟩ := hnum.append hvalid
    refine ⟨_, xs', q', rfl, hnum', fun es => ?_⟩
    rw [specAnswers, hmsg]
    show _ = Answer.offset g.log.nextOffset :: _
    rw [hnum.rep.next]
    rfl
  | appendFails m failure => exact absurd hcompletes (by simp [Event.completes])
  | fetch k =>
    obtain ⟨buffered, hfetch⟩ := hg.fetch_eq hnum.rep k
    refine ⟨.record (listFetch (messagesOf (xs ++ [q])) k), xs, q, ?_, ?_, fun es => rfl⟩
    · show Except.ok (Answer.record (g.fetch k).1) = _
      rw [hfetch]
      rfl
    · show Numbered (g.fetch k).2.log xs q
      rw [hfetch]
      exact hnum
  | flush => exact ⟨_, xs, q, rfl, hnum.flush, fun es => rfl⟩
  | reopen crash maxSegmentSize syncBatchSize =>
    obtain ⟨xs', q', hnum', hmsg⟩ :=
      numbered_reopen hg.1 hnum hsmall maxSegmentSize syncBatchSize
    refine ⟨_, xs', q', rfl, ?_, fun es => by rw [specAnswers, hmsg]⟩
    show Numbered (Log.construct (g.files crash).directory maxSegmentSize syncBatchSize) xs' q'
    rwa [hg.files_eq hintact]

/-- The run without failed appends, on the list of messages. -/
theorem Good.run_numbered {buffers : Nat → Bool} (events : List Event) {g : LogHandle} (hg : g.Good)
    (hnum : Numbered g.log xs q) (hfits : ∀ e ∈ events, e.Fits)
    (hcompletes : ∀ e ∈ events, e.completes = true)
    (hintact : g.Along buffers IntactAtReopen events)
    (hsmall : g.Along buffers SmallAtReopen events) :
    g.run buffers events = specAnswers (messagesOf (xs ++ [q])) events := by
  induction events generalizing g xs q with
  | nil => rfl
  | cons e es ih =>
    have he := hfits e List.mem_cons_self
    have hc := hcompletes e List.mem_cons_self
    obtain ⟨answer, xs', q', hanswer, hnum', hspec⟩ :=
      hg.perform_numbered buffers hnum he hintact.1 hsmall.1 hc
    rw [run_of_ok g hanswer, hspec, ih (hg.perform buffers he hc) hnum'
      (fun e he => hfits e (List.mem_cons_of_mem _ he))
      (fun e he => hcompletes e (List.mem_cons_of_mem _ he)) hintact.2 hsmall.2]

/-- **Failed appends leave no trace** in a run, from any directory, in which they are
    tolerated and that is, without them, one of intact files: the calls that return answer as
    in the run without them.  If the directory was empty and no reopen finds ten segments or
    more, a fetch returns the message whose append returned that offset. -/
theorem failed_appends_leave_no_trace (buffers : Nat → Bool) (directory : List File)
    (maxSegmentSize syncBatchSize : Nat) (hsync : syncBatchSize < 2 ^ 64) (events : List Event)
    (hfits : ∀ e ∈ events, e.Fits)
    (htolerated : (construct directory maxSegmentSize syncBatchSize).Along buffers Tolerates events)
    (hintact : (construct directory maxSegmentSize syncBatchSize).Along buffers IntactAtReopen
      (events.filter Event.completes)) :
    (construct directory maxSegmentSize syncBatchSize).run buffers events
        = (construct directory maxSegmentSize syncBatchSize).run buffers
            (events.filter Event.completes) ∧
      (directory = [] →
        (construct directory maxSegmentSize syncBatchSize).Along buffers SmallAtReopen
          (events.filter Event.completes) →
        (construct directory maxSegmentSize syncBatchSize).run buffers events
          = specAnswers [] (events.filter Event.completes)) := by
  have hg : (construct directory maxSegmentSize syncBatchSize).Good :=
    ⟨clean_construct directory maxSegmentSize hsync, rfl⟩
  have hrun := Trails.run events ⟨hg, .refl _⟩ hfits htolerated hintact
  refine ⟨hrun, ?_⟩
  rintro rfl hsmall
  exact hrun.trans (hg.run_numbered _ (numbered_construct_empty _ _)
    (fun e he => hfits e (List.mem_filter.mp he).1) (fun e he => (List.mem_filter.mp he).2)
    hintact hsmall)

/-- A failed WAL write before a successful append; a segment write that fails with nothing in
    its buffer but the record before it, then one that tears its own; a flush, a reopen and a
    crash: all is as if they had not been called. -/
theorem failed_appends_leave_no_trace_reopened :
    (construct [] 100 64).run (fun length => decide (length < 3))
        [.append [1], .appendFails [2, 2, 2] (.wal 18 16), .fetch 0, .append [3],
          .appendFails [4] (.flush 17 0), .append [5], .appendFails [6, 6, 6] (.write 19 5),
          .flush, .reopen false 100 64, .fetch 2, .append [7], .fetch 3, .reopen true 100 64,
          .fetch 3]
      = [.offset 0, .record (.ok [1]), .offset 1, .offset 2, .done, .done, .record (.ok [5]),
          .offset 3, .record (.ok [7]), .done, .record (.ok [7])] := by
  refine ((failed_appends_leave_no_trace _ [] 100 64 (by decide) _ ?_ ?_ ?_).2 rfl ?_).trans rfl
  · decide
  · decide +kernel
  · decide +kernel
  · decide +kernel

/-- The only entry of a WAL is replayed into an empty log. -/
theorem fetch_replayed {directory : List File} {m : Bytes}
    (hpaths : segmentPaths directory = [⟨segmentName 0, []⟩])
    (hwal : walContents directory = walEntry 0 m) (hm : m.length ≤ kMaxWalMessage) :
    ((construct directory 100 64).fetch 0).1 = .ok m := by
  have hscan : walEntries.scan (walEntry 0 m) = [(0, m)] := by
    have hone := walEntries.scan_encAll [(0, m)] (fun e he => by
      rw [List.mem_singleton.mp he]
      exact ⟨Nat.two_pow_pos 64, hm⟩)
    rwa [Format.encAll_cons, Format.encAll_nil, List.append_nil] at hone
  obtain ⟨Ss, hrep, hmessages⟩ := constructFrom_stores (segmentPaths directory)
    (walContents directory) 100 64
  rw [hpaths, hwal, hscan] at hmessages
  have hg : (construct directory 100 64).Good := ⟨clean_construct _ _ (by decide), rfl⟩
  obtain ⟨buffered, hfetch⟩ := hg.fetch_eq hrep 0
  rw [hfetch, hmessages]
  rfl

section Trace

variable {buffers : Nat → Bool} {m : Bytes} (hm : m.length = 9000)

include hm

/-- The message of an append that wrote its WAL entry but nothing to the segment is there after
    a crash. -/
theorem run_fails_reopen :
    (construct [] 100 64).run buffers
        [.appendFails m (.write 9016 0), .reopen true 100 64, .fetch 0]
      = [.done, .record (.ok m)] := by
  show [Answer.done, .record ((construct [⟨segmentName 0, []⟩,
    ⟨ofString "append.wal", (walEntry 0 m).take 9016⟩] 100 64).fetch 0).1] = _
  rw [List.take_of_length_le (by rw [length_walEntry, hm]),
    fetch_replayed rfl rfl (by rw [hm]; decide)]

/-- The next append goes behind the length that stayed in the buffer: it returns an offset whose
    record cannot be fetched. -/
theorem run_fails_append :
    (construct [] 100 64).run (fun length => decide (length < 1024))
        [.appendFails m (.write 9016 0), .append [2, 3], .fetch 0]
      = [.offset 0, .record (.error (.outOfRange "incomplete record"))] := by
  have hstate : (construct [] 100 64).appendFails m (.write 9016 0) =
      ⟨{ (construct [] 100 64).log with
          segments := [⟨segmentName 0, putLE LogSegment.kLengthBytes 9000, 0, 0⟩]
          wal := (walEntry 0 m).take 9016 }, Function.update (fun _ => 0) 0 8, true⟩ := by
    rw [← hm]
    rfl
  show run _ ((construct [] 100 64).appendFails m (.write 9016 0)) [.append [2, 3], .fetch 0] = _
  rw [hstate]
  rfl

end Trace

/-- **Failed appends can leave a trace**, here of a message that no buffer holds: as above, and
    right after the failed write the first fetch of an older record throws. -/
theorem failed_append_leaves_trace :
    let buffers : Nat → Bool := fun length => decide (length < 1024)
    let log := construct [] 100 64
    let fails : Event := .appendFails (List.replicate 9000 1) (.write 9016 0)
    (log.run buffers [fails, .reopen true 100 64, .fetch 0]
        = [.done, .record (.ok (List.replicate 9000 1))] ∧
      log.run buffers [.reopen true 100 64, .fetch 0]
        = [.done, .record (.error (.outOfRange "Invalid offset"))]) ∧
    (log.run buffers [fails, .append [2, 3], .fetch 0]
        = [.offset 0, .record (.error (.outOfRange "incomplete record"))] ∧
      log.run buffers [.append [2, 3], .fetch 0] = [.offset 0, .record (.ok [2, 3])]) ∧
    (log.run buffers [.append [1], fails, .fetch 0]
        = [.offset 0, .record (.error (.outOfRange "incomplete record"))] ∧
      log.run buffers [.append [1], .fetch 0] = [.offset 0, .record (.ok [1])]) := by
  refine ⟨⟨run_fails_reopen List.length_replicate, ?_⟩,
    ⟨run_fails_append List.length_replicate, ?_⟩, ?_, ?_⟩ <;> decide +kernel

end LogHandle

end StreamingPlatform
