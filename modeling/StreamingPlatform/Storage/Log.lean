import StreamingPlatform.Storage.LogSegment
import Mathlib.Data.List.Sort

namespace StreamingPlatform

open ByteString

/-!
# Storage — the segmented log (`log.cpp`)

A `Log` owns the segment files of one topic-partition, a sparse in-memory index over
them and the write-ahead log `append.wal`.  The model follows `log.cpp` operation by
operation; files live in the log's directory, so paths are plain file names.

* `append` writes the WAL entry, then the record, then rolls over to a new segment
  when the active one has reached `max_segment_size`, then syncs when
  `sync_batch_size` appends are pending;
* `fetch` looks up the last index checkpoint at or before the offset and walks the
  records from there;
* `construct` visits the segment files in the order of their *names*, rebuilds the
  index, cuts torn tails off and replays the WAL.

`next_offset_` is a 64-bit counter in the code; here it counts without bound and is
reduced modulo `2 ^ 64` where it meets the 8 bytes that the WAL stores.
-/

/-- A checkpoint of the sparse index. -/
structure LogIndexEntry where
  offset : Nat
  segmentIndex : Nat
  bytePosition : Nat
  deriving DecidableEq, Repr

/-- The state of a `Log`: its open files and its in-memory fields.  `active_segment`
    is the segment at `active_segment_index_`. -/
structure Log where
  segments : List LogSegment
  index : List LogIndexEntry
  activeSegmentIndex : Nat
  nextOffset : Nat
  maxSegmentSize : Nat
  /-- The bytes of `append.wal`; a missing file reads as an empty one. -/
  wal : Bytes
  syncBatchSize : Nat
  pendingAppends : Nat
  deriving DecidableEq, Repr

/-- A regular file of the log directory. -/
structure File where
  name : Bytes
  contents : Bytes
  deriving DecidableEq, Repr

namespace Log

/-- `kIndexStride`. -/
def kIndexStride : Nat := 64

/-- The largest message that `recover_wal` takes from the WAL: 16 MiB. -/
def kMaxWalMessage : Nat := 16 * 1024 * 1024

/-- `"segment-" + std::to_string(n) + ".log"`. -/
def segmentName (n : Nat) : Bytes := ofString "segment-" ++ decimal n ++ ofString ".log"

/-- `segments[i]`. -/
def segment (log : Log) (i : Nat) : LogSegment :=
  log.segments.getD i (LogSegment.reopen [] [])

/-- Replace `segments[i]`. -/
def setSegment (log : Log) (i : Nat) (s : LogSegment) : Log :=
  { log with segments := log.segments.set i s }

/-- `*active_segment`. -/
def activeSegment (log : Log) : LogSegment := log.segment log.activeSegmentIndex

/-! ### Appending -/

/-- The bytes `write_wal` adds for one entry. -/
def walEntry (offset : Nat) (message : Bytes) : Bytes :=
  putLE 8 offset ++ (putLE 8 message.length ++ message)

/-- `Log::write_wal`. -/
def writeWal (log : Log) (offset : Nat) (message : Bytes) : Log :=
  { log with wal := log.wal ++ walEntry offset message }

/-- `Log::clear_wal`. -/
def clearWal (log : Log) : Log := { log with wal := [] }

/-- `Log::sync_pending`: the WAL and every segment reach stable storage, then the WAL
    is emptied. -/
def syncPending (log : Log) : Log :=
  { log with segments := log.segments.map LogSegment.sync, wal := [], pendingAppends := 0 }

/-- The part that `append` and `recover_wal` share: append a record to the active
    segment, add a checkpoint every `kIndexStride` records and at the start of every
    segment, and count the record. -/
def appendRecord (log : Log) (message : Bytes) : Log :=
  let bytePosition := (log.activeSegment.append message).1
  let log' := log.setSegment log.activeSegmentIndex (log.activeSegment.append message).2
  { log' with
    index :=
      if log.nextOffset % kIndexStride = 0 ∨ bytePosition = 0 then
        log.index ++ [⟨log.nextOffset, log.activeSegmentIndex, bytePosition⟩]
      else log.index
    nextOffset := log.nextOffset + 1 }

/-- Start a new active segment, named by the number of segments so far.  Its file is new:
    `append` would go on with one of this name, which a directory of its own does not have. -/
def rollOver (log : Log) : Log :=
  { log with
    segments := log.segments ++ [LogSegment.reopen (segmentName log.segments.length) []]
    activeSegmentIndex := log.segments.length }

/-- `Log::append`. -/
def append (log : Log) (message : Bytes) : Nat × Log :=
  let offset := log.nextOffset
  let log := (log.writeWal offset message).appendRecord message
  let log := if log.activeSegment.sizes ≥ log.maxSegmentSize then log.rollOver else log
  let log := { log with pendingAppends := log.pendingAppends + 1 }
  let log := if log.pendingAppends ≥ log.syncBatchSize then log.syncPending else log
  (offset, log)

/-- `Log::flush`. -/
def flush (log : Log) : Log := if log.pendingAppends > 0 then log.syncPending else log

/-! ### Fetching -/

/-- The loop of `Log::fetch`: read records from a checkpoint on until `offset` is
    reached.  `current_offset` grows with every round and the loop gives up as soon as
    it has passed `offset`, which bounds the rounds. -/
def fetchLoop (log : Log) (offset : Nat) : Nat → Nat → Nat → Nat → Except StdException Bytes
  | 0, _, _, _ => .error (.outOfRange "invalid sparse index traversal")
  | rounds + 1, currentOffset, segmentIndex, position =>
    match (log.segment segmentIndex).read position with
    | .error e => .error e
    | .ok record =>
      if currentOffset = offset then .ok record
      else
        let currentOffset := currentOffset + 1
        let position := position + (LogSegment.kLengthBytes + record.length)
        let atEnd := position = (log.segment segmentIndex).sizes ∧
          segmentIndex + 1 < log.segments.length
        let next := if atEnd then (segmentIndex + 1, 0) else (segmentIndex, position)
        if currentOffset > offset ∨ next.1 ≥ log.segments.length then
          .error (.outOfRange "invalid sparse index traversal")
        else fetchLoop log offset rounds currentOffset next.1 next.2

/-- The checkpoint before `std::upper_bound(index_, offset)`: the last entry of the
    sorted index whose offset is not above `offset`. -/
def checkpoint (log : Log) (offset : Nat) : Option LogIndexEntry :=
  (log.index.takeWhile (fun e => decide (e.offset ≤ offset))).getLast?

/-- `Log::fetch`. -/
def fetch (log : Log) (offset : Nat) : Except StdException Bytes :=
  if offset ≥ log.nextOffset then .error (.outOfRange "Invalid offset")
  else
    match log.checkpoint offset with
    | none => .error (.outOfRange "missing sparse index checkpoint")
    | some e => log.fetchLoop offset (offset - e.offset + 1) e.offset e.segmentIndex e.bytePosition

/-! ### Loading -/

/-- The file names `load_existing_segments` takes for segments. -/
def isSegmentFile (filename : Bytes) : Bool :=
  (ofString "segment-").isPrefixOf filename && filename.length > 8 &&
    filename.drop (filename.length - 4) == ofString ".log"

/-- The segment files of a directory in the order `load_existing_segments` visits them:
    `std::sort` on paths, which compares the names as strings. -/
def segmentPaths (directory : List File) : List File :=
  (directory.filter (fun f => isSegmentFile f.name)).insertionSort (fun f g => f.name ≤ g.name)

/-- The loop of `Log::rebuild_index_from_segment`.  Every record has a length field, so
    the size of the segment bounds the rounds. -/
def rebuildLoop (segmentIndex : Nat) : Nat → Nat → Log → Log
  | 0, _, log => log
  | rounds + 1, position, log =>
    if position < (log.segment segmentIndex).sizes then
      match (log.segment segmentIndex).read position with
      | .ok message =>
        rebuildLoop segmentIndex rounds (position + (LogSegment.kLengthBytes + message.length))
          { log with
            index :=
              if log.nextOffset % kIndexStride = 0 ∨ position = 0 then
                log.index ++ [⟨log.nextOffset, segmentIndex, position⟩]
              else log.index
            nextOffset := log.nextOffset + 1 }
      | .error _ => log.setSegment segmentIndex ((log.segment segmentIndex).truncate position)
    else log

/-- `Log::rebuild_index_from_segment`. -/
def rebuildIndexFromSegment (segmentIndex : Nat) (log : Log) : Log :=
  rebuildLoop segmentIndex ((log.segment segmentIndex).sizes + 1) 0 log

/-- Open one segment file and index its records. -/
def loadSegment (log : Log) (f : File) : Log :=
  rebuildIndexFromSegment log.segments.length
    { log with segments := log.segments ++ [LogSegment.reopen f.name f.contents] }

/-- `Log::load_existing_segments` on the segment files it visits, in that order. -/
def loadExistingSegments (log : Log) (paths : List File) : Log :=
  if paths = [] then
    { log with
      segments := [LogSegment.reopen (segmentName 0) []]
      activeSegmentIndex := 0 }
  else
    let log := paths.foldl loadSegment log
    { log with activeSegmentIndex := log.segments.length - 1 }

/-! ### WAL replay -/

/-- One round of reads of `Log::recover_wal`: offset, length and message of the next
    entry; `none` when the WAL ends before the entry does or the length is refused. -/
def readWalEntry (wal : Bytes) : Option ((Nat × Bytes) × Bytes) :=
  if wal.length < 8 then none
  else
    let offset := valueLE (wal.take 8)
    let wal := wal.drop 8
    if wal.length < 8 then none
    else
      let length := valueLE (wal.take 8)
      if length > kMaxWalMessage then none
      else if wal.length - 8 < length then none
      else some ((offset, (wal.drop 8).take length), wal.drop (8 + length))

/-- The loop of `Log::recover_wal`: an entry is appended when its offset is the next
    one.  Every entry has 16 bytes of header, so the WAL's length bounds the rounds. -/
def recoverLoop : Nat → Bytes → Log → Log
  | 0, _, log => log
  | rounds + 1, wal, log =>
    match readWalEntry wal with
    | none => log
    | some ((offset, message), rest) =>
      recoverLoop rounds rest
        (if offset = log.nextOffset % 2 ^ 64 then log.appendRecord message else log)

/-- `Log::recover_wal`. -/
def recoverWal (log : Log) : Log :=
  if log.wal = [] then log
  else
    let log := recoverLoop (log.wal.length + 1) log.wal log
    let log :=
      if log.nextOffset > 0 then { log with segments := log.segments.map LogSegment.sync } else log
    log.clearWal

/-- `Log::Log` on segment files visited in the order `paths` and a WAL. -/
def constructFrom (paths : List File) (wal : Bytes) (maxSegmentSize syncBatchSize : Nat) : Log :=
  let log : Log :=
    { segments := [], index := [], activeSegmentIndex := 0, nextOffset := 0, maxSegmentSize,
      wal, syncBatchSize := max 1 syncBatchSize, pendingAppends := 0 }
  (log.loadExistingSegments paths).recoverWal

/-- The contents of `append.wal` in a directory; a missing file reads as an empty one. -/
def walContents (directory : List File) : Bytes :=
  match directory.find? (fun f => f.name == ofString "append.wal") with
  | some f => f.contents
  | none => []

/-- `Log::Log` on a directory. -/
def construct (directory : List File) (maxSegmentSize syncBatchSize : Nat) : Log :=
  constructFrom (segmentPaths directory) (walContents directory) maxSegmentSize syncBatchSize

/-! ### The directory a log leaves behind -/

/-- The segment files of a log, in the order of its `segments` vector. -/
def segmentFiles (log : Log) : List File :=
  log.segments.map (fun s => ⟨s.filePath, s.file⟩)

/-- The files on disk once the log is destroyed. -/
def directory (log : Log) : List File :=
  log.segmentFiles ++ [⟨ofString "append.wal", log.wal⟩]

end Log

end StreamingPlatform
