import StreamingPlatform.Storage.Log

namespace StreamingPlatform

open ByteString

/-!
# Storage — a log on the files of a directory (`log_segment.cpp`, `log.cpp`)

`Storage/Log` lets a log own its files.  In the code a log has streams on files that lie in
a directory, and there may be other streams on the same files.  A `std::fstream` keeps what
is written to it in a buffer until it is moved, flushed or closed, or the buffer is full, so
a record that was appended may be on its way to a place that someone else has written to
meanwhile.

Here the same operations are modelled with the files outside of the log.  A `Session` is a
log with the directory it works on; which records stay in the buffer is up to the library
(`buffers`, by the length of the message).
-/

/-- The bytes of a file; a missing file reads as an empty one. -/
def contentsOf (directory : List File) (name : Bytes) : Bytes :=
  match directory.find? (fun f => f.name == name) with
  | some f => f.contents
  | none => []

/-- Give a file other contents, and create it if it is missing. -/
def setContents (directory : List File) (name contents : Bytes) : List File :=
  if directory.any (fun f => f.name == name) then
    directory.map (fun f => if f.name == name then ⟨name, contents⟩ else f)
  else directory ++ [⟨name, contents⟩]

/-- Write `bytes` over the contents of a file from `position` on; a gap before it reads as
    zeros. -/
def overwrite (contents : Bytes) (position : Nat) (bytes : Bytes) : Bytes :=
  contents.take position ++ List.replicate (position - contents.length) 0 ++ bytes ++
    contents.drop (position + bytes.length)

/-! ### Segments -/

/-- The stream of a segment and its in-memory size. -/
structure SegmentStream where
  filePath : Bytes
  currentSize : Nat
  /-- What has been written to the stream and not to the file, and where it goes. -/
  unwritten : Bytes
  putPosition : Nat
  deriving DecidableEq, Repr

namespace SegmentStream

/-- Moving, flushing and closing a stream write out what is in its buffer. -/
def flush (s : SegmentStream) (directory : List File) : SegmentStream × List File :=
  if s.unwritten = [] then (s, directory)
  else
    ({ s with unwritten := [] },
      setContents directory s.filePath
        (overwrite (contentsOf directory s.filePath) s.putPosition s.unwritten))

/-- `LogSegment::reopen`: a missing file is created, and the size is the size of the file. -/
def reopen (filePath : Bytes) (directory : List File) : SegmentStream × List File :=
  ({ filePath, currentSize := (contentsOf directory filePath).length, unwritten := [],
     putPosition := 0 },
    setContents directory filePath (contentsOf directory filePath))

/-- `LogSegment::append`: the stream is moved to the end of the file, wherever that is by
    now; the position that is returned is the in-memory size. -/
def append (buffers : Nat → Bool) (s : SegmentStream) (message : Bytes) (directory : List File) :
    Nat × SegmentStream × List File :=
  let (s, directory) := s.flush directory
  let record := putLE LogSegment.kLengthBytes message.length ++ message
  let written : SegmentStream :=
    { s with
      currentSize := s.currentSize + (LogSegment.kLengthBytes + message.length)
      unwritten := record
      putPosition := (contentsOf directory s.filePath).length }
  (s.currentSize, if buffers message.length then (written, directory) else written.flush directory)

/-- `LogSegment::read`; the stream is moved unless the position is refused. -/
def read (s : SegmentStream) (position : Nat) (directory : List File) :
    Except StdException Bytes × SegmentStream × List File :=
  if s.currentSize < position ∨ s.currentSize - position < LogSegment.kLengthBytes then
    (.error (.outOfRange "invalid record position"), s, directory)
  else
    let (s, directory) := s.flush directory
    -- what is in the file now is read as the file of a segment of that size
    let file : LogSegment := ⟨s.filePath, contentsOf directory s.filePath, s.currentSize, 0⟩
    (file.read position, s, directory)

/-- `LogSegment::truncate`: close, shrink the file and open it again. -/
def truncate (s : SegmentStream) (size : Nat) (directory : List File) :
    SegmentStream × List File :=
  let (s, directory) := s.flush directory
  reopen s.filePath
    (setContents directory s.filePath ((contentsOf directory s.filePath).take size))

end SegmentStream

/-! ### Logs -/

/-- The in-memory state of a `Log`. -/
structure StreamLog where
  segments : List SegmentStream
  index : List LogIndexEntry
  activeSegmentIndex : Nat
  nextOffset : Nat
  maxSegmentSize : Nat
  syncBatchSize : Nat
  pendingAppends : Nat
  deriving DecidableEq, Repr

/-- A log and the directory it works on. -/
structure Session extends StreamLog where
  directory : List File
  deriving DecidableEq, Repr

namespace Session

/-- `append.wal`. -/
def walName : Bytes := ofString "append.wal"

section Logs

variable (buffers : Nat → Bool)

/-- `segments[i]`. -/
def segment (s : Session) (i : Nat) : SegmentStream := s.segments.getD i ⟨[], 0, [], 0⟩

/-- A segment and the directory after an operation on it. -/
def setSegment (s : Session) (i : Nat) (changed : SegmentStream × List File) : Session :=
  { s with segments := s.segments.set i changed.1, directory := changed.2 }

/-- `Log::write_wal`: the WAL is opened for this entry only. -/
def writeWal (s : Session) (offset : Nat) (message : Bytes) : Session :=
  { s with
    directory := setContents s.directory walName
      (contentsOf s.directory walName ++ Log.walEntry offset message) }

/-- `Log::clear_wal`. -/
def clearWal (s : Session) : Session :=
  { s with directory := setContents s.directory walName [] }

/-- `sync` of every segment. -/
def syncAll : List SegmentStream → List File → List SegmentStream × List File
  | [], directory => ([], directory)
  | s :: segments, directory =>
    let (s, directory) := s.flush directory
    let (segments, directory) := syncAll segments directory
    (s :: segments, directory)

/-- The segments are flushed. -/
def syncSegments (s : Session) : Session :=
  { s with
    segments := (syncAll s.segments s.directory).1
    directory := (syncAll s.segments s.directory).2 }

/-- `Log::sync_pending`. -/
def syncPending (s : Session) : Session := { s.syncSegments.clearWal with pendingAppends := 0 }

/-- The part that `append` and `recover_wal` share. -/
def appendRecord (s : Session) (message : Bytes) : Session :=
  let r := (s.segment s.activeSegmentIndex).append buffers message s.directory
  { s.setSegment s.activeSegmentIndex r.2 with
    index :=
      if s.nextOffset % Log.kIndexStride = 0 ∨ r.1 = 0 then
        s.index ++ [⟨s.nextOffset, s.activeSegmentIndex, r.1⟩]
      else s.index
    nextOffset := s.nextOffset + 1 }

/-- A new active segment, named by the number of segments so far. -/
def rollOver (s : Session) : Session :=
  let r := SegmentStream.reopen (Log.segmentName s.segments.length) s.directory
  { s with
    segments := s.segments ++ [r.1]
    activeSegmentIndex := s.segments.length
    directory := r.2 }

/-- `Log::append`. -/
def append (s : Session) (message : Bytes) : Nat × Session :=
  let offset := s.nextOffset
  let s := (s.writeWal offset message).appendRecord buffers message
  let s := if (s.segment s.activeSegmentIndex).currentSize ≥ s.maxSegmentSize then s.rollOver else s
  let s := { s with pendingAppends := s.pendingAppends + 1 }
  let s := if s.pendingAppends ≥ s.syncBatchSize then s.syncPending else s
  (offset, s)

/-- `Log::flush`. -/
def flush (s : Session) : Session := if s.pendingAppends > 0 then s.syncPending else s

/-- The loop of `Log::fetch`. -/
def fetchLoop (offset : Nat) : Nat → Nat → Nat → Nat → Session →
    Except StdException Bytes × Session
  | 0, _, _, _, s => (.error (.outOfRange "invalid sparse index traversal"), s)
  | rounds + 1, currentOffset, segmentIndex, position, s =>
    let r := (s.segment segmentIndex).read position s.directory
    let s := s.setSegment segmentIndex r.2
    match r.1 with
    | .error e => (.error e, s)
    | .ok record =>
      if currentOffset = offset then (.ok record, s)
      else
        let currentOffset := currentOffset + 1
        let position := position + (LogSegment.kLengthBytes + record.length)
        let atEnd := position = (s.segment segmentIndex).currentSize ∧
          segmentIndex + 1 < s.segments.length
        let next := if atEnd then (segmentIndex + 1, 0) else (segmentIndex, position)
        if currentOffset > offset ∨ next.1 ≥ s.segments.length then
          (.error (.outOfRange "invalid sparse index traversal"), s)
        else fetchLoop offset rounds currentOffset next.1 next.2 s

/-- `Log::fetch`. -/
def fetch (s : Session) (offset : Nat) : Except StdException Bytes × Session :=
  if offset ≥ s.nextOffset then (.error (.outOfRange "Invalid offset"), s)
  else
    match (s.index.takeWhile (fun e => decide (e.offset ≤ offset))).getLast? with
    | none => (.error (.outOfRange "missing sparse index checkpoint"), s)
    | some e => fetchLoop offset (offset - e.offset + 1) e.offset e.segmentIndex e.bytePosition s

/-! ### Opening -/

/-- The loop of `Log::rebuild_index_from_segment`. -/
def rebuildLoop (segmentIndex : Nat) : Nat → Nat → Session → Session
  | 0, _, s => s
  | rounds + 1, position, s =>
    if position < (s.segment segmentIndex).currentSize then
      let r := (s.segment segmentIndex).read position s.directory
      let s := s.setSegment segmentIndex r.2
      match r.1 with
      | .ok message =>
        rebuildLoop segmentIndex rounds (position + (LogSegment.kLengthBytes + message.length))
          { s with
            index :=
              if s.nextOffset % Log.kIndexStride = 0 ∨ position = 0 then
                s.index ++ [⟨s.nextOffset, segmentIndex, position⟩]
              else s.index
            nextOffset := s.nextOffset + 1 }
      | .error _ =>
        s.setSegment segmentIndex ((s.segment segmentIndex).truncate position s.directory)
    else s

/-- Open one segment file and index its records. -/
def loadSegment (s : Session) (filePath : Bytes) : Session :=
  let r := SegmentStream.reopen filePath s.directory
  rebuildLoop s.segments.length (r.1.currentSize + 1) 0
    { s with segments := s.segments ++ [r.1], directory := r.2 }

/-- `Log::load_existing_segments`. -/
def loadExistingSegments (s : Session) : Session :=
  let paths := (Log.segmentPaths s.directory).map File.name
  if paths = [] then
    let r := SegmentStream.reopen (Log.segmentName 0) s.directory
    { s with segments := [r.1], activeSegmentIndex := 0, directory := r.2 }
  else
    let s := paths.foldl loadSegment s
    { s with activeSegmentIndex := s.segments.length - 1 }

/-- The loop of `Log::recover_wal` over what the WAL holds. -/
def recoverLoop : Nat → Bytes → Session → Session
  | 0, _, s => s
  | rounds + 1, wal, s =>
    match Log.readWalEntry wal with
    | none => s
    | some ((offset, message), rest) =>
      recoverLoop rounds rest
        (if offset = s.nextOffset % 2 ^ 64 then s.appendRecord buffers message else s)

/-- `Log::recover_wal`. -/
def recoverWal (s : Session) : Session :=
  let wal := contentsOf s.directory walName
  if wal = [] then s
  else
    let s := recoverLoop buffers (wal.length + 1) wal s
    let s := if s.nextOffset > 0 then s.syncSegments else s
    s.clearWal

/-- `Log::Log`. -/
def construct (directory : List File) (maxSegmentSize syncBatchSize : Nat) : Session :=
  let s : Session :=
    { segments := [], index := [], activeSegmentIndex := 0, nextOffset := 0, maxSegmentSize,
      syncBatchSize := max 1 syncBatchSize, pendingAppends := 0, directory }
  s.loadExistingSegments.recoverWal buffers

end Logs

end Session

end StreamingPlatform
