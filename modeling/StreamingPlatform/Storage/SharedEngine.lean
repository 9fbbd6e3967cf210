import StreamingPlatform.Storage.Engine
import StreamingPlatform.Storage.Streams
import Mathlib.Logic.Function.Basic

namespace StreamingPlatform

open ByteString

/-!
# Storage — the engine on one disk (`storage_engine.cpp`)

`Storage/Engine` takes the directories of different keys to be different.  Here the logs of
an engine work on the directories that their keys lead to, and two keys may lead to the same
one.  What a call on one topic-partition does to another one goes through the map of the
logs, which is by key, and through the directory (`view_append`, `view_fetch`, `view_flush`).

A log looks at regular files only, so different directories have nothing to do with each
other even if one of them lies in the other.  Paths that the system refuses are not looked
at: a log whose topic holds a NUL byte is never opened, and where the directory of one log
leads through the name of a file of another, whichever of the two comes second cannot be
created.  The call then throws, and what can be fetched stays as it was.
-/

/-- What an engine is constructed with, the directory of each key, and the records that a
    stream keeps in its buffer. -/
structure EngineSettings (δ : Type) where
  directory : Bytes → δ
  maxSegmentSize : Nat
  syncBatchSize : Nat
  buffers : Nat → Bool

/-- `StorageEngine` with the disk: the open logs by key, and the files of each directory. -/
structure SharedEngine (δ : Type) where
  logs : List (Bytes × StreamLog) := []
  disk : δ → List File

namespace SharedEngine

variable {δ : Type} [DecidableEq δ] (settings : EngineSettings δ) (engine : SharedEngine δ)

/-- `logs_.find(key)`. -/
def find? (key : Bytes) : Option StreamLog := engine.logs.lookup key

/-- The log of a key is changed, and the directory it works on. -/
def store (key : Bytes) (s : Session) : SharedEngine δ where
  logs := engine.logs.map (fun entry => if entry.1 = key then (key, s.toStreamLog) else entry)
  disk := Function.update engine.disk (settings.directory key) s.directory

/-- `StorageEngine::get_or_create_log`. -/
def getOrCreateLog (key : Bytes) : Session × SharedEngine δ :=
  match engine.find? key with
  | some log => ({ log with directory := engine.disk (settings.directory key) }, engine)
  | none =>
    let s := Session.construct settings.buffers (engine.disk (settings.directory key))
      settings.maxSegmentSize settings.syncBatchSize
    (s, { logs := engine.logs ++ [(key, s.toStreamLog)]
          disk := Function.update engine.disk (settings.directory key) s.directory })

/-- `StorageEngine::append`. -/
def append (topic : Bytes) (partition : Int) (message : Bytes) : Nat × SharedEngine δ :=
  let key := makeKey topic partition
  let (s, engine) := engine.getOrCreateLog settings key
  let (offset, s) := s.append settings.buffers message
  (offset, engine.store settings key s)

/-- `StorageEngine::fetch`; it moves streams, so the engine changes. -/
def fetch (topic : Bytes) (partition : Int) (offset : Nat) :
    Except StdException Bytes × SharedEngine δ :=
  let key := makeKey topic partition
  match engine.find? key with
  | none => (.error (.invalidArgument "KEY NOT FOUND"), engine)
  | some log =>
    let s : Session := { log with directory := engine.disk (settings.directory key) }
    ((s.fetch offset).1, engine.store settings key (s.fetch offset).2)

/-- `StorageEngine::flush`. -/
def flush (topic : Bytes) (partition : Int) : SharedEngine δ :=
  let key := makeKey topic partition
  match engine.find? key with
  | none => engine
  | some log =>
    let s : Session := { log with directory := engine.disk (settings.directory key) }
    engine.store settings key s.flush

/-! ### What a call changes -/

variable {settings engine} {key : Bytes} {log : StreamLog}

/-- Storing a log replaces this log in the map. -/
theorem find?_store (h : engine.find? key = some log) (s : Session) (key' : Bytes) :
    (engine.store settings key s).find? key'
      = if key' = key then some s.toStreamLog else engine.find? key' := by
  have hlookup : engine.logs.lookup key = some log := h
  show (engine.logs.map _).lookup key' = _
  rw [lookup_replace, hlookup]
  rfl

/-- It writes to the directory of the log only. -/
theorem disk_store (s : Session) (d : δ) :
    (engine.store settings key s).disk d
      = if d = settings.directory key then s.directory else engine.disk d :=
  Function.update_apply ..

/-- Opening a log adds it to the map. -/
theorem find?_getOrCreateLog (key' : Bytes) :
    (engine.getOrCreateLog settings key).2.find? key'
      = if key' = key then some (engine.getOrCreateLog settings key).1.toStreamLog
        else engine.find? key' := by
  unfold getOrCreateLog
  cases h : engine.find? key with
  | some log =>
    by_cases hkey : key' = key
    · rw [if_pos hkey, hkey]
      exact h
    · rw [if_neg hkey]
  | none => exact lookup_concat _ h key'

/-- It writes to the directory of the log only. -/
theorem disk_getOrCreateLog (d : δ) :
    (engine.getOrCreateLog settings key).2.disk d
      = if d = settings.directory key then (engine.getOrCreateLog settings key).1.directory
        else engine.disk d := by
  unfold getOrCreateLog
  cases engine.find? key with
  | some log =>
    by_cases hd : d = settings.directory key
    · rw [if_pos hd, hd]
    · rw [if_neg hd]
  | none => exact Function.update_apply ..

/-- The log of a topic-partition and its directory after an append. -/
def appended (settings : EngineSettings δ) (engine : SharedEngine δ) (topic : Bytes)
    (partition : Int) (message : Bytes) : Session :=
  ((engine.getOrCreateLog settings (makeKey topic partition)).1.append settings.buffers message).2

/-- An append stores the log that it has opened and written to. -/
theorem append_snd (topic : Bytes) (partition : Int) (message : Bytes) :
    (engine.append settings topic partition message).2
      = (engine.getOrCreateLog settings (makeKey topic partition)).2.store settings
          (makeKey topic partition) (engine.appended settings topic partition message) := rfl

/-- An append changes one log in the map. -/
theorem find?_append (topic : Bytes) (partition : Int) (message key' : Bytes) :
    (engine.append settings topic partition message).2.find? key'
      = if key' = makeKey topic partition
        then some (engine.appended settings topic partition message).toStreamLog
        else engine.find? key' := by
  have hself : (engine.getOrCreateLog settings (makeKey topic partition)).2.find?
      (makeKey topic partition) = some _ := (find?_getOrCreateLog _).trans (if_pos rfl)
  rw [append_snd, find?_store hself]
  by_cases hkey : key' = makeKey topic partition
  · rw [if_pos hkey, if_pos hkey]
  · rw [if_neg hkey, if_neg hkey, find?_getOrCreateLog, if_neg hkey]

/-- It writes to one directory. -/
theorem disk_append (topic : Bytes) (partition : Int) (message : Bytes) (d : δ) :
    (engine.append settings topic partition message).2.disk d
      = if d = settings.directory (makeKey topic partition)
        then (engine.appended settings topic partition message).directory
        else engine.disk d := by
  rw [append_snd, disk_store]
  by_cases hd : d = settings.directory (makeKey topic partition)
  · rw [if_pos hd, if_pos hd]
  · rw [if_neg hd, if_neg hd, disk_getOrCreateLog, if_neg hd]

/-! ### What a call on another topic-partition leaves alone -/

/-- What the calls on a key depend on: its log, if it is open, and the files of its
    directory. -/
def view (settings : EngineSettings δ) (engine : SharedEngine δ) (key : Bytes) :
    Option StreamLog × List File :=
  (engine.find? key, engine.disk (settings.directory key))

/-- A fetch depends on the log and the files of its directory only. -/
theorem fetch_eq_of_view {engine' : SharedEngine δ} {topic : Bytes} {partition : Int}
    (h : engine'.view settings (makeKey topic partition)
      = engine.view settings (makeKey topic partition)) (offset : Nat) :
    (engine'.fetch settings topic partition offset).1
      = (engine.fetch settings topic partition offset).1 := by
  obtain ⟨hfind, hdisk⟩ := Prod.mk.inj h
  unfold fetch
  dsimp only
  rw [hfind, hdisk]
  cases engine.find? (makeKey topic partition) <;> rfl

section Others

variable {topic key' : Bytes} {partition : Int} (hkey : key' ≠ makeKey topic partition)
  (hdir : settings.directory key' ≠ settings.directory (makeKey topic partition))

include hkey hdir

/-- An append elsewhere leaves a key with another directory alone. -/
theorem view_append (message : Bytes) :
    (engine.append settings topic partition message).2.view settings key'
      = engine.view settings key' := by
  unfold view
  rw [find?_append, if_neg hkey, disk_append, if_neg hdir]

/-- So does storing a log. -/
theorem view_store (h : engine.find? (makeKey topic partition) = some log) (s : Session) :
    (engine.store settings (makeKey topic partition) s).view settings key'
      = engine.view settings key' := by
  unfold view
  rw [find?_store h, if_neg hkey, disk_store, if_neg hdir]

/-- So does a fetch. -/
theorem view_fetch (offset : Nat) :
    (engine.fetch settings topic partition offset).2.view settings key'
      = engine.view settings key' := by
  unfold fetch
  dsimp only
  cases hfind : engine.find? (makeKey topic partition) with
  | none => rfl
  | some log => exact view_store hkey hdir hfind _

/-- So does a flush. -/
theorem view_flush :
    (engine.flush settings topic partition).view settings key' = engine.view settings key' := by
  unfold flush
  dsimp only
  cases hfind : engine.find? (makeKey topic partition) with
  | none => rfl
  | some log => exact view_store hkey hdir hfind _

end Others

/-! ### Two logs in one directory -/

/-- The log that an append works on, by what there is before it. -/
def opened (maxSegmentSize syncBatchSize : Nat) (buffers : Nat → Bool) :
    Option StreamLog × List File → Session
  | (some log, directory) => { log with directory }
  | (none, directory) => Session.construct buffers directory maxSegmentSize syncBatchSize

/-- The log that an append finds or opens. -/
theorem getOrCreateLog_fst (key : Bytes) :
    (engine.getOrCreateLog settings key).1
      = opened settings.maxSegmentSize settings.syncBatchSize settings.buffers
          (engine.view settings key) := by
  unfold getOrCreateLog view
  cases engine.find? key <;> rfl

/-- The log that an append leaves, from the view of its key. -/
theorem appended_eq (topic : Bytes) (partition : Int) (message : Bytes) :
    engine.appended settings topic partition message
      = ((opened settings.maxSegmentSize settings.syncBatchSize settings.buffers
          (engine.view settings (makeKey topic partition))).append settings.buffers message).2 := by
  unfold appended
  rw [getOrCreateLog_fst]

section Neighbours

variable {topic : Bytes} {partition : Int} {s : Session} {directory : List File}

/-- The view of a key after an append there. -/
theorem view_append_self {v : Option StreamLog × List File}
    (h : engine.view settings (makeKey topic partition) = v) (message : Bytes)
    (hs : s = ((opened settings.maxSegmentSize settings.syncBatchSize settings.buffers v).append
      settings.buffers message).2) :
    (engine.append settings topic partition message).2.view settings (makeKey topic partition)
      = (some s.toStreamLog, s.directory) := by
  unfold view
  rw [find?_append, if_pos rfl, disk_append, if_pos rfl, appended_eq, h, ← hs]

/-- The view of a key after a fetch, which may write out the buffer of the stream. -/
theorem view_fetch_self (h : engine.view settings (makeKey topic partition) = (some log, directory))
    (offset : Nat) (hs : s = (({ log with directory } : Session).fetch offset).2) :
    (engine.fetch settings topic partition offset).2.view settings (makeKey topic partition)
      = (some s.toStreamLog, s.directory) := by
  obtain ⟨hfind, hdisk⟩ := Prod.mk.inj h
  unfold fetch view
  dsimp only
  rw [hfind]
  dsimp only
  rw [find?_store hfind, if_pos rfl, disk_store, if_pos rfl, hdisk, ← hs]

/-- What a fetch returns, from the view of its key. -/
theorem fetch_of_view (h : engine.view settings (makeKey topic partition) = (some log, directory))
    (offset : Nat) :
    (engine.fetch settings topic partition offset).1
      = (({ log with directory } : Session).fetch offset).1 := by
  obtain ⟨hfind, hdisk⟩ := Prod.mk.inj h
  unfold fetch
  dsimp only
  rw [hfind]
  dsimp only
  rw [hdisk]

variable {key' : Bytes} (hkey : key' ≠ makeKey topic partition)
  (hdir : settings.directory key' = settings.directory (makeKey topic partition))

include hkey hdir

/-- The other log does not know that its files have changed. -/
theorem view_append_neighbour {v v' : Option StreamLog × List File}
    (h : engine.view settings (makeKey topic partition) = v) (h' : engine.view settings key' = v')
    (message : Bytes)
    (hs : s = ((opened settings.maxSegmentSize settings.syncBatchSize settings.buffers v).append
      settings.buffers message).2) :
    (engine.append settings topic partition message).2.view settings key'
      = (v'.1, s.directory) := by
  unfold view
  rw [find?_append, if_neg hkey, disk_append, if_pos hdir, appended_eq, h, ← hs, ← h']
  rfl

/-- A log in the same directory keeps its state and sees what a fetch here writes out. -/
theorem view_fetch_neighbour {v' : Option StreamLog × List File}
    (h : engine.view settings (makeKey topic partition) = (some log, directory))
    (h' : engine.view settings key' = v') (offset : Nat)
    (hs : s = (({ log with directory } : Session).fetch offset).2) :
    (engine.fetch settings topic partition offset).2.view settings key'
      = (v'.1, s.directory) := by
  obtain ⟨hfind, hdisk⟩ := Prod.mk.inj h
  unfold fetch view
  dsimp only
  rw [hfind]
  dsimp only
  rw [find?_store hfind, if_neg hkey, disk_store, if_pos hdir, hdisk, ← hs, ← h']
  rfl

end Neighbours

end SharedEngine

end StreamingPlatform
