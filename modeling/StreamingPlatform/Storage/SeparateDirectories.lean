import StreamingPlatform.Storage.Directories
import StreamingPlatform.Storage.SharedEngine
import StreamingPlatform.Storage.StreamOpening
import Mathlib.Data.Set.Function

namespace StreamingPlatform

open ByteString

/-!
# Storage — an engine whose logs have different directories

`Storage/Engine` gives every key a directory of its own.  On the keys for which this is so,
an engine on one disk answers as that one does (`answers_eq_answers`): the directories that
the logs find are those of the disk, and what the streams keep in their buffers cannot be seen.
That engine in turn answers as one over lists of messages, so for topics that are names nothing
but the messages can be seen (`answers_eq_messages`).
-/

namespace SharedEngine

/-- What two engines have for a key: its log is not open and its directory is as it was found,
    or it is open in both. -/
inductive Agree (found : List File) : Option StreamLog × List File → Option Log → Prop where
  | unopened : Agree found (none, found) none
  | opened {log : StreamLog} {directory : List File} {log' : Log} :
      Session.Open { log with directory } log' → Agree found (some log, directory) (some log')

section Separate

variable {δ : Type} [DecidableEq δ] {settings : EngineSettings δ} {keys : Set Bytes}
  {found : Bytes → List File} {engine : SharedEngine δ} {engine' : StorageEngine Log}

/-- Two engines have the same for each of the keys. -/
def Agrees (settings : EngineSettings δ) (keys : Set Bytes) (found : Bytes → List File)
    (engine : SharedEngine δ) (engine' : StorageEngine Log) : Prop :=
  ∀ key ∈ keys, Agree (found key) (engine.view settings key) (engine'.find? key)

/-- What a log can be opened on: files with different names, the segments numbered without
    gaps. -/
structure Proper (directory : List File) : Prop where
  nodup : (directory.map File.name).Nodup
  dense : Log.DensePaths (Log.segmentNames directory)

/-- The log that an append works on. -/
theorem Agree.opened_open {files : List File} {v : Option StreamLog × List File}
    {log : Option Log} (h : Agree files v log) (hproper : Proper files)
    (maxSegmentSize syncBatchSize : Nat) (buffers : Nat → Bool) :
    (SharedEngine.opened maxSegmentSize syncBatchSize buffers v).Open
      (log.getD (Log.construct files maxSegmentSize syncBatchSize)) := by
  cases h with
  | unopened =>
    exact Session.open_construct hproper.nodup hproper.dense buffers maxSegmentSize syncBatchSize
  | opened hopen => exact hopen

theorem getOrCreateLog_fileLogs (engine' : StorageEngine Log) (found : Bytes → List File)
    (maxSegmentSize syncBatchSize : Nat) (key : Bytes) :
    (engine'.getOrCreateLog (fileLogs found maxSegmentSize syncBatchSize) key).1
      = (engine'.find? key).getD (Log.construct (found key) maxSegmentSize syncBatchSize) := by
  unfold StorageEngine.getOrCreateLog
  cases engine'.find? key <;> rfl

section Calls

variable (h : Agrees settings keys found engine engine')
  (hapart : Set.InjOn settings.directory keys) {topic : Bytes} {partition : Int}
  (hkey : makeKey topic partition ∈ keys)

include h hapart hkey

/-- **Append.** -/
theorem Agrees.append (hproper : Proper (found (makeKey topic partition))) (message : Bytes) :
    (engine.append settings topic partition message).1
        = (engine'.append (fileLogs found settings.maxSegmentSize settings.syncBatchSize) topic
            partition message).1 ∧
      Agrees settings keys found (engine.append settings topic partition message).2
        (engine'.append (fileLogs found settings.maxSegmentSize settings.syncBatchSize) topic
          partition message).2 := by
  have hopen := (h _ hkey).opened_open hproper settings.maxSegmentSize settings.syncBatchSize
    settings.buffers
  rw [← getOrCreateLog_fileLogs] at hopen
  obtain ⟨hoffset, hopen'⟩ := hopen.append settings.buffers message
  refine ⟨?_, fun key' hkey' => ?_⟩
  · show ((engine.getOrCreateLog settings _).1.append settings.buffers message).1 = _
    rw [getOrCreateLog_fst]
    exact hoffset
  · rw [StorageEngine.find?_append_ops]
    by_cases hsame : key' = makeKey topic partition
    · rw [if_pos hsame, hsame, view_append_self rfl message rfl]
      exact .opened hopen'
    · have hdir : settings.directory key' ≠ settings.directory (makeKey topic partition) :=
        fun heq => hsame (hapart hkey' hkey heq)
      rw [if_neg hsame, view_append hsame hdir]
      exact h key' hkey'

/-- **Fetch.** -/
theorem Agrees.fetch (offset : Nat) :
    (engine.fetch settings topic partition offset).1
        = engine'.fetch (fileLogs found settings.maxSegmentSize settings.syncBatchSize) topic
            partition offset ∧
      Agrees settings keys found (engine.fetch settings topic partition offset).2 engine' := by
  have hagree := h _ hkey
  generalize hview : engine.view settings (makeKey topic partition) = v at hagree
  generalize hfind : engine'.find? (makeKey topic partition) = log at hagree
  unfold StorageEngine.fetch
  rw [hfind]
  cases hagree with
  | unopened =>
    have hnone : engine.fetch settings topic partition offset
        = (.error (.invalidArgument "KEY NOT FOUND"), engine) := by
      unfold SharedEngine.fetch
      dsimp only
      rw [show engine.find? (makeKey topic partition) = none from congrArg Prod.fst hview]
    rw [hnone]
    exact ⟨rfl, h⟩
  | @opened log directory log' hopen =>
    obtain ⟨hresult, hopen'⟩ := hopen.fetch offset
    refine ⟨(fetch_of_view hview offset).trans hresult, fun key' hkey' => ?_⟩
    by_cases hsame : key' = makeKey topic partition
    · rw [hsame, view_fetch_self hview offset rfl, hfind]
      exact .opened hopen'
    · have hdir : settings.directory key' ≠ settings.directory (makeKey topic partition) :=
        fun heq => hsame (hapart hkey' hkey heq)
      rw [view_fetch hsame hdir]
      exact h key' hkey'

end Calls

end Separate

end SharedEngine

/-! ### Sequences of calls -/

/-- A call on an engine. -/
inductive EngineCall where
  | append (topic : Bytes) (partition : Int) (message : Bytes)
  | fetch (topic : Bytes) (partition : Int) (offset : Nat)

/-- The key that a call is for. -/
def EngineCall.key : EngineCall → Bytes
  | .append topic partition _ | .fetch topic partition _ => makeKey topic partition

/-- Perform one call on an engine on one disk. -/
def SharedEngine.perform {δ : Type} [DecidableEq δ] (settings : EngineSettings δ)
    (engine : SharedEngine δ) : EngineCall → Log.Answer × SharedEngine δ
  | .append topic partition message =>
    (.offset (engine.append settings topic partition message).1,
      (engine.append settings topic partition message).2)
  | .fetch topic partition offset =>
    (.record (engine.fetch settings topic partition offset).1,
      (engine.fetch settings topic partition offset).2)

/-- What a sequence of calls answers. -/
def SharedEngine.answers {δ : Type} [DecidableEq δ] (settings : EngineSettings δ) :
    SharedEngine δ → List EngineCall → List Log.Answer
  | _, [] => []
  | engine, call :: calls =>
    (engine.perform settings call).1 :: answers settings (engine.perform settings call).2 calls

/-- Perform one call on an engine over logs. -/
def StorageEngine.perform {L : Type} (ops : LogOps L) (engine : StorageEngine L) :
    EngineCall → Log.Answer × StorageEngine L
  | .append topic partition message =>
    (.offset (engine.append ops topic partition message).1,
      (engine.append ops topic partition message).2)
  | .fetch topic partition offset => (.record (engine.fetch ops topic partition offset), engine)

/-- What a sequence of calls answers. -/
def StorageEngine.answers {L : Type} (ops : LogOps L) :
    StorageEngine L → List EngineCall → List Log.Answer
  | _, [] => []
  | engine, call :: calls =>
    (engine.perform ops call).1 :: answers ops (engine.perform ops call).2 calls

variable {calls : List EngineCall}

namespace SharedEngine

section Runs

variable {δ : Type} [DecidableEq δ] {settings : EngineSettings δ} {keys : Set Bytes}
  {found : Bytes → List File} (hapart : Set.InjOn settings.directory keys)
  (hproper : ∀ key ∈ keys, Proper (found key))

include hapart hproper

theorem Agrees.perform {engine : SharedEngine δ} {engine' : StorageEngine Log}
    (h : Agrees settings keys found engine engine') {call : EngineCall} (hkey : call.key ∈ keys) :
    (engine.perform settings call).1
        = (engine'.perform (fileLogs found settings.maxSegmentSize settings.syncBatchSize) call).1 ∧
      Agrees settings keys found (engine.perform settings call).2
        (engine'.perform (fileLogs found settings.maxSegmentSize settings.syncBatchSize)
          call).2 := by
  cases call with
  | append topic partition message =>
    obtain ⟨hoffset, hagrees⟩ := h.append hapart hkey (hproper _ hkey) message
    exact ⟨congrArg Log.Answer.offset hoffset, hagrees⟩
  | fetch topic partition offset =>
    obtain ⟨hrecord, hagrees⟩ := h.fetch hapart hkey offset
    exact ⟨congrArg Log.Answer.record hrecord, hagrees⟩

theorem Agrees.answers {engine : SharedEngine δ} {engine' : StorageEngine Log}
    (h : Agrees settings keys found engine engine') (hkeys : ∀ call ∈ calls, call.key ∈ keys) :
    engine.answers settings calls
      = engine'.answers (fileLogs found settings.maxSegmentSize settings.syncBatchSize) calls := by
  induction calls generalizing engine engine' with
  | nil => rfl
  | cons call calls ih =>
    rw [List.forall_mem_cons] at hkeys
    obtain ⟨hanswer, hagrees⟩ := h.perform hapart hproper hkeys.1
    exact congrArg₂ List.cons hanswer (ih hagrees hkeys.2)

end Runs

/-- **Separate directories.** On keys with different directories, an engine that starts on a
    disk answers every sequence of calls as the engine does that gives each key a directory of
    its own, with the files that are found on the disk. -/
theorem answers_eq_answers {δ : Type} [DecidableEq δ] {settings : EngineSettings δ}
    {keys : Set Bytes} (hapart : Set.InjOn settings.directory keys) {disk : δ → List File}
    (hproper : ∀ key ∈ keys, Proper (disk (settings.directory key)))
    (hkeys : ∀ call ∈ calls, call.key ∈ keys) :
    SharedEngine.answers settings { disk := disk } calls
      = StorageEngine.answers (fileLogs (fun key => disk (settings.directory key))
          settings.maxSegmentSize settings.syncBatchSize) {} calls := by
  have hstart : Agrees settings keys (fun key => disk (settings.directory key))
      { disk := disk } {} := fun _ _ => .unopened
  exact hstart.answers hapart hproper hkeys

end SharedEngine

/-! ### Topics without slashes -/

/-- The engine of a broker that was started in the directory `cwd`. -/
def engineSettings (cwd : List Bytes) (dataDirectory : Bytes) (maxSegmentSize syncBatchSize : Nat)
    (buffers : Nat → Bool) : EngineSettings (List Bytes) where
  directory := fun key => Path.resolve cwd (logDirectoryForKey dataDirectory key)
  maxSegmentSize := maxSegmentSize
  syncBatchSize := syncBatchSize
  buffers := buffers

/-- A stream keeps the eight bytes of the length and a short message in its buffer.  How long a
    message may be depends on the library: below 1024 bytes it is kept by all of them. -/
def fitsBuffer (length : Nat) : Bool := decide (length < 1024)

/-- The keys of the topics that are names, as long as a directory can have the key for its
    name: names have at most 255 bytes and no NUL.  For other keys `append` throws. -/
def plainKeys : Set Bytes :=
  { key | ∃ topic partition, topic ≠ [] ∧ Path.slash ∉ topic ∧ (0 : Int) ≤ partition ∧
    key = makeKey topic partition ∧ key.length ≤ 255 ∧ 0 ∉ key }

theorem topicParent_of_plain {topic : Bytes} (h : Path.slash ∉ topic) (data : List Bytes) :
    topicParent data topic = data ∧ topicName topic = topic := by
  have hsplit : Path.split topic = ([], topic) := @Path.split_append [] topic h
  have hrelative : Path.isAbsolute topic = false := by
    cases topic with
    | nil => rfl
    | cons byte topic =>
      have hbyte : byte ≠ Path.slash := fun heq => h (heq ▸ List.mem_cons_self)
      simpa [Path.isAbsolute] using hbyte
  unfold topicParent topicName
  rw [hsplit, hrelative]
  exact ⟨rfl, rfl⟩

theorem injOn_plainKeys (cwd : List Bytes) (dataDirectory : Bytes)
    (maxSegmentSize syncBatchSize : Nat) (buffers : Nat → Bool) :
    Set.InjOn (engineSettings cwd dataDirectory maxSegmentSize syncBatchSize buffers).directory
      plainKeys := by
  rintro _ ⟨topic, partition, htopic, hplain, hp, rfl, -, -⟩ _
    ⟨topic', partition', htopic', hplain', hp', rfl, -, -⟩ hdir
  obtain ⟨-, hname, hpartition⟩ := (logDirectory_eq_iff htopic htopic' hp hp').mp hdir
  rw [(topicParent_of_plain hplain []).2, (topicParent_of_plain hplain' []).2] at hname
  rw [hname, hpartition]

/-- **Topics that are names.** For them the model that gives each key a directory of its own
    is exact: an engine on one disk answers every sequence of calls as that one does. -/
theorem answers_of_plainKeys (cwd : List Bytes) (dataDirectory : Bytes)
    (maxSegmentSize syncBatchSize : Nat) (buffers : Nat → Bool) {disk : List Bytes → List File}
    (hproper : ∀ directory, SharedEngine.Proper (disk directory))
    (hplain : ∀ call ∈ calls, call.key ∈ plainKeys) :
    SharedEngine.answers (engineSettings cwd dataDirectory maxSegmentSize syncBatchSize buffers)
        { disk := disk } calls
      = StorageEngine.answers (fileLogs
          (fun key => disk (Path.resolve cwd (logDirectoryForKey dataDirectory key)))
          maxSegmentSize syncBatchSize) {} calls :=
  SharedEngine.answers_eq_answers
    (injOn_plainKeys cwd dataDirectory maxSegmentSize syncBatchSize buffers)
    (fun _ _ => hproper _) hplain

/-! ### Down to messages -/

/-- The messages that a log finds in a directory: the records of the segments, and then what
    the WAL adds. -/
def Log.foundIn (directory : List File) : List Bytes :=
  replay ((segmentPaths directory).flatMap (fun f => LogSegment.records.scan f.contents))
    (walEntries.scan (walContents directory))

theorem Log.construct_stores (directory : List File) (maxSegmentSize syncBatchSize : Nat) :
    (construct directory maxSegmentSize syncBatchSize).Stores (foundIn directory) :=
  constructFrom_stores _ _ _ _

/-- The length of the message fits into the header of its record. -/
def EngineCall.Fits : EngineCall → Prop
  | .append _ _ message => message.length < 2 ^ 64
  | .fetch .. => True

namespace StorageEngine

section Messages

variable (directories : Bytes → List File) (maxSegmentSize syncBatchSize : Nat)
  {engine : StorageEngine Log} {store : StorageEngine (List Bytes)}

/-- **One call** on an engine over files is one on an engine over messages. -/
theorem Simulates.perform (h : engine.Simulates Log.Stores store) {call : EngineCall}
    (hfits : call.Fits) :
    let ops := fileLogs directories maxSegmentSize syncBatchSize
    let ops' := messageLogs (fun key => Log.foundIn (directories key))
    (engine.perform ops call).1 = (store.perform ops' call).1 ∧
      (engine.perform ops call).2.Simulates Log.Stores (store.perform ops' call).2 := by
  intro ops ops'
  cases call with
  | append topic partition message =>
    have hopen : ∀ key, (ops.openLog key).Stores (Log.foundIn (directories key)) :=
      fun key => Log.construct_stores _ _ _
    obtain ⟨hoffset, hsim⟩ := append_simulates hopen h topic partition hfits
    exact ⟨congrArg Log.Answer.offset hoffset, hsim⟩
  | fetch topic partition offset =>
    exact ⟨congrArg Log.Answer.record (fetch_simulates h topic partition offset), h⟩

/-- **A sequence of calls.** -/
theorem Simulates.answers (h : engine.Simulates Log.Stores store)
    (hfits : ∀ call ∈ calls, call.Fits) :
    engine.answers (fileLogs directories maxSegmentSize syncBatchSize) calls
      = store.answers (messageLogs (fun key => Log.foundIn (directories key))) calls := by
  induction calls generalizing engine store with
  | nil => rfl
  | cons call calls ih =>
    rw [List.forall_mem_cons] at hfits
    obtain ⟨hanswer, hsim⟩ := h.perform directories maxSegmentSize syncBatchSize hfits.1
    exact congrArg₂ List.cons hanswer (ih hsim hfits.2)

end Messages

end StorageEngine

/-- **Segments, index, WAL and buffers cannot be seen.**  For topics that are names, an engine
    on one disk answers every sequence of calls as a map from keys to lists of messages does,
    where an append opens a list with the messages that are found in its directory. -/
theorem answers_eq_messages (cwd : List Bytes) (dataDirectory : Bytes)
    (maxSegmentSize syncBatchSize : Nat) (buffers : Nat → Bool) {disk : List Bytes → List File}
    (hproper : ∀ directory, SharedEngine.Proper (disk directory)) {calls : List EngineCall}
    (hplain : ∀ call ∈ calls, call.key ∈ plainKeys) (hfits : ∀ call ∈ calls, call.Fits) :
    SharedEngine.answers (engineSettings cwd dataDirectory maxSegmentSize syncBatchSize buffers)
        { disk := disk } calls
      = StorageEngine.answers (messageLogs (fun key =>
          Log.foundIn (disk (Path.resolve cwd (logDirectoryForKey dataDirectory key))))) {}
          calls := by
  have hstart : StorageEngine.Simulates Log.Stores {} {} := .nil
  rw [answers_of_plainKeys cwd dataDirectory maxSegmentSize syncBatchSize buffers hproper hplain]
  exact hstart.answers _ _ _ hfits

/-- Two appends to one partition, one to another, and three fetches, on an empty disk. -/
theorem answers_eq_messages_two :
    SharedEngine.answers (engineSettings [] [100] 16 2 (fun _ => true)) { disk := fun _ => [] }
        [.append [116] 0 [65], .append [116] 1 [66], .append [116] 0 [67], .fetch [116] 0 1,
          .fetch [116] 1 0, .fetch [117] 0 0]
      = [.offset 0, .offset 0, .offset 1, .record (.ok [67]), .record (.ok [66]),
          .record (.error (.invalidArgument "KEY NOT FOUND"))] := by
  have hplain : ∀ topic ∈ ([[116], [117]] : List Bytes), ∀ partition ∈ ([0, 1] : List Int),
      makeKey topic partition ∈ plainKeys := by
    intro topic htopic partition hpartition
    refine ⟨topic, partition, ?_, ?_, ?_, rfl, ?_, ?_⟩ <;> revert topic partition <;> decide
  have hempty : ∀ directory : List Bytes,
      SharedEngine.Proper ((fun _ => [] : List Bytes → List File) directory) :=
    fun _ => ⟨List.nodup_nil, .refl _⟩
  rw [answers_eq_messages [] [100] 16 2 (fun _ => true) hempty]
  · decide +kernel
  · simp [EngineCall.key, hplain]
  · simp [EngineCall.Fits]

end StreamingPlatform
