import StreamingPlatform.Storage.Reopen

namespace StreamingPlatform

open ByteString

/-!
# Storage — the engine over all topic-partitions (`storage_engine.cpp`)

The engine keeps one log for each key `topic-partition`, opened on first use.  Its code
only calls `append` and `fetch` on logs, so it is modelled over any implementation of
these (`LogOps`) and instantiated twice: over the segment files (`fileLogs`), which is
the code, and over plain lists of messages (`messageLogs`), which is what the rest of the
development reasons about.  `Simulates` carries answers from one to the other: an engine
over files answers every call as the engine over lists does (`append_simulates`,
`fetch_simulates`).

The directories of different keys are taken to be different directories.  For the topics
that are names this is exact (`answers_of_plainKeys` in `Storage/SeparateDirectories`).
-/

/-- What the engine needs of a log: open the one of a key, append, fetch. -/
structure LogOps (L : Type) where
  openLog : Bytes → L
  append : L → Bytes → Nat × L
  fetch : L → Nat → Except StdException Bytes

/-- The logs of segment files.  `directories` is what the log directories contain before
    they are opened. -/
def fileLogs (directories : Bytes → List File) (maxSegmentSize syncBatchSize : Nat) :
    LogOps Log where
  openLog := fun key => Log.construct (directories key) maxSegmentSize syncBatchSize
  append := Log.append
  fetch := Log.fetch

/-- Logs that are lists of messages.  `disk` is what is found when a log is opened.  Each key has
    a log of its own here, also where two keys have one directory. -/
def messageLogs (disk : Bytes → List Bytes) : LogOps (List Bytes) where
  openLog := disk
  append := fun ms m => (ms.length, ms ++ [m])
  fetch := Log.listFetch

/-- `StorageEngine::make_key`, and `ReplicationManager::make_log_key` as well. -/
def makeKey (topic : Bytes) (partition : Int) : Bytes :=
  topic ++ ofString "-" ++ decimalInt partition

/-- Digits hold no `-`, so the last `-` of a key splits it. -/
theorem makeKey_injective {topic topic' : Bytes} {partition partition' : Int}
    (hp : 0 ≤ partition) (hp' : 0 ≤ partition')
    (h : makeKey topic partition = makeKey topic' partition') :
    topic = topic' ∧ partition = partition' := by
  obtain ⟨n, rfl⟩ := Int.eq_ofNat_of_zero_le hp
  obtain ⟨n', rfl⟩ := Int.eq_ofNat_of_zero_le hp'
  have heq : topic ++ 45 :: decimal n = topic' ++ 45 :: decimal n' := by
    have h' : topic ++ [45] ++ decimal n = topic' ++ [45] ++ decimal n' := h
    simpa using h'
  obtain ⟨htopic, hpartition⟩ := append_decimal_injective (by decide) heq
  exact ⟨htopic, congrArg Int.ofNat hpartition⟩

/-- `std::isspace` in the C locale. -/
def isSpace (byte : UInt8) : Bool := byte == 32 || (9 ≤ byte && byte ≤ 13)

/-- `std::isdigit`. -/
def isDigit (byte : UInt8) : Bool := 48 ≤ byte && byte ≤ 57

/-- `std::stoi`: leading blanks, an optional sign, at least one digit, anything after;
    `none` stands for the exception when there is no digit or the value is not an
    `int`. -/
def stoi (s : Bytes) : Option Int :=
  let s := s.dropWhile isSpace
  let negative := s.head? == some 45
  let s := if s.head? == some 45 || s.head? == some 43 then s.drop 1 else s
  let digits := s.takeWhile isDigit
  let magnitude : Nat := digits.foldl (fun v byte => v * 10 + (byte.toNat - 48)) 0
  let value : Int := if negative then -magnitude else magnitude
  if digits = [] then none
  else if -2 ^ 31 ≤ value ∧ value < 2 ^ 31 then some value
  else none

/-- What is found in a map after the value of a key was replaced. -/
theorem lookup_replace {L : Type} (logs : List (Bytes × L)) (key : Bytes) (log : L)
    (key' : Bytes) :
    (logs.map (fun entry => if entry.1 = key then (key, log) else entry)).lookup key'
      = if key' = key then (logs.lookup key).map (fun _ => log) else logs.lookup key' := by
  induction logs with
  | nil => simp
  | cons entry logs ih =>
    rw [List.map_cons, List.lookup_cons, List.lookup_cons, List.lookup_cons, ih]
    by_cases hentry : entry.1 = key
    · simp only [hentry, if_true]
      by_cases hkey : key' = key
      · simp [hkey]
      · simp [hkey, beq_eq_false_iff_ne.mpr hkey]
    · simp only [hentry, if_false]
      by_cases hkey : key' = key
      · simp [hkey, beq_eq_false_iff_ne.mpr (Ne.symm hentry)]
      · simp [hkey]

/-- What is found in a map after a key was added. -/
theorem lookup_concat {L : Type} {logs : List (Bytes × L)} {key : Bytes} (log : L)
    (hnew : logs.lookup key = none) (key' : Bytes) :
    (logs ++ [(key, log)]).lookup key'
      = if key' = key then some log else logs.lookup key' := by
  rw [List.lookup_append]
  by_cases hkey : key' = key
  · simp [hkey, hnew]
  · cases hother : logs.lookup key' with
    | some _ => simp [hkey]
    | none => simp [hkey, List.lookup_cons, beq_eq_false_iff_ne.mpr hkey]

/-- `StorageEngine`: the open logs by key, in the order of their creation. -/
structure StorageEngine (L : Type) where
  logs : List (Bytes × L) := []
  deriving DecidableEq, Repr

namespace StorageEngine

variable {L : Type}

/-- `logs_.find(key)`. -/
def find? (engine : StorageEngine L) (key : Bytes) : Option L := engine.logs.lookup key

/-- `StorageEngine::get_or_create_log`. -/
def getOrCreateLog (ops : LogOps L) (engine : StorageEngine L) (key : Bytes) :
    L × StorageEngine L :=
  match engine.find? key with
  | some log => (log, engine)
  | none => (ops.openLog key, ⟨engine.logs ++ [(key, ops.openLog key)]⟩)

/-- Store the changed log of a key that exists. -/
def setLog (engine : StorageEngine L) (key : Bytes) (log : L) : StorageEngine L :=
  ⟨engine.logs.map (fun entry => if entry.1 = key then (key, log) else entry)⟩

/-- `StorageEngine::append`. -/
def append (ops : LogOps L) (engine : StorageEngine L) (topic : Bytes) (partition : Int)
    (message : Bytes) : Nat × StorageEngine L :=
  let key := makeKey topic partition
  let (log, engine) := engine.getOrCreateLog ops key
  let (offset, log) := ops.append log message
  (offset, engine.setLog key log)

/-- Appends, one after the other. -/
def appendAll (ops : LogOps L) (engine : StorageEngine L) :
    List (Bytes × Int × Bytes) → StorageEngine L
  | [] => engine
  | (topic, partition, message) :: appends =>
    appendAll ops (engine.append ops topic partition message).2 appends

/-- `StorageEngine::fetch`. -/
def fetch (ops : LogOps L) (engine : StorageEngine L) (topic : Bytes) (partition : Int)
    (offset : Nat) : Except StdException Bytes :=
  match engine.find? (makeKey topic partition) with
  | none => .error (.invalidArgument "KEY NOT FOUND")
  | some log => ops.fetch log offset

/-- `StorageEngine::has_log`. -/
def hasLog (engine : StorageEngine L) (topic : Bytes) (partition : Int) : Bool :=
  (engine.find? (makeKey topic partition)).isSome

/-- `StorageEngine::partitions_for_topic`. -/
def partitionsForTopic (engine : StorageEngine L) (topic : Bytes) : List Int :=
  let pre := topic ++ ofString "-"
  let partitions := (engine.logs.map Prod.fst).filterMap (fun key =>
    if pre.isPrefixOf key then stoi (key.drop pre.length) else none)
  partitions.insertionSort (· ≤ ·)

/-! ### The log of a key -/

section Find

variable {engine : StorageEngine L} {key : Bytes}

theorem find?_setLog {old : L} (h : engine.find? key = some old) (log : L) (key' : Bytes) :
    (engine.setLog key log).find? key' = if key' = key then some log else engine.find? key' := by
  have hlookup : engine.logs.lookup key = some old := h
  show (engine.logs.map _).lookup key' = _
  rw [lookup_replace, hlookup]
  rfl

theorem find?_getOrCreateLog (ops : LogOps L) (key' : Bytes) :
    (engine.getOrCreateLog ops key).2.find? key'
      = if key' = key then some (engine.getOrCreateLog ops key).1 else engine.find? key' := by
  unfold getOrCreateLog
  cases h : engine.find? key with
  | some log =>
    by_cases hkey : key' = key
    · rw [if_pos hkey, hkey]
      exact h
    · rw [if_neg hkey]
  | none => exact lookup_concat _ h key'

theorem append_snd (ops : LogOps L) (topic : Bytes) (partition : Int) (message : Bytes) :
    (engine.append ops topic partition message).2
      = (engine.getOrCreateLog ops (makeKey topic partition)).2.setLog (makeKey topic partition)
          (ops.append (engine.getOrCreateLog ops (makeKey topic partition)).1 message).2 := rfl

/-- An append changes the log of its key and of no other. -/
theorem find?_append_ops (ops : LogOps L) (topic : Bytes) (partition : Int)
    (message key' : Bytes) :
    (engine.append ops topic partition message).2.find? key'
      = if key' = makeKey topic partition
        then some (ops.append (engine.getOrCreateLog ops (makeKey topic partition)).1 message).2
        else engine.find? key' := by
  have hself : (engine.getOrCreateLog ops (makeKey topic partition)).2.find?
      (makeKey topic partition) = some _ := (find?_getOrCreateLog ops _).trans (if_pos rfl)
  rw [append_snd, find?_setLog hself]
  by_cases hkey : key' = makeKey topic partition
  · rw [if_pos hkey, if_pos hkey]
  · rw [if_neg hkey, if_neg hkey, find?_getOrCreateLog, if_neg hkey]

end Find

/-! ### Engines over simulated logs -/

/-- The logs of two engines are opened in the same order under the same keys and are
    related one by one. -/
def Simulates {L' : Type} (R : L → L' → Prop) (engine : StorageEngine L)
    (engine' : StorageEngine L') : Prop :=
  List.Forall₂ (fun e e' => e.1 = e'.1 ∧ R e.2 e'.2) engine.logs engine'.logs

section Simulates

variable {L' : Type} {R : L → L' → Prop} {engine : StorageEngine L} {engine' : StorageEngine L'}

theorem Simulates.find? (h : engine.Simulates R engine') (key : Bytes) :
    Option.Rel R (engine.find? key) (engine'.find? key) := by
  obtain ⟨logs⟩ := engine
  obtain ⟨logs'⟩ := engine'
  show Option.Rel R (logs.lookup key) (logs'.lookup key)
  change List.Forall₂ _ logs logs' at h
  induction h with
  | nil => exact .none
  | @cons e e' _ _ hhead _ ih =>
    obtain ⟨hkey, hR⟩ := hhead
    rw [List.lookup_cons, List.lookup_cons, hkey]
    split
    · exact .some hR
    · exact ih

theorem Simulates.getOrCreateLog (h : engine.Simulates R engine') (ops : LogOps L)
    (ops' : LogOps L') (hopen : ∀ key, R (ops.openLog key) (ops'.openLog key)) (key : Bytes) :
    R (engine.getOrCreateLog ops key).1 (engine'.getOrCreateLog ops' key).1 ∧
      (engine.getOrCreateLog ops key).2.Simulates R (engine'.getOrCreateLog ops' key).2 := by
  unfold StorageEngine.getOrCreateLog
  have hfind := h.find? key
  generalize engine.find? key = log at hfind ⊢
  generalize engine'.find? key = log' at hfind ⊢
  cases hfind with
  | none => exact ⟨hopen key, List.rel_append h (.cons ⟨rfl, hopen key⟩ .nil)⟩
  | some hR => exact ⟨hR, h⟩

theorem Simulates.setLog (h : engine.Simulates R engine') {log : L} {log' : L'} (hR : R log log')
    (key : Bytes) : (engine.setLog key log).Simulates R (engine'.setLog key log') := by
  unfold Simulates StorageEngine.setLog
  rw [List.forall₂_map_left_iff, List.forall₂_map_right_iff]
  refine List.Forall₂.imp ?_ h
  rintro e e' ⟨hkey, hlog⟩
  rw [hkey]
  split
  · exact ⟨rfl, hR⟩
  · exact ⟨hkey, hlog⟩

/-- Logs that are opened in related states and stay related under an append give related
    engines and the same offset. -/
theorem Simulates.append (h : engine.Simulates R engine') (ops : LogOps L) (ops' : LogOps L')
    (hopen : ∀ key, R (ops.openLog key) (ops'.openLog key)) {message : Bytes}
    (happend : ∀ log log', R log log' → (ops.append log message).1 = (ops'.append log' message).1 ∧
      R (ops.append log message).2 (ops'.append log' message).2)
    (topic : Bytes) (partition : Int) :
    (engine.append ops topic partition message).1
        = (engine'.append ops' topic partition message).1 ∧
      (engine.append ops topic partition message).2.Simulates R
        (engine'.append ops' topic partition message).2 := by
  obtain ⟨hR, hsim⟩ := h.getOrCreateLog ops ops' hopen (makeKey topic partition)
  obtain ⟨hoff, hst⟩ := happend _ _ hR
  exact ⟨hoff, hsim.setLog hst _⟩

/-- Related logs that answer alike make engines that answer alike. -/
theorem Simulates.fetch (h : engine.Simulates R engine') (ops : LogOps L) (ops' : LogOps L')
    {offset : Nat} (hfetch : ∀ log log', R log log' → ops.fetch log offset = ops'.fetch log' offset)
    (topic : Bytes) (partition : Int) :
    engine.fetch ops topic partition offset = engine'.fetch ops' topic partition offset := by
  unfold StorageEngine.fetch
  have hfind := h.find? (makeKey topic partition)
  generalize engine.find? (makeKey topic partition) = log at hfind ⊢
  generalize engine'.find? (makeKey topic partition) = log' at hfind ⊢
  cases hfind with
  | none => rfl
  | some hR => exact hfetch _ _ hR

end Simulates

/-! ### The engine over files answers as the engine over messages -/

section Messages

variable {directories : Bytes → List File} {maxSegmentSize syncBatchSize : Nat}
  {disk : Bytes → List Bytes} {engine : StorageEngine Log} {store : StorageEngine (List Bytes)}

/-- **Append.** -/
theorem append_simulates
    (hopen : ∀ key,
      Log.Stores ((fileLogs directories maxSegmentSize syncBatchSize).openLog key) (disk key))
    (h : engine.Simulates Log.Stores store) (topic : Bytes) (partition : Int) {message : Bytes}
    (hm : message.length < 2 ^ 64) :
    (engine.append (fileLogs directories maxSegmentSize syncBatchSize) topic partition message).1
        = (store.append (messageLogs disk) topic partition message).1 ∧
      (engine.append (fileLogs directories maxSegmentSize syncBatchSize) topic partition
        message).2.Simulates Log.Stores
        (store.append (messageLogs disk) topic partition message).2 := by
  have hvalid : LogSegment.records.Valid message := by
    show message.length < 256 ^ 8
    omega
  exact h.append _ _ hopen (fun _ _ hst => hst.append hvalid) topic partition

/-- **Fetch.** -/
theorem fetch_simulates (h : engine.Simulates Log.Stores store) (topic : Bytes) (partition : Int)
    (offset : Nat) :
    engine.fetch (fileLogs directories maxSegmentSize syncBatchSize) topic partition offset
      = store.fetch (messageLogs disk) topic partition offset :=
  h.fetch _ _ (fun _ _ hst => hst.fetch_eq offset) topic partition

end Messages

end StorageEngine

end StreamingPlatform
