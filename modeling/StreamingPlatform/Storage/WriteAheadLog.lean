import StreamingPlatform.Storage.LogLoading

namespace StreamingPlatform

open ByteString

/-!
# Storage — the write-ahead log and its replay

`append.wal` is a self-delimiting format as well: `walEntries` packages `write_wal` and
the reads of `recover_wal` with their round trip.  On the message list, `recover_wal` is
`replay`: an entry is appended exactly when its offset is the next one.  The constructor
is then described completely by `constructFrom_stores`: scan the segment files in the
order of the visit, replay the scanned WAL on top.
-/

open LogSegment (records)

namespace Log

/-! ### The format of the WAL -/

@[simp] theorem length_walEntry (offset : Nat) (m : Bytes) :
    (walEntry offset m).length = 16 + m.length := by
  simp only [walEntry, List.length_append, length_putLE]
  omega

variable {a n offset : Nat} {b m : Bytes} {ms : List Bytes} {log : Log}

/-- An entry is read as it was written. -/
theorem readWalEntry_walEntry {offset : Nat} {m : Bytes} (ho : offset < 2 ^ 64)
    (hm : m.length ≤ kMaxWalMessage) (rest : Bytes) :
    readWalEntry (walEntry offset m ++ rest) = some ((offset, m), rest) := by
  have hlen : (walEntry offset m ++ rest).length = 16 + m.length + rest.length := by simp
  have htake : (walEntry offset m ++ rest).take 8 = putLE 8 offset := by
    rw [walEntry, List.append_assoc, List.take_left' (length_putLE 8 _)]
  have hdrop : (walEntry offset m ++ rest).drop 8 = putPrefixed 8 m ++ rest := by
    rw [walEntry, List.append_assoc, List.drop_left' (length_putLE 8 _)]
    rfl
  have htake' : (putPrefixed 8 m ++ rest).take 8 = putLE 8 m.length := by
    rw [putPrefixed, List.append_assoc, List.take_left' (length_putLE 8 _)]
  have hdrop' : (putPrefixed 8 m ++ rest).drop 8 = m ++ rest := by
    rw [putPrefixed, List.append_assoc, List.drop_left' (length_putLE 8 _)]
  have hoff : valueLE (putLE 8 offset) = offset := by
    rw [valueLE_putLE]; exact Nat.mod_eq_of_lt (by omega)
  have hsize : valueLE (putLE 8 m.length) = m.length := by
    rw [valueLE_putLE]
    refine Nat.mod_eq_of_lt ?_
    unfold kMaxWalMessage at hm
    omega
  rw [readWalEntry, if_neg (by omega)]
  simp only [htake, hdrop, htake', hoff, hsize]
  rw [if_neg (by simp; omega), if_neg (by omega), if_neg (by simp; omega), hdrop', ← List.drop_drop,
    hdrop', List.take_left' rfl, List.drop_left' rfl]

/-- An entry whose message is longer than 16 MiB is not read back, nor is a part of it. -/
theorem readWalEntry_refused (hm : kMaxWalMessage < m.length) (hlt : m.length < 2 ^ 64)
    (hb : b <+: walEntry offset m ∨ walEntry offset m <+: b) : readWalEntry b = none := by
  rw [readWalEntry]
  by_cases hoffset : b.length < 8
  · rw [if_pos hoffset]
  by_cases hheader : b.length < 16
  · rw [if_neg hoffset]
    exact if_pos (by rw [List.length_drop]; omega)
  -- offset and length are there, and the length is refused
  have htake : b.take 16 = (walEntry offset m).take 16 := by
    rcases hb with ⟨rest, hrest⟩ | ⟨rest, hrest⟩
    · rw [← hrest, List.take_append_of_le_length (by omega)]
    · rw [← hrest, List.take_append_of_le_length (by rw [length_walEntry]; omega)]
  have hsize : valueLE ((b.drop 8).take 8) = m.length := by
    rw [List.take_drop, htake, walEntry, List.take_append, List.take_of_length_le (by simp),
      length_putLE, List.take_left' (length_putLE 8 _), List.drop_left' (length_putLE 8 _),
      valueLE_putLE]
    exact Nat.mod_eq_of_lt (by omega)
  rw [if_neg hoffset]
  simp only [hsize]
  rw [if_neg (by rw [List.length_drop]; omega), if_pos hm]

/-- An entry that was cut short is not read. -/
theorem readWalEntry_cut (hm : m.length ≤ kMaxWalMessage) {c : Nat}
    (hc : c < (walEntry offset m).length) : readWalEntry ((walEntry offset m).take c) = none := by
  have hlen : ((walEntry offset m).take c).length = c := by
    rw [List.length_take, Nat.min_eq_left hc.le]
  rw [length_walEntry] at hc
  unfold readWalEntry
  -- the cut is in the offset, in the length or in the message
  by_cases h₁ : c < 8
  · rw [hlen, if_pos h₁]
  · have hdrop : ((walEntry offset m).take c).drop 8 = (putPrefixed 8 m).take (c - 8) := by
      rw [List.drop_take, walEntry, List.drop_left' (length_putLE 8 _)]
      rfl
    have hlen' : ((putPrefixed 8 m).take (c - 8)).length = c - 8 := by
      rw [List.length_take, length_putPrefixed, Nat.min_eq_left (by omega)]
    rw [hlen, if_neg h₁]
    simp only [hdrop, hlen']
    by_cases h₂ : c - 8 < 8
    · rw [if_pos h₂]
    · have hsize : valueLE (((putPrefixed 8 m).take (c - 8)).take 8) = m.length := by
        rw [List.take_take, Nat.min_eq_left (by omega), putPrefixed,
          List.take_left' (length_putLE 8 _), valueLE_putLE]
        refine Nat.mod_eq_of_lt ?_
        unfold kMaxWalMessage at hm
        omega
      rw [if_neg h₂, hsize, if_neg (by omega), if_pos (by omega)]

/-- Whatever is read was written so. -/
theorem readWalEntry_sound {rest : Bytes} {e : Nat × Bytes} (h : readWalEntry b = some (e, rest)) :
    b = walEntry e.1 e.2 ++ rest ∧ e.1 < 2 ^ 64 ∧ e.2.length ≤ kMaxWalMessage := by
  unfold readWalEntry at h
  by_cases h₁ : b.length < 8
  · rw [if_pos h₁] at h
    exact absurd h (by simp)
  rw [if_neg h₁] at h
  by_cases h₂ : (b.drop 8).length < 8
  · simp only [if_pos h₂] at h
    exact absurd h (by simp)
  by_cases h₃ : valueLE ((b.drop 8).take 8) > kMaxWalMessage
  · simp only [if_neg h₂, if_pos h₃] at h
    exact absurd h (by simp)
  by_cases h₄ : (b.drop 8).length - 8 < valueLE ((b.drop 8).take 8)
  · simp only [if_neg h₂, if_neg h₃, if_pos h₄] at h
    exact absurd h (by simp)
  -- all checks passed: what was read is what the encoding would write
  simp only [if_neg h₂, if_neg h₃, if_neg h₄, Option.some.injEq, Prod.mk.injEq] at h
  obtain ⟨rfl, rfl⟩ := h
  have hpre : getPrefixed 8 (b.drop 8)
      = some (((b.drop 8).drop 8).take (valueLE ((b.drop 8).take 8)),
          (b.drop 8).drop (8 + valueLE ((b.drop 8).take 8))) := by
    rw [getPrefixed, if_neg h₂]
    simp only [if_neg h₄]
  obtain ⟨hb, -⟩ := getPrefixed_sound hpre
  have htl : (b.take 8).length = 8 := by rw [List.length_take]; omega
  have hput : putLE 8 (valueLE (b.take 8)) = b.take 8 := by
    have := putLE_valueLE (b.take 8)
    rwa [htl] at this
  refine ⟨?_, ?_, ?_⟩
  · show b = (putLE 8 (valueLE (b.take 8)) ++ putPrefixed 8 _) ++ _
    rw [List.append_assoc, ← hb, hput, List.take_append_drop]
  · have := valueLE_lt (b.take 8)
    rw [htl] at this
    show valueLE (b.take 8) < 2 ^ 64
    omega
  · show (((b.drop 8).drop 8).take _).length ≤ _
    rw [List.length_take]
    omega

/-- `recover_wal` takes no message longer than 16 MiB, so it fits a record. -/
theorem valid_of_readWalEntry {rest : Bytes} {e : Nat × Bytes}
    (h : readWalEntry b = some (e, rest)) : records.Valid e.2 := by
  obtain ⟨-, -, hmax⟩ := readWalEntry_sound h
  show e.2.length < 256 ^ 8
  unfold kMaxWalMessage at hmax
  omega

/-- The WAL as a format: an entry is an offset and a message. -/
def walEntries : Format (Nat × Bytes) where
  enc := fun e => walEntry e.1 e.2
  dec := readWalEntry
  Valid := fun e => e.1 < 2 ^ 64 ∧ e.2.length ≤ kMaxWalMessage
  enc_pos := by intro e; rw [length_walEntry]; omega
  dec_enc := fun _ rest h => readWalEntry_walEntry h.1 h.2 rest
  dec_cut := fun _ _ h hc => readWalEntry_cut h.2 hc
  dec_sound := fun _ _ _ h => readWalEntry_sound h

/-- Whatever messages the entries of a WAL have and wherever it is cut, what is read back is
    an initial part of the entries. -/
theorem scan_take_walEntries {es : List (Nat × Bytes)}
    (hes : ∀ e ∈ es, e.1 < 2 ^ 64 ∧ e.2.length < 2 ^ 64) (c : Nat) :
    walEntries.scan ((walEntries.encAll es).take c) <+: es := by
  refine walEntries.scan_take_prefix c es (fun e he => ?_)
  obtain ⟨hoff, hlen⟩ := hes e he
  by_cases hmax : e.2.length ≤ kMaxWalMessage
  · exact .inl ⟨hoff, hmax⟩
  · have hdec : walEntries.dec = readWalEntry := rfl
    refine .inr (fun b hb => ?_)
    rw [hdec, readWalEntry_refused (Nat.lt_of_not_le hmax) hlen hb]

/-- Only the low 64 bits of an offset reach the WAL. -/
theorem walEntry_mod (offset : Nat) (m : Bytes) :
    walEntry (offset % 2 ^ 64) m = walEntry offset m := by
  have hput : putLE 8 (offset % 2 ^ 64) = putLE 8 offset := by
    have h := putLE_valueLE (putLE 8 offset)
    rwa [length_putLE, valueLE_putLE] at h
  rw [walEntry, walEntry, hput]

/-! ### Replay -/

/-- The effect of `recover_wal` on the messages: an entry whose offset is the next one
    is appended, any other is skipped. -/
def replay (ms : List Bytes) : List (Nat × Bytes) → List Bytes
  | [] => ms
  | e :: es => replay (if e.1 = ms.length % 2 ^ 64 then ms ++ [e.2] else ms) es

/-- Replay only adds. -/
theorem prefix_replay (ms : List Bytes) (es : List (Nat × Bytes)) : ms <+: replay ms es := by
  induction es generalizing ms with
  | nil => exact List.prefix_refl ms
  | cons e es ih =>
    refine List.IsPrefix.trans ?_ (ih _)
    split
    · exact List.prefix_append _ _
    · exact List.prefix_refl ms

/-- The WAL entries of the messages from number `a` on, `n` of them. -/
def entriesFrom (ms : List Bytes) (a n : Nat) : List (Nat × Bytes) :=
  (List.range' a n).map (fun i => (i % 2 ^ 64, ms.getD i []))

@[simp] theorem length_entriesFrom (ms : List Bytes) (a n : Nat) :
    (entriesFrom ms a n).length = n := by
  simp [entriesFrom]

theorem entriesFrom_succ (ms : List Bytes) (a n : Nat) :
    entriesFrom ms a (n + 1) = (a % 2 ^ 64, ms.getD a []) :: entriesFrom ms (a + 1) n := by
  rw [entriesFrom, List.range'_succ, List.map_cons]
  rfl

/-- An initial part of the entries is the entries of fewer messages. -/
theorem take_entriesFrom (ms : List Bytes) (a n k : Nat) (hk : k ≤ n) :
    (entriesFrom ms a n).take k = entriesFrom ms a k := by
  rw [entriesFrom, ← List.map_take, List.take_range'_of_length_ge hk]
  rfl

/-- One more message, one more entry. -/
theorem entriesFrom_concat (h : a + n = ms.length) (m : Bytes) :
    entriesFrom (ms ++ [m]) a (n + 1) = entriesFrom ms a n ++ [(ms.length % 2 ^ 64, m)] := by
  unfold entriesFrom
  rw [List.range'_concat, List.map_append, List.map_singleton, Nat.one_mul, h]
  congr 1
  · refine List.map_congr_left (fun i hi => ?_)
    have hlt : i < ms.length := by
      rw [List.mem_range'_1] at hi
      omega
    rw [List.getD_eq_getElem?_getD, List.getD_eq_getElem?_getD, List.getElem?_append_left hlt]
  · simp [List.getD_eq_getElem?_getD]

/-- The entries of messages of at most 16 MiB are read back. -/
theorem valid_entriesFrom (hms : ∀ m ∈ ms, m.length ≤ kMaxWalMessage) (hn : a + n ≤ ms.length) :
    ∀ e ∈ entriesFrom ms a n, walEntries.Valid e := by
  intro e he
  obtain ⟨i, hi, rfl⟩ := List.mem_map.mp he
  have hlt : i < ms.length := by
    rw [List.mem_range'_1] at hi
    omega
  refine ⟨Nat.mod_lt _ (by decide), ?_⟩
  rw [List.getD_eq_getElem?_getD, List.getElem?_eq_getElem hlt, Option.getD_some]
  exact hms _ (List.getElem_mem hlt)

/-- Of a cut WAL, the entries that are complete before the cut are read. -/
theorem scan_take_entriesFrom (hms : ∀ m ∈ ms, m.length ≤ kMaxWalMessage) (hn : a + n ≤ ms.length)
    (c : Nat) :
    (walEntries.fit c (entriesFrom ms a n)).length ≤ n ∧
      walEntries.scan ((walEntries.encAll (entriesFrom ms a n)).take c)
        = entriesFrom ms a (walEntries.fit c (entriesFrom ms a n)).length := by
  have hpre := walEntries.fit_prefix c (entriesFrom ms a n)
  have hlen := hpre.length_le
  rw [length_entriesFrom] at hlen
  refine ⟨hlen, ?_⟩
  rw [walEntries.scan_take c _ (valid_entriesFrom hms hn), ← take_entriesFrom _ _ n _ hlen]
  exact List.prefix_iff_eq_take.mp hpre

/-- **Replay of the messages themselves.** When the log holds the first `m ≥ a` messages
    and the WAL holds the entries of the messages from `a` on, replay extends the log to
    the last entry and duplicates nothing.  The WAL is shorter than `2 ^ 64`, so equal
    low bits mean equal offsets. -/
theorem replay_entriesFrom (ms : List Bytes) (a n m : Nat) (ham : a ≤ m) (hm : m ≤ ms.length)
    (hn : a + n ≤ ms.length) (hsmall : m < a + 2 ^ 64) :
    replay (ms.take m) (entriesFrom ms a n) = ms.take (max m (a + n)) := by
  induction n generalizing a m with
  | zero =>
    rw [Nat.add_zero, Nat.max_eq_left ham]
    rfl
  | succ n ih =>
    have hlen : (ms.take m).length = m := by rw [List.length_take, Nat.min_eq_left hm]
    rw [entriesFrom_succ, replay, hlen]
    by_cases heq : a = m
    · -- the entry is the next message
      subst heq
      have ha : a < ms.length := by omega
      have hget : ms.take a ++ [ms.getD a []] = ms.take (a + 1) := by
        rw [List.getD_eq_getElem?_getD, List.getElem?_eq_getElem ha, Option.getD_some,
          List.take_concat_get' ms a ha]
      rw [if_pos rfl, hget, ih (a + 1) (a + 1) le_rfl (by omega) (by omega) (by omega)]
      congr 1
      omega
    · -- the message is there already, and its entry is skipped
      have hne : ¬ a % 2 ^ 64 = m % 2 ^ 64 := by omega
      rw [if_neg hne, ih (a + 1) m (by omega) hm (by omega) (by omega)]
      congr 1
      omega

/-- After a number of rounds, `recover_wal`'s loop has replayed as many of the scanned
    entries, and all records that it added are in the active segment. -/
theorem recoverLoop_rep (rounds : Nat) {X : List (List Bytes)} {S : List Bytes}
    (h : Rep log (X ++ [S])) (wal : Bytes) :
    ∃ R, Rep (recoverLoop rounds wal log) (X ++ [S ++ R]) ∧
      (X ++ [S]).flatten ++ R
        = replay (X ++ [S]).flatten ((walEntries.scan wal).take rounds) := by
  induction rounds generalizing log S wal with
  | zero => exact ⟨[], by rwa [List.append_nil], List.append_nil _⟩
  | succ rounds ih =>
    rw [recoverLoop]
    cases hd : readWalEntry wal with
    | none =>
      rw [walEntries.scan_of_dec_none hd]
      exact ⟨[], by rwa [List.append_nil], List.append_nil _⟩
    | some p =>
      obtain ⟨e, rest⟩ := p
      rw [walEntries.scan_of_dec_some hd, List.take_succ_cons, replay, ← h.next]
      by_cases hnext : e.1 = log.nextOffset % 2 ^ 64
      · obtain ⟨R, hrep, hflat⟩ := ih (h.appendRecord (valid_of_readWalEntry hd)) rest
        rw [List.append_assoc, List.singleton_append] at hrep
        rw [flatten_concat, List.append_assoc, List.singleton_append] at hflat
        simp only [if_pos hnext]
        exact ⟨e.2 :: R, hrep, hflat⟩
      · simp only [if_neg hnext]
        exact ih h rest

/-- A replay adds to the last segment. -/
theorem recoverWal_rep {X : List (List Bytes)} {S : List Bytes} (h : Rep log (X ++ [S])) :
    ∃ R, Rep log.recoverWal (X ++ [S ++ R]) ∧
      (X ++ [S]).flatten ++ R = replay (X ++ [S]).flatten (walEntries.scan log.wal) := by
  unfold recoverWal
  by_cases hwal : log.wal = []
  · rw [if_pos hwal, hwal]
    exact ⟨[], by rwa [List.append_nil], List.append_nil _⟩
  · rw [if_neg hwal]
    obtain ⟨R, hrep, hflat⟩ := recoverLoop_rep (log.wal.length + 1) h log.wal
    have hscan := walEntries.length_scan_le log.wal
    rw [List.take_of_length_le (by omega)] at hflat
    refine ⟨R, ?_, hflat⟩
    dsimp only
    -- the sync at the end and the clearing of the WAL change no message
    split
    · exact hrep.map_sync rfl rfl rfl rfl
    · exact hrep.of_eq rfl rfl rfl rfl rfl

theorem recoverLoop_stores (rounds : Nat) (h : log.Stores ms) (wal : Bytes) :
    (recoverLoop rounds wal log).Stores (replay ms ((walEntries.scan wal).take rounds)) := by
  obtain ⟨Ss, hrep, rfl⟩ := h
  obtain ⟨X, S, rfl⟩ := hrep.exists_concat
  obtain ⟨R, hrep', hflat⟩ := recoverLoop_rep rounds hrep wal
  exact ⟨_, hrep', (flatten_concat X S R).trans hflat⟩

/-- A replay adds the entries that are missing. -/
theorem recoverWal_stores (h : log.Stores ms) :
    log.recoverWal.Stores (replay ms (walEntries.scan log.wal)) := by
  obtain ⟨Ss, hrep, rfl⟩ := h
  obtain ⟨X, S, rfl⟩ := hrep.exists_concat
  obtain ⟨R, hrep', hflat⟩ := recoverWal_rep hrep
  exact ⟨_, hrep', (flatten_concat X S R).trans hflat⟩

theorem recoverWal_wal (log : Log) : log.recoverWal.wal = [] := by
  unfold recoverWal
  split
  · assumption
  · rfl

/-- **WAL replay.**  The log holds the first `m` messages of a history and the WAL a byte
    prefix of the entries of the messages `a`, `a + 1`, …, `n - 1`, where `a ≤ m`.  With `k`
    the number of the message behind the last complete entry, `recover_wal` leaves a log
    that holds the first `max m k` messages: the next offset says so, `fetch` finds each of
    them, the segment files hold each of them once, and the WAL is empty. -/
theorem recoverWal_replays (ms : List Bytes) (hms : ∀ m ∈ ms, m.length ≤ kMaxWalMessage)
    (a m n : Nat) (ham : a ≤ m) (hm : m ≤ ms.length) (hn : n ≤ ms.length) (hsmall : m < 2 ^ 64)
    (log : Log) (hlog : log.Stores (ms.take m))
    (hwal : log.wal <+: walEntries.encAll (entriesFrom ms a (n - a))) :
    let k := a + (walEntries.fit log.wal.length (entriesFrom ms a (n - a))).length
    log.recoverWal.nextOffset = max m k ∧
      (∀ i, log.recoverWal.fetch i = listFetch (ms.take (max m k)) i) ∧
      log.recoverWal.segments.flatMap (fun s => records.scan s.file) = ms.take (max m k) ∧
      log.recoverWal.wal = [] := by
  intro k
  have hbound : a + (n - a) ≤ ms.length := by omega
  obtain ⟨hfit, hscan⟩ := scan_take_entriesFrom hms hbound log.wal.length
  rw [← List.prefix_iff_eq_take.mp hwal] at hscan
  have hst := recoverWal_stores hlog
  rw [hscan, replay_entriesFrom ms a _ m ham hm (by omega) (by omega)] at hst
  have hlen : (ms.take (max m k)).length = max m k := by
    rw [List.length_take]
    omega
  refine ⟨hst.nextOffset_eq.trans hlen, hst.fetch_eq, ?_, recoverWal_wal log⟩
  obtain ⟨Ss, hrep, hflat⟩ := hst
  exact hrep.flatMap_scan.trans hflat

/-- The first message is stored, and the WAL ends inside the entry of the third. -/
theorem recoverWal_replays_torn :
    let ms : List Bytes := [[1], [2], [3]]
    let log : Log :=
      { ((construct [] 100 64).append [1]).2 with
        wal := (walEntries.encAll (entriesFrom ms 0 3)).take 40 }
    log.recoverWal.nextOffset = 2 ∧ log.recoverWal.fetch 1 = .ok [2] := by
  intro ms log
  have hlog : log.Stores (ms.take 1) :=
    ((construct_empty 100 64).append (m := [1]) (show 1 < 256 ^ 8 by omega)).2.of_eq
      rfl rfl rfl rfl rfl
  obtain ⟨hnext, hfetch, -, -⟩ := recoverWal_replays ms (by decide) 0 1 3 (by decide) (by decide)
    (by decide) (by decide) log hlog (List.take_prefix 40 _)
  have hfit : (walEntries.fit log.wal.length (entriesFrom ms 0 3)).length = 2 := by decide +kernel
  rw [hfit] at hnext hfetch
  exact ⟨hnext, hfetch 1⟩

/-- **Construction.** Whatever the files and the WAL contain, the new log stores the
    records scanned from the files, in the order of the visit, and then what the WAL
    adds. -/
theorem constructFrom_stores (paths : List File) (wal : Bytes)
    (maxSegmentSize syncBatchSize : Nat) :
    (constructFrom paths wal maxSegmentSize syncBatchSize).Stores
      (replay (paths.flatMap (fun f => records.scan f.contents)) (walEntries.scan wal)) := by
  let log := (blank wal maxSegmentSize syncBatchSize).loadExistingSegments paths
  have hload : log.Stores (paths.flatMap (fun f => records.scan f.contents)) :=
    ⟨_, loadExistingSegments_rep (indexed_blank _ _ _) paths, flatten_loadedRecords paths⟩
  have hwal : log.wal = wal := loadExistingSegments_wal _ paths
  have hstores := recoverWal_stores hload
  rw [hwal] at hstores
  exact hstores

end Log

end StreamingPlatform
