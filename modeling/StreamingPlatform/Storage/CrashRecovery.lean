import StreamingPlatform.Storage.Durability

namespace StreamingPlatform

open ByteString

/-!
# Storage — recovery after a crash

Between two operations a crash may cut every file short: the WAL anywhere, a segment
file anywhere behind what the last `sync_pending` covered.  `recovers_iff` settles what
the constructor makes of the cut files.  The segment scan recounts offsets file by file,
so it puts the surviving records at the right offsets exactly when they form an initial
part of the history; from there the WAL replay does the rest.  Cuts that take records
from one segment and leave some in a later one break this (`recovery_reorders`).
-/

open LogSegment (records)

namespace Log

/-! ### Crash states -/

/-- The segment files after a crash that leaves `cuts` bytes of them, one number for
    each segment, in the order of their creation. -/
def crashFiles (log : Log) (cuts : List Nat) : List File :=
  List.zipWith (fun s c => ⟨s.filePath, s.file.take c⟩) log.segments cuts

/-- The directory after a crash that leaves `walCut` bytes of the WAL as well. -/
def crashDirectory (log : Log) (cuts : List Nat) (walCut : Nat) : List File :=
  log.crashFiles cuts ++ [⟨ofString "append.wal", log.wal.take walCut⟩]

/-- The cuts take nothing that the last completed `sync_pending` covered. -/
def Covers (log : Log) (cuts : List Nat) : Prop :=
  List.Forall₂ (fun s c => s.synced ≤ c) log.segments cuts

instance (log : Log) (cuts : List Nat) : Decidable (Covers log cuts) :=
  inferInstanceAs (Decidable (List.Forall₂ _ _ _))

/-- The records that are still complete in the cut segment files, by counting bytes. -/
def survivors (log : Log) (cuts : List Nat) : List Bytes :=
  (List.zipWith (fun s c => records.fit c (records.scan s.file)) log.segments cuts).flatten

/-- How many records the last sync covers: those that survive the worst cuts. -/
def covered (log : Log) : Nat := (log.survivors (log.segments.map LogSegment.synced)).length

/-- `log'` holds exactly the first `r` of the messages `ms`, where `r` reaches all
    `covered` records and all complete entries of the WAL. -/
def Recovers (log' : Log) (ms : List Bytes) (covered : Nat) (entries : List (Nat × Bytes)) :
    Prop :=
  ∃ r ≤ ms.length, log'.nextOffset = r ∧ (∀ k, log'.fetch k = listFetch (ms.take r) k) ∧
    covered ≤ r ∧ ∀ e ∈ entries, e.1 < r

/-! ### What survives -/

/-- A cut right behind a number of records keeps exactly these. -/
theorem fit_length_encAll (T R : List Bytes) :
    records.fit (records.encAll T).length (T ++ R) = T := by
  rw [records.fit_append le_rfl, Nat.sub_self]
  cases R with
  | nil => exact List.append_nil T
  | cons m R =>
    have hpos := records.enc_pos m
    rw [Format.fit, if_neg (by omega), List.append_nil]

section Survivors

variable {log : Log} {Ss Ts : List (List Bytes)}

theorem survivors_eq (h : Rep log Ss) (cuts : List Nat) :
    log.survivors cuts = (List.zipWith (fun S c => records.fit c S) Ss cuts).flatten := by
  conv_rhs => rw [← h.map_scan]
  rw [List.zipWith_map_left]
  rfl

/-- Scanning the cut files finds the survivors. -/
theorem scan_crashFiles (h : Rep log Ss) (cuts : List Nat) :
    (log.crashFiles cuts).flatMap (fun f => records.scan f.contents) = log.survivors cuts := by
  have hzip : ∀ (Ss : List (List Bytes)), (∀ S ∈ Ss, ∀ m ∈ S, records.Valid m) →
      ∀ cuts : List Nat,
        List.zipWith (fun b c => records.scan (b.take c)) (Ss.map records.encAll) cuts
          = List.zipWith (fun S c => records.fit c S) Ss cuts := by
    intro Ss
    induction Ss with
    | nil => intro _ cuts; rfl
    | cons S Ss ih =>
      intro hvalid cuts
      cases cuts with
      | nil => rfl
      | cons c cuts =>
        rw [List.map_cons, List.zipWith_cons_cons, List.zipWith_cons_cons,
          records.scan_take c S (hvalid S (by simp)),
          ih (fun S' hS' => hvalid S' (by simp [hS'])) cuts]
  rw [survivors_eq h, ← hzip Ss h.valid cuts, ← h.files, List.zipWith_map_left, crashFiles,
    List.flatMap_def, List.map_zipWith]

/-- Before a crash, `covered` counts the records that are not pending. -/
theorem Tracked.covered_eq (h : Tracked log Ss Ts) : log.covered = Ts.flatten.length := by
  have hfit : List.zipWith (fun S c => records.fit c S) Ss
      (Ts.map (fun T => (records.encAll T).length)) = Ts := by
    have hsub := h.sub
    clear h
    induction hsub with
    | nil => rfl
    | cons hTS _ ih =>
      obtain ⟨R, rfl⟩ := hTS
      rw [List.map_cons, List.zipWith_cons_cons, ih, fit_length_encAll]
  rw [covered, survivors_eq h.rep, h.synced, hfit]

/-- Cuts that respect the last sync leave at least the covered records. -/
theorem Tracked.covered_le (h : Tracked log Ss Ts) {cuts : List Nat} (hc : log.Covers cuts) :
    log.covered ≤ (log.survivors cuts).length := by
  have hcuts : List.Forall₂ (fun T c => (records.encAll T).length ≤ c) Ts cuts := by
    have hsync : List.Forall₂ (fun n c => n ≤ c) (log.segments.map LogSegment.synced) cuts :=
      List.forall₂_map_left_iff.mpr hc
    rw [h.synced] at hsync
    exact List.forall₂_map_left_iff.mp hsync
  rw [h.covered_eq, survivors_eq h.rep]
  have hsub := h.sub
  clear h hc
  induction hsub generalizing cuts with
  | nil => exact Nat.zero_le _
  | cons hTS _ ih =>
    cases hcuts with
    | cons hTc hcuts =>
      obtain ⟨R, rfl⟩ := hTS
      have := ih hcuts
      rw [List.zipWith_cons_cons, records.fit_append hTc]
      simp only [List.flatten_cons, List.length_append] at this ⊢
      omega

end Survivors

/-! ### What the WAL adds -/

theorem isSegmentFile_segmentName (n : Nat) : isSegmentFile (segmentName n) = true := by
  have hlen : (ofString "segment-").length = 8 := rfl
  have hlog : (ofString ".log").length = 4 := rfl
  have hdrop : (segmentName n).drop ((segmentName n).length - 4) = ofString ".log" := by
    have hsub : (segmentName n).length - 4 = (ofString "segment-" ++ decimal n).length := by
      rw [segmentName, List.length_append, hlog]
      omega
    rw [hsub, segmentName, List.drop_left' rfl]
  have hpre : (ofString "segment-").isPrefixOf (segmentName n) = true := by
    rw [List.isPrefixOf_iff_prefix, segmentName, List.append_assoc]
    exact List.prefix_append _ _
  have hlong : (segmentName n).length > 8 := by
    rw [segmentName, List.length_append, List.length_append, hlen, hlog]
    omega
  simp [isSegmentFile, hpre, hdrop, hlong]

/-- No segment file is taken for the WAL. -/
theorem walContents_concat {files : List File} (hfiles : ∀ f ∈ files, isSegmentFile f.name = true)
    (wal : Bytes) : walContents (files ++ [⟨ofString "append.wal", wal⟩]) = wal := by
  have hname : ∀ f ∈ files, ¬ (f.name == ofString "append.wal") = true := by
    intro f hf heq
    have hseg := hfiles f hf
    rw [eq_of_beq heq] at hseg
    exact absurd hseg (by decide)
  rw [walContents, List.find?_append, List.find?_eq_none.mpr hname]
  rfl

theorem walContents_crashDirectory {log : Log} {Ss Ts : List (List Bytes)}
    (h : Tracked log Ss Ts) (cuts : List Nat) (walCut : Nat) :
    walContents (log.crashDirectory cuts walCut) = log.wal.take walCut := by
  refine walContents_concat (fun f hf => ?_) _
  rw [crashFiles, ← List.map_uncurry_zip_eq_zipWith, List.mem_map] at hf
  obtain ⟨⟨s, c⟩, hsc, rfl⟩ := hf
  have hs : s.filePath ∈ log.segments.map LogSegment.filePath :=
    List.mem_map_of_mem (List.of_mem_zip hsc).1
  rw [h.names, List.mem_map] at hs
  obtain ⟨n, -, hn⟩ := hs
  show isSegmentFile s.filePath = true
  rw [← hn]
  exact isSegmentFile_segmentName n

/-- The complete entries of the cut WAL are those of the first pending messages. -/
theorem Tracked.scan_wal {log : Log} {Ss Ts : List (List Bytes)} (h : Tracked log Ss Ts)
    (hmax : ∀ m ∈ Ss.flatten, m.length ≤ kMaxWalMessage) (walCut : Nat) :
    ∃ n ≤ log.pendingAppends, walEntries.scan (log.wal.take walCut)
      = entriesFrom Ss.flatten Ts.flatten.length n := by
  obtain ⟨hlen, hscan⟩ := scan_take_entriesFrom hmax h.pending.le walCut
  rw [h.wal]
  exact ⟨_, hlen, hscan⟩

/-- A log answers every fetch as one list only. -/
theorem Stores.eq_of_fetch {log : Log} {ms ms' : List Bytes} (h : log.Stores ms)
    (hfetch : ∀ k, log.fetch k = listFetch ms' k) : ms = ms' := by
  apply List.ext_getElem?
  intro k
  have hk := hfetch k
  rw [h.fetch_eq, listFetch, listFetch] at hk
  cases hms : ms[k]? <;> cases hms' : ms'[k]? <;> simp_all

/-- Recovery of a tracked log: the survivors decide. -/
theorem Tracked.recovers_iff_prefix {log : Log} {Ss Ts : List (List Bytes)}
    (h : Tracked log Ss Ts) (hmax : ∀ m ∈ Ss.flatten, m.length ≤ kMaxWalMessage)
    (hbatch : log.syncBatchSize ≤ 2 ^ 64) {cuts : List Nat} (hc : log.Covers cuts) (walCut : Nat)
    (maxSegmentSize syncBatchSize : Nat) :
    Recovers (constructFrom (log.crashFiles cuts) (log.wal.take walCut) maxSegmentSize
        syncBatchSize) Ss.flatten log.covered (walEntries.scan (log.wal.take walCut)) ↔
      log.survivors cuts <+: Ss.flatten := by
  have hst := constructFrom_stores (log.crashFiles cuts) (log.wal.take walCut)
    maxSegmentSize syncBatchSize
  rw [scan_crashFiles h.rep] at hst
  constructor
  · rintro ⟨r, -, -, hfetch, -⟩
    have heq := hst.eq_of_fetch hfetch
    have hpre := prefix_replay (log.survivors cuts) (walEntries.scan (log.wal.take walCut))
    rw [heq] at hpre
    exact hpre.trans (List.take_prefix r Ss.flatten)
  · intro hpre
    obtain ⟨n, hn, hscan⟩ := h.scan_wal hmax walCut
    have hcov := h.covered_le hc
    have hpend := h.pending
    have hlt := h.batch
    rw [h.covered_eq] at hcov
    have hle := hpre.length_le
    -- replay extends the surviving messages to the last complete entry
    rw [List.prefix_iff_eq_take.mp hpre, hscan, replay_entriesFrom Ss.flatten
      Ts.flatten.length n _ hcov hle (by omega) (by omega)] at hst
    refine ⟨max (log.survivors cuts).length (Ts.flatten.length + n), by omega, ?_, hst.fetch_eq,
      by rw [h.covered_eq]; omega, ?_⟩
    · rw [hst.nextOffset_eq, List.length_take]
      omega
    · intro e he
      rw [hscan] at he
      obtain ⟨i, hi, rfl⟩ := List.mem_map.mp he
      rw [List.mem_range'_1] at hi
      have hmod := Nat.mod_le i (2 ^ 64)
      show i % 2 ^ 64 < _
      omega

/-! ### Runs -/

/-- The list specification keeps what holds of every appended message. -/
theorem specRun_forall {P : Bytes → Prop} {ops : List Op} (hops : ∀ m, .append m ∈ ops → P m)
    {ms : List Bytes} (hms : ∀ m ∈ ms, P m) : ∀ m ∈ (specRun ms ops).2, P m := by
  induction ops generalizing ms with
  | nil => exact hms
  | cons op ops ih =>
    refine ih (fun m hm => hops m (List.mem_cons_of_mem _ hm)) ?_
    cases op with
    | append m =>
      intro m' hm'
      rcases List.mem_append.mp hm' with hm' | hm'
      · exact hms m' hm'
      · rw [List.mem_singleton.mp hm']
        exact hops m List.mem_cons_self
    | flush => exact hms
    | fetch k => exact hms

/-- The sync batch size never changes. -/
theorem run_syncBatchSize (log : Log) (ops : List Op) :
    (log.run ops).2.syncBatchSize = log.syncBatchSize := by
  induction ops generalizing log with
  | nil => rfl
  | cons op ops ih =>
    refine (ih _).trans ?_
    cases op with
    | append m =>
      show (log.append m).2.syncBatchSize = _
      simp only [append]
      split <;> split <;> rfl
    | flush =>
      show log.flush.syncBatchSize = _
      unfold flush
      split <;> rfl
    | fetch k => rfl

/-- A log run from an empty directory on messages of at most 16 MiB is tracked. -/
theorem run_tracked (maxSegmentSize syncBatchSize : Nat) {ops : List Op}
    (hops : ∀ m, .append m ∈ ops → m.length ≤ kMaxWalMessage) :
    ∃ Ss Ts, Tracked ((construct [] maxSegmentSize syncBatchSize).run ops).2 Ss Ts ∧
      Ss.flatten = (specRun [] ops).2 := by
  refine (tracked_construct_empty maxSegmentSize syncBatchSize).run (fun op hop => ?_)
  cases op with
  | append m =>
    have := hops m hop
    show m.length < 256 ^ 8
    unfold kMaxWalMessage at this
    omega
  | flush => trivial
  | fetch k => trivial

/-- **Crash recovery.** Run a log from an empty directory and let a crash cut its files
    behind what the last sync covered.  A log constructed from what is left, with the segments
    in the order of their creation, holds an initial part of the messages that reaches every
    covered record and every complete WAL entry if and only if the records that survive in the
    segment files are an initial part of the messages.  It is the log that `Log::Log` constructs
    if the order of the names is that of creation. -/
theorem recovers_iff (maxSegmentSize syncBatchSize : Nat) (hsync : syncBatchSize < 2 ^ 64)
    (ops : List Op) (hops : ∀ m, .append m ∈ ops → m.length ≤ kMaxWalMessage)
    (cuts : List Nat) (walCut : Nat) (log : Log)
    (hrun : log = ((construct [] maxSegmentSize syncBatchSize).run ops).2)
    (hcovers : log.Covers cuts) :
    (Recovers (constructFrom (log.crashFiles cuts) (log.wal.take walCut) maxSegmentSize
        syncBatchSize) (specRun [] ops).2 log.covered (walEntries.scan (log.wal.take walCut)) ↔
      log.survivors cuts <+: (specRun [] ops).2) ∧
    (segmentPaths (log.crashDirectory cuts walCut) = log.crashFiles cuts →
      construct (log.crashDirectory cuts walCut) maxSegmentSize syncBatchSize
        = constructFrom (log.crashFiles cuts) (log.wal.take walCut) maxSegmentSize
            syncBatchSize) := by
  obtain ⟨Ss, Ts, htracked, hflat⟩ := run_tracked maxSegmentSize syncBatchSize hops
  rw [← hrun] at htracked
  rw [← hflat]
  refine ⟨htracked.recovers_iff_prefix ?_ ?_ hcovers walCut _ _, fun hvisit => ?_⟩
  · rw [hflat]
    exact specRun_forall hops (by simp)
  · rw [hrun, run_syncBatchSize]
    show max 1 syncBatchSize ≤ 2 ^ 64
    omega
  · rw [construct, hvisit, walContents_crashDirectory htracked]

/-- Two one-byte messages in segments of their own, nothing synced. -/
def twoSegments : Log := ((construct [] 1 64).run [.append [1], .append [2]]).2

/-- The second record is torn and the WAL whole: both messages come back. -/
theorem recovers_iff_torn_tail :
    Recovers (construct (twoSegments.crashDirectory [9, 3, 0] 34) 1 64) [[1], [2]]
      twoSegments.covered (walEntries.scan (twoSegments.wal.take 34)) := by
  have hops : ∀ m, Op.append m ∈ [Op.append [1], .append [2]] → m.length ≤ kMaxWalMessage := by
    intro m hm
    rcases List.mem_cons.mp hm with h | h
    · rw [Op.append.inj h]; decide
    · rw [Op.append.inj (List.mem_singleton.mp h)]; decide
  obtain ⟨hiff, hvisited⟩ :=
    recovers_iff 1 64 (by decide) _ hops [9, 3, 0] 34 twoSegments rfl (by decide)
  rw [hvisited (by decide +kernel)]
  exact hiff.mpr (by decide +kernel)

/-- **Recovery can reorder.** The first segment loses its record, the second keeps its
    own, and the WAL is whole: the second message comes back at offset `0` and, from the
    WAL, once more at offset `1`. -/
theorem recovery_reorders :
    twoSegments.Covers [0, 9, 0] ∧
      segmentPaths (twoSegments.crashDirectory [0, 9, 0] 34) = twoSegments.crashFiles [0, 9, 0] ∧
      ¬ Recovers (construct (twoSegments.crashDirectory [0, 9, 0] 34) 1 64) [[1], [2]]
        twoSegments.covered (walEntries.scan (twoSegments.wal.take 34)) := by
  refine ⟨by decide, by decide +kernel, ?_⟩
  rintro ⟨r, -, hnext, hfetch, -⟩
  have hr : r = 2 := hnext ▸ (by decide +kernel)
  have hzero : (construct (twoSegments.crashDirectory [0, 9, 0] 34) 1 64).fetch 0 = .ok [2] := by
    decide +kernel
  have := hfetch 0
  rw [hzero, hr] at this
  exact absurd this (by decide)

end Log

end StreamingPlatform
