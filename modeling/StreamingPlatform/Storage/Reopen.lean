import StreamingPlatform.Storage.Numbering

namespace StreamingPlatform

open ByteString

/-!
# Storage — reopening a log

A clean reopen flushes the log, destroys it and constructs a new one on the same
directory.  Segment files carry their number without leading zeros and are visited in
the order of their names, so `segment-10.log` comes before `segment-2.log`.  As long as
every record lies in a segment numbered below `10` the two orders agree where it
matters, and any number of reopens keeps the messages (`reopen_keeps_messages`); past
it the order breaks (`reopen_reorders`).
-/

open LogSegment (records)

namespace Log

/-! ### One reopen -/

/-- Every segment file with records is numbered below ten. -/
def BelowTen (log : Log) : Prop :=
  ∀ s ∈ log.segments, s.file = [] ∨ ∃ n < 10, s.filePath = segmentName n

/-- Every file name of the log is one that `load_existing_segments` takes for a segment. -/
def Named (log : Log) : Prop := ∀ s ∈ log.segments, isSegmentFile s.filePath = true

namespace Named

variable {log : Log}

theorem segmentFiles (h : log.Named) : ∀ f ∈ log.segmentFiles, isSegmentFile f.name = true := by
  intro f hf
  obtain ⟨s, hs, rfl⟩ := List.mem_map.mp hf
  exact h s hs

/-- The files of the directory that are taken for segments. -/
theorem filter_directory (h : log.Named) :
    log.directory.filter (fun f => isSegmentFile f.name) = log.segmentFiles := by
  have hname : ¬ isSegmentFile (ofString "append.wal") = true := by decide
  have hwal : [File.mk (ofString "append.wal") log.wal].filter (fun f => isSegmentFile f.name)
      = [] := List.filter_cons_of_neg hname
  rw [directory, List.filter_append, List.filter_eq_self.mpr h.segmentFiles, hwal,
    List.append_nil]

/-- The files that a new log visits. -/
theorem segmentPaths_directory (h : log.Named) :
    segmentPaths log.directory
      = log.segmentFiles.insertionSort (fun f g => f.name ≤ g.name) := by
  rw [segmentPaths, h.filter_directory]

theorem walContents_directory (h : log.Named) : walContents log.directory = log.wal :=
  walContents_concat h.segmentFiles log.wal

end Named

/-- Only the segments with records matter for the messages. -/
theorem messagesOf_filter (ps : List (Nat × List Bytes)) :
    messagesOf (ps.filter (fun p => p.2 ≠ [])) = messagesOf ps := by
  induction ps with
  | nil => rfl
  | cons p ps ih =>
    by_cases hp : p.2 = []
    · rw [List.filter_cons_of_neg (by simp [hp]), ih]
      simp [messagesOf, hp]
    · rw [List.filter_cons_of_pos (by simp [hp])]
      simpa [messagesOf] using ih

/-- The file of a numbered segment. -/
def fileOf (p : Nat × List Bytes) : File := ⟨segmentName p.1, records.encAll p.2⟩

/-- The order of the visit, on numbered segments. -/
def nameLE (p p' : Nat × List Bytes) : Prop := segmentName p.1 ≤ segmentName p'.1

instance : DecidableRel nameLE := fun p p' =>
  inferInstanceAs (Decidable (segmentName p.1 ≤ segmentName p'.1))

instance : Std.Total nameLE := ⟨fun p p' => List.le_total (segmentName p.1) (segmentName p'.1)⟩

instance : IsTrans (Nat × List Bytes) nameLE := ⟨fun _ _ _ h h' => List.le_trans h h'⟩

namespace Numbered

variable {log : Log} {xs : List (Nat × List Bytes)} {q : Nat × List Bytes}

theorem segmentFiles_eq (h : Numbered log xs q) : log.segmentFiles = (xs ++ [q]).map fileOf := by
  have hzip : log.segmentFiles = List.zipWith File.mk (log.segments.map LogSegment.filePath)
      (log.segments.map LogSegment.file) := by
    rw [List.zipWith_map, List.zipWith_self]
    rfl
  rw [hzip, h.names, h.rep.files, List.map_map, List.zipWith_map, List.zipWith_self]
  rfl

theorem named (h : Numbered log xs q) : log.Named := by
  intro s hs
  have hname : s.filePath ∈ log.segments.map LogSegment.filePath := List.mem_map_of_mem hs
  rw [h.names, List.mem_map] at hname
  obtain ⟨p, -, hp⟩ := hname
  rw [← hp]
  exact isSegmentFile_segmentName p.1

/-- The files in the order of their names. -/
theorem segmentPaths_directory (h : Numbered log xs q) :
    segmentPaths log.directory = ((xs ++ [q]).insertionSort nameLE).map fileOf := by
  rw [h.named.segmentPaths_directory, h.segmentFiles_eq,
    List.map_insertionSort nameLE (fun f g : File => f.name ≤ g.name) fileOf]
  intro a _ b _
  exact Iff.rfl

/-- The numbers below ten that `BelowTen` speaks of. -/
theorem lt_ten (h : Numbered log xs q) (hten : log.BelowTen) {p : Nat × List Bytes}
    (hp : p ∈ xs ++ [q]) (hne : p.2 ≠ []) : p.1 < 10 := by
  have hfile : fileOf p ∈ log.segmentFiles := by
    rw [h.segmentFiles_eq]
    exact List.mem_map_of_mem hp
  obtain ⟨s, hs, heq⟩ := List.mem_map.mp hfile
  obtain ⟨hname, hcont⟩ := File.mk.inj heq
  rcases hten s hs with hnil | ⟨n, hn, hpath⟩
  · -- an encoded record is never empty
    obtain ⟨m, ms, hms⟩ := List.exists_cons_of_ne_nil hne
    have hpos := records.enc_pos m
    rw [hnil, hms, Format.encAll_cons] at hcont
    have := congrArg List.length hcont
    rw [List.length_append, List.length_nil] at this
    omega
  · rw [hpath] at hname
    rw [← segmentName_injective hname]
    exact hn

/-- Sorting the segments by name sorts those with records by number. -/
theorem sorted_insertionSort (h : Numbered log xs q) (hten : log.BelowTen)
    {ys : List (Nat × List Bytes)} {r : Nat × List Bytes}
    (hys : (xs ++ [q]).insertionSort nameLE = ys ++ [r]) :
    (ys.filter (fun p => p.2 ≠ [])).Pairwise (fun p p' => p.1 < p'.1) ∧
      ∀ p ∈ ys, p.2 ≠ [] → p.1 < r.1 := by
  have hperm : (ys ++ [r]).Perm (xs ++ [q]) := hys ▸ List.perm_insertionSort nameLE _
  have hnames : (ys ++ [r]).Pairwise nameLE := hys ▸ List.pairwise_insertionSort nameLE _
  have hne : (ys ++ [r]).Pairwise (fun p p' => p.1 ≠ p'.1) :=
    List.pairwise_map.mp ((hperm.map Prod.fst).nodup_iff.mpr h.nodup)
  have hboth := List.pairwise_append.mp (hnames.and hne)
  have hlt : ∀ p ∈ ys ++ [r], p.2 ≠ [] → p.1 < 10 := fun p hp => h.lt_ten hten (hperm.mem_iff.mp hp)
  constructor
  · refine (hboth.1.filter _).imp_of_mem (fun {p p'} hp hp' hle => ?_)
    rw [List.mem_filter] at hp hp'
    have := le_of_segmentName_le (hlt p (List.mem_append_left _ hp.1) (by simpa using hp.2))
      (hlt p' (List.mem_append_left _ hp'.1) (by simpa using hp'.2)) hle.1
    exact lt_of_le_of_ne this hle.2
  · intro p hp hpne
    obtain ⟨hle, hpr⟩ := hboth.2.2 p hp r (by simp)
    have hp10 := hlt p (List.mem_append_left _ hp) hpne
    -- the last name may belong to an empty segment with a number of several digits
    by_cases hr : r.1 < 10
    · exact lt_of_le_of_ne (le_of_segmentName_le hp10 hr hle) hpr
    · omega

/-- **One clean reopen.** -/
theorem reopen (h : Numbered log xs q) (hwal : log.wal = []) (hten : log.BelowTen)
    (maxSegmentSize syncBatchSize : Nat) :
    ∃ ys r, Numbered (construct log.directory maxSegmentSize syncBatchSize) ys r ∧
      messagesOf (ys ++ [r]) = messagesOf (xs ++ [q]) := by
  have hperm := List.perm_insertionSort nameLE (xs ++ [q])
  obtain ⟨ys, r, hys⟩ : ∃ ys r, (xs ++ [q]).insertionSort nameLE = ys ++ [r] := by
    rcases List.eq_nil_or_concat' ((xs ++ [q]).insertionSort nameLE) with hnil | hcons
    · have := hperm.length_eq
      rw [hnil, List.length_append] at this
      simp at this
    · exact hcons
  obtain ⟨hsorted, hlast⟩ := h.sorted_insertionSort hten hys
  rw [hys] at hperm
  refine ⟨ys, r, ?_, ?_⟩
  · let fresh := blank [] maxSegmentSize syncBatchSize
    have hfresh : Indexed fresh [] := indexed_blank _ _ _
    have hpaths : (ys ++ [r]).map fileOf ≠ [] := by simp
    have hcontents : walContents log.directory = [] := h.named.walContents_directory.trans hwal
    have hload := loadExistingSegments_rep hfresh ((ys ++ [r]).map fileOf)
    have hnames := loadExistingSegments_filePaths fresh rfl hpaths
    have hwal' : (fresh.loadExistingSegments ((ys ++ [r]).map fileOf)).wal = [] :=
      loadExistingSegments_wal _ _
    have hconstruct : construct log.directory maxSegmentSize syncBatchSize
        = fresh.loadExistingSegments ((ys ++ [r]).map fileOf) := by
      rw [construct, h.segmentPaths_directory, hys, hcontents]
      show (fresh.loadExistingSegments ((ys ++ [r]).map fileOf)).recoverWal = _
      rw [recoverWal, if_pos hwal']
    have hvalid : ∀ p ∈ ys ++ [r], records.scan (fileOf p).contents = p.2 := by
      intro p hp
      exact records.scan_encAll p.2
        (h.rep.valid p.2 (List.mem_map_of_mem (hperm.mem_iff.mp hp)))
    have hrecords : loadedRecords ((ys ++ [r]).map fileOf) = (ys ++ [r]).map Prod.snd := by
      rw [loadedRecords, if_neg hpaths, List.map_map]
      exact List.map_congr_left hvalid
    rw [hrecords] at hload
    rw [hconstruct]
    refine ⟨hload, ?_, (hperm.map Prod.fst).nodup_iff.mpr h.nodup, ?_, hsorted, hlast,
      fun _ => hwal'⟩
    · rw [hnames, List.map_map]
      rfl
    · intro p hp
      rw [hperm.length_eq]
      exact h.bound p (hperm.mem_iff.mp hp)
  · -- both lists of segments with records are sorted by number, so they are the same
    have heq := (hperm.filter (fun p => p.2 ≠ [])).eq_of_pairwise
      (fun a b _ _ hab hba => absurd hab (by omega)) (pairwise_filter_concat hsorted hlast)
      h.sorted_concat
    rw [← messagesOf_filter (ys ++ [r]), heq, messagesOf_filter]

end Numbered

/-! ### Rounds -/

theorem numbered_construct_empty (maxSegmentSize syncBatchSize : Nat) :
    Numbered (construct [] maxSegmentSize syncBatchSize) [] (0, []) := by
  refine ⟨(tracked_construct_empty maxSegmentSize syncBatchSize).rep, rfl, by simp, ?_, by simp,
    by simp, fun _ => rfl⟩
  intro p hp
  rw [List.mem_singleton.mp hp]
  exact Nat.one_pos

/-- The states of a log over rounds of calls, a flush and a reopen, from an empty
    directory; at every reopen all records lie in segments numbered below ten.  `ms` are
    the messages appended so far. -/
inductive Rounds (maxSegmentSize syncBatchSize : Nat) : Log → List Bytes → Prop where
  | fresh : Rounds maxSegmentSize syncBatchSize (construct [] maxSegmentSize syncBatchSize) []
  | round {log : Log} {ms : List Bytes} (ops : List Op) :
      Rounds maxSegmentSize syncBatchSize log ms → (∀ op ∈ ops, op.Fits) →
      (log.run ops).2.flush.BelowTen →
      Rounds maxSegmentSize syncBatchSize
        (construct (log.run ops).2.flush.directory maxSegmentSize syncBatchSize)
        (specRun ms ops).2

/-- After a flush the WAL is empty. -/
theorem Numbered.flush_wal {log : Log} {xs : List (Nat × List Bytes)} {q : Nat × List Bytes}
    (h : Numbered log xs q) : log.flush.wal = [] := by
  unfold Log.flush
  split
  · rfl
  · exact h.wal (by omega)

/-- Every round keeps the segments numbered and the messages in place. -/
theorem Rounds.numbered {maxSegmentSize syncBatchSize : Nat} {log : Log} {ms : List Bytes}
    (h : Rounds maxSegmentSize syncBatchSize log ms) :
    ∃ xs q, Numbered log xs q ∧ messagesOf (xs ++ [q]) = ms := by
  induction h with
  | fresh => exact ⟨[], (0, []), numbered_construct_empty _ _, rfl⟩
  | round ops _ hops hten ih =>
    obtain ⟨xs, q, hnum, rfl⟩ := ih
    obtain ⟨xs₁, q₁, hrun, hmsg⟩ := hnum.run hops
    obtain ⟨ys, r, hre, hmsg'⟩ := hrun.flush.reopen hrun.flush_wal hten maxSegmentSize syncBatchSize
    exact ⟨ys, r, hre, by rw [hmsg', hmsg]⟩

/-- **Clean reopens keep the log.** In every state reached by rounds of calls, flush and
    reopen in which no reopen finds a record in a segment numbered ten or higher, `fetch`
    returns the messages appended over all rounds, and the next append gets the next
    offset. -/
theorem reopen_keeps_messages (maxSegmentSize syncBatchSize : Nat) (log : Log) (ms : List Bytes)
    (h : Rounds maxSegmentSize syncBatchSize log ms) :
    (∀ k, log.fetch k = listFetch ms k) ∧ ∀ m, (log.append m).1 = ms.length := by
  obtain ⟨xs, q, hnum, hmsg⟩ := h.numbered
  have hst : log.Stores ms := ⟨_, hnum.rep, hmsg⟩
  exact ⟨hst.fetch_eq, fun m => hst.nextOffset_eq⟩

/-- A round with two segments, reopened twice. -/
theorem reopen_keeps_messages_two_rounds :
    (construct (((construct (((construct [] 1 64).run [.append [1], .append [2]]).2.flush.directory)
      1 64).run [.append [3]]).2.flush.directory) 1 64).fetch 2 = .ok [3] := by
  have hops : ∀ m : Bytes, m.length < 256 → (Op.append m).Fits := by
    intro m hm
    show m.length < 256 ^ 8
    omega
  have hfresh : Rounds 1 64 _ [] := Rounds.fresh
  have hone := hfresh.round [.append [1], .append [2]] (by
    intro op hop
    rcases List.mem_cons.mp hop with rfl | hop
    · exact hops _ (by decide)
    · rw [List.mem_singleton.mp hop]
      exact hops _ (by decide)) (by unfold BelowTen; decide +kernel)
  have htwo := hone.round [.append [3]] (by
    intro op hop
    rw [List.mem_singleton.mp hop]
    exact hops _ (by decide)) (by unfold BelowTen; decide +kernel)
  exact (reopen_keeps_messages 1 64 _ _ htwo).1 2

/-- Twelve one-byte messages, each in a segment of its own, flushed. -/
def twelveSegments : Log :=
  ((construct [] 1 64).run
    ((List.range 12).map (fun i => Op.append [UInt8.ofNat i]))).2.flush

/-- **A reopen can reorder.** `segment-10.log` and `segment-11.log` are visited before
    `segment-2.log`, so offset `2` now holds the message that was appended at `10`. -/
theorem reopen_reorders :
    (construct twelveSegments.directory 1 64).fetch 2 = .ok [10] ∧
      ¬ ∀ k < 12, (construct twelveSegments.directory 1 64).fetch k
        = listFetch ((List.range 12).map (fun i => [UInt8.ofNat i])) k := by
  have htwo : (construct twelveSegments.directory 1 64).fetch 2 = .ok [10] := by decide +kernel
  refine ⟨htwo, fun h => ?_⟩
  have := h 2 (by decide)
  rw [htwo] at this
  exact absurd this (by decide)

end Log

end StreamingPlatform
