import StreamingPlatform.Storage.LogInvariant

namespace StreamingPlatform

open ByteString

/-!
# Storage — scanning a segment file

`rebuild_index_from_segment` is analysed for *arbitrary* file contents, which is what a
crash leaves:

* `rebuildIndexFromSegment_eq` — it counts and indexes the complete records at the front of
  the file and cuts the rest off (`LogSegment.trim`);
* `rebuildLoop64` — the same loop in the 64-bit arithmetic of the code.  It ends after at
  most one round for every byte of the file, nothing wraps around, and no read leaves the
  file (`rebuildLoop64_eq`).
-/

open LogSegment (records)

/-! ### The scan -/

/-- The segment without what follows its last complete record. -/
def LogSegment.trim (s : LogSegment) : LogSegment :=
  if (records.encAll (records.scan s.file)).length = s.sizes then s
  else s.truncate (records.encAll (records.scan s.file)).length

namespace Log

theorem scan_nil : records.scan [] = [] := rfl

/-- What the scan makes of a log from behind the records `A` of segment `si` on, where `rest` is
    left of the file: the complete records at its front are counted, and what follows is cut
    off. -/
def scanned (log : Log) (si : Nat) (A : List Bytes) (rest : Bytes) : Log :=
  { log with
    segments := log.segments.set si (log.segment si).trim
    index := log.index ++
      indexSegment si log.nextOffset (records.encAll A).length (records.scan rest)
    nextOffset := log.nextOffset + (records.scan rest).length }

/-- A record at `position` is counted. -/
def countRecord (log : Log) (si position : Nat) : Log :=
  { log with
    index :=
      if log.nextOffset % kIndexStride = 0 ∨ position = 0 then
        log.index ++ [⟨log.nextOffset, si, position⟩]
      else log.index
    nextOffset := log.nextOffset + 1 }

section Scan

variable {log : Log} {si : Nat} {A : List Bytes} {rest : Bytes}

/-- A segment of complete records is not cut. -/
theorem scanned_nil (hsi : si < log.segments.length) (hA : ∀ m ∈ A, records.Valid m)
    (hfile : (log.segment si).file = records.encAll A)
    (hsize : (log.segment si).currentSize = (log.segment si).file.length) :
    log.scanned si A [] = log := by
  have htrim : (log.segment si).trim = log.segments[si] := by
    rw [LogSegment.trim, hfile, records.scan_encAll A hA, LogSegment.sizes, hsize, hfile,
      if_pos rfl, segment_eq_getElem hsi]
  rw [scanned, scan_nil, htrim, List.set_getElem_self, indexSegment, List.append_nil]
  rfl

/-- A torn record is cut off. -/
theorem scanned_torn (hA : ∀ m ∈ A, records.Valid m)
    (hfile : (log.segment si).file = records.encAll A ++ rest)
    (hpos : (records.encAll A).length < (log.segment si).sizes)
    (hdec : records.dec rest = none) :
    log.scanned si A rest
      = log.setSegment si ((log.segment si).truncate (records.encAll A).length) := by
  have hscan : records.scan (log.segment si).file = A := by
    rw [hfile, records.scan_encAll_append A hA, records.scan_of_dec_none hdec, List.append_nil]
  have htrim : (log.segment si).trim = (log.segment si).truncate (records.encAll A).length := by
    rw [LogSegment.trim, hscan, if_neg (Nat.ne_of_lt hpos)]
  rw [scanned, records.scan_of_dec_none hdec, htrim, indexSegment, List.append_nil]
  rfl

/-- A complete record is counted, and the scan goes on behind it. -/
theorem scanned_record {m rest' : Bytes} (hdec : records.dec rest = some (m, rest')) :
    (log.countRecord si (records.encAll A).length).scanned si (A ++ [m]) rest'
      = log.scanned si A rest := by
  have hposition : (records.encAll (A ++ [m])).length
      = (records.encAll A).length + (records.enc m).length := by
    simp
  have hindex : (log.countRecord si (records.encAll A).length).index
        ++ indexSegment si (log.nextOffset + 1) (records.encAll (A ++ [m])).length
          (records.scan rest')
      = log.index ++ indexSegment si log.nextOffset (records.encAll A).length
          (records.scan rest) := by
    rw [records.scan_of_dec_some hdec, indexSegment, hposition, countRecord]
    dsimp only
    split
    · rw [List.append_assoc]
    · rw [List.nil_append]
  have hcount : log.nextOffset + 1 + (records.scan rest').length
      = log.nextOffset + (records.scan rest).length := by
    rw [records.scan_of_dec_some hdec, List.length_cons]
    omega
  have hnext : (log.countRecord si (records.encAll A).length).nextOffset = log.nextOffset + 1 := rfl
  rw [scanned, hnext, hindex, hcount]
  rfl

/-- The loop of `rebuild_index_from_segment`, behind the records `A` of the segment. -/
theorem rebuildLoop_eq (rounds : Nat) (hsi : si < log.segments.length)
    (hA : ∀ m ∈ A, records.Valid m) (hfile : (log.segment si).file = records.encAll A ++ rest)
    (hsize : (log.segment si).currentSize = (log.segment si).file.length)
    (hr : rest.length < rounds) :
    rebuildLoop si rounds (records.encAll A).length log = log.scanned si A rest := by
  induction rounds generalizing log A rest with
  | zero => omega
  | succ rounds ih =>
    have hdrop : (log.segment si).file.drop (records.encAll A).length = rest := by
      rw [hfile, List.drop_left' rfl]
    rw [rebuildLoop]
    by_cases hpos : (records.encAll A).length < (log.segment si).sizes
    · rw [if_pos hpos]
      rcases LogSegment.read_eq_dec hsize (records.encAll A).length with
        ⟨e, hread, hdec⟩ | ⟨m, rest', hread, hdec⟩
      · rw [hdrop] at hdec
        rw [hread, scanned_torn hA hfile hpos hdec]
      · -- what is left of the file gets shorter
        rw [hdrop] at hdec
        obtain ⟨hrest, hm⟩ := records.dec_sound rest m rest' hdec
        have hlen := records.length_of_dec hdec
        have hpos' := records.enc_pos m
        have hA' : ∀ m' ∈ A ++ [m], records.Valid m' := by
          intro m' hm'
          rcases List.mem_append.mp hm' with hm' | hm'
          · exact hA m' hm'
          · rw [List.mem_singleton.mp hm']
            exact hm
        have hfile' : (log.segment si).file = records.encAll (A ++ [m]) ++ rest' := by
          rw [hfile, hrest]
          simp
        have hposition : (records.encAll (A ++ [m])).length
            = (records.encAll A).length + (LogSegment.kLengthBytes + m.length) := by
          simp [LogSegment.length_enc]
        have hnext := @ih (log.countRecord si (records.encAll A).length) (A ++ [m]) rest' hsi hA'
          hfile' hsize (by omega)
        rw [scanned_record hdec, hposition] at hnext
        rw [hread]
        exact hnext
    · -- the whole file has been scanned
      have hnil : rest = [] := by
        rw [LogSegment.sizes, hsize, hfile, List.length_append] at hpos
        exact List.length_eq_zero_iff.mp (by omega)
      subst hnil
      rw [List.append_nil] at hfile
      rw [if_neg hpos, scanned_nil hsi hA hfile hsize]

end Scan

/-- **`rebuild_index_from_segment`, for any file contents.** -/
theorem rebuildIndexFromSegment_eq {log : Log} {si : Nat} (hsi : si < log.segments.length)
    (hsize : (log.segment si).currentSize = (log.segment si).file.length) :
    rebuildIndexFromSegment si log
      = { log with
          segments := log.segments.set si (log.segment si).trim
          index := log.index ++
            indexSegment si log.nextOffset 0 (records.scan (log.segment si).file)
          nextOffset := log.nextOffset + (records.scan (log.segment si).file).length } := by
  rw [rebuildIndexFromSegment]
  exact rebuildLoop_eq _ hsi (A := []) (by simp) rfl hsize (by
    rw [LogSegment.sizes, hsize]
    omega)

end Log

/-! ### In 64 bits -/

/-- `LogSegment::read` in the 64-bit arithmetic of the code, where differences and sums wrap
    around, with the byte ranges that it reads: where each starts and how long it is. -/
def LogSegment.read64 (s : LogSegment) (position : UInt64) :
    List (Nat × Nat) × Except StdException Bytes :=
  let currentSize := UInt64.ofNat s.currentSize
  if position > currentSize ∨ currentSize - position < 8 then
    ([], .error (.outOfRange "invalid record position"))
  else
    let header := (s.file.drop position.toNat).take kLengthBytes
    let length := UInt64.ofNat (valueLE header)
    if header.length < kLengthBytes ∨ length > currentSize - position - 8 then
      ([(position.toNat, kLengthBytes)], .error (.outOfRange "incomplete record"))
    else
      let message := (s.file.drop (position.toNat + kLengthBytes)).take length.toNat
      let ranges := [(position.toNat, kLengthBytes), (position.toNat + kLengthBytes, length.toNat)]
      if message.length < length.toNat then (ranges, .error (.outOfRange "incomplete record"))
      else (ranges, .ok message)

/-- A read does not wrap around and does not leave the file. -/
theorem LogSegment.read64_eq {s : LogSegment} (hs : s.currentSize = s.file.length)
    (hfits : s.file.length < 2 ^ 64) {position : Nat} (hpos : position ≤ s.file.length) :
    (s.read64 (UInt64.ofNat position)).2 = s.read position ∧
      ∀ range ∈ (s.read64 (UInt64.ofNat position)).1, range.1 + range.2 ≤ s.file.length := by
  have hk : kLengthBytes = 8 := rfl
  have hp : (UInt64.ofNat position).toNat = position :=
    UInt64.toNat_ofNat_of_lt' (show position < 2 ^ 64 by omega)
  -- no difference wraps around, so each test is the one on numbers
  have hleft : UInt64.ofNat s.currentSize - UInt64.ofNat position
      = UInt64.ofNat (s.currentSize - position) := (UInt64.ofNat_sub (by omega)).symm
  have hgt : ¬ UInt64.ofNat position > UInt64.ofNat s.currentSize := by
    rw [gt_iff_lt, UInt64.ofNat_lt_iff_lt (show _ < 2 ^ 64 by omega) (show _ < 2 ^ 64 by omega)]
    omega
  have hhead' : UInt64.ofNat (s.currentSize - position) < 8
      ↔ s.currentSize - position < kLengthBytes :=
    UInt64.ofNat_lt_iff_lt (show _ < 2 ^ 64 by omega) (by decide)
  unfold read64 read
  dsimp only
  rw [hp, hleft]
  by_cases hhead : s.currentSize - position < kLengthBytes
  · rw [if_pos (.inr (hhead'.mpr hhead)), if_pos (.inr hhead)]
    exact ⟨rfl, fun range hrange => absurd hrange List.not_mem_nil⟩
  rw [if_neg (not_or.mpr ⟨hgt, mt hhead'.mp hhead⟩), if_neg (not_or.mpr ⟨by omega, hhead⟩)]
  -- the length field is eight bytes of the file and hence below `2 ^ 64`
  generalize hheader : (s.file.drop position).take kLengthBytes = header
  have hlt : valueLE header < 2 ^ 64 := by
    have hlength : header.length = 8 := by
      rw [← hheader, List.length_take, List.length_drop]
      omega
    have hlt := valueLE_lt header
    rwa [hlength] at hlt
  have hbody : UInt64.ofNat (s.currentSize - position) - 8
      = UInt64.ofNat (s.currentSize - position - kLengthBytes) :=
    (UInt64.ofNat_sub (Nat.not_lt.mp hhead)).symm
  rw [hbody, UInt64.toNat_ofNat_of_lt' hlt]
  have hcheck : UInt64.ofNat (s.currentSize - position - kLengthBytes)
        < UInt64.ofNat (valueLE header)
      ↔ s.currentSize - position - kLengthBytes < valueLE header :=
    UInt64.ofNat_lt_iff_lt (show _ < 2 ^ 64 by omega) hlt
  simp only [gt_iff_lt, hcheck]
  -- the second test bounds the message by what is left of the file
  by_cases hbad : header.length < kLengthBytes ∨
      s.currentSize - position - kLengthBytes < valueLE header
  · rw [if_pos hbad, if_pos hbad]
    refine ⟨rfl, fun range hrange => ?_⟩
    rw [List.mem_singleton.mp hrange]
    show position + 8 ≤ s.file.length
    omega
  · rw [if_neg hbad, if_neg hbad]
    have hboth : ∀ range ∈ [(position, kLengthBytes), (position + kLengthBytes, valueLE header)],
        range.1 + range.2 ≤ s.file.length := by
      intro range hrange
      rcases List.mem_cons.mp hrange with rfl | hrange
      · show position + 8 ≤ _
        omega
      · rw [List.mem_singleton.mp hrange]
        show position + 8 + valueLE header ≤ _
        omega
    split
    · exact ⟨rfl, hboth⟩
    · exact ⟨rfl, hboth⟩

namespace Log

/-- The loop of `rebuild_index_from_segment` in 64-bit arithmetic, with the byte ranges that
    it reads; `none` if it has not ended after the given number of rounds. -/
def rebuildLoop64 (segmentIndex : Nat) : Nat → UInt64 → Log → Option (List (Nat × Nat) × Log)
  | 0, _, _ => none
  | rounds + 1, position, log =>
    if position < UInt64.ofNat (log.segment segmentIndex).sizes then
      let result := (log.segment segmentIndex).read64 position
      match result.2 with
      | .ok message =>
        (rebuildLoop64 segmentIndex rounds (position + (8 + UInt64.ofNat message.length))
          { log with
            index :=
              if log.nextOffset % kIndexStride = 0 ∨ position = 0 then
                log.index ++ [⟨log.nextOffset, segmentIndex, position.toNat⟩]
              else log.index
            nextOffset := log.nextOffset + 1 }).map (fun r => (result.1 ++ r.1, r.2))
      | .error _ =>
        some (result.1,
          log.setSegment segmentIndex ((log.segment segmentIndex).truncate position.toNat))
    else some ([], log)

/-- **The loop ends, and computes what it computes without bounds.** -/
theorem rebuildLoop64_eq (rounds : Nat) {log : Log} {si : Nat}
    (hsize : (log.segment si).currentSize = (log.segment si).file.length)
    (hfits : (log.segment si).file.length < 2 ^ 64) {position : Nat}
    (hpos : position ≤ (log.segment si).file.length)
    (hr : (log.segment si).file.length < position + rounds) :
    ∃ ranges, rebuildLoop64 si rounds (UInt64.ofNat position) log
        = some (ranges, rebuildLoop si rounds position log) ∧
      ∀ range ∈ ranges, range.1 + range.2 ≤ (log.segment si).file.length := by
  have hk : LogSegment.kLengthBytes = 8 := rfl
  induction rounds generalizing log position with
  | zero => omega
  | succ rounds ih =>
    have hp : (UInt64.ofNat position).toNat = position :=
      UInt64.toNat_ofNat_of_lt' (show position < 2 ^ 64 by omega)
    have hc : (UInt64.ofNat (log.segment si).sizes).toNat = (log.segment si).sizes :=
      UInt64.toNat_ofNat_of_lt' (show (log.segment si).currentSize < 2 ^ 64 by omega)
    have hlt : UInt64.ofNat position < UInt64.ofNat (log.segment si).sizes
        ↔ position < (log.segment si).sizes := by
      rw [UInt64.lt_iff_toNat_lt, hp, hc]
    have hzero : UInt64.ofNat position = 0 ↔ position = 0 := by
      rw [← UInt64.toNat_inj, hp]
      rfl
    obtain ⟨hread, hranges⟩ := LogSegment.read64_eq hsize hfits hpos
    rw [rebuildLoop64, rebuildLoop]
    by_cases hmore : position < (log.segment si).sizes
    · rw [if_pos (hlt.mpr hmore), if_pos hmore]
      dsimp only
      rw [hread]
      rcases LogSegment.read_eq_dec hsize position with ⟨e, herror, -⟩ | ⟨m, rest, hok, hdec⟩
      · rw [herror, hp]
        exact ⟨_, rfl, hranges⟩
      · -- the record ends inside the file, so the next position is in range again
        have hlen := records.length_of_dec hdec
        rw [List.length_drop, LogSegment.length_enc] at hlen
        have hnext : UInt64.ofNat position + (8 + UInt64.ofNat m.length)
            = UInt64.ofNat (position + (LogSegment.kLengthBytes + m.length)) := by
          rw [UInt64.ofNat_add, UInt64.ofNat_add]
          rfl
        let log₁ : Log :=
          { log with
            index :=
              if log.nextOffset % kIndexStride = 0 ∨ position = 0 then
                log.index ++ [⟨log.nextOffset, si, position⟩]
              else log.index
            nextOffset := log.nextOffset + 1 }
        obtain ⟨ranges, heq, hinside⟩ := @ih log₁ hsize hfits
          (position + (LogSegment.kLengthBytes + m.length))
          (by show _ ≤ (log.segment si).file.length; omega)
          (by show (log.segment si).file.length < _; omega)
        rw [hok]
        simp only [hnext, hzero, hp]
        refine ⟨((log.segment si).read64 (UInt64.ofNat position)).1 ++ ranges, ?_, ?_⟩
        · show (rebuildLoop64 si rounds _ log₁).map _ = _
          rw [heq]
          rfl
        · intro range hrange
          rcases List.mem_append.mp hrange with hrange | hrange
          · exact hranges range hrange
          · exact hinside range hrange
    · rw [if_neg (fun h => hmore (hlt.mp h)), if_neg hmore]
      exact ⟨[], rfl, fun range hrange => absurd hrange List.not_mem_nil⟩

/-! ### The longest valid prefix -/

/-- What is left of a segment is the complete records at the front of its file. -/
theorem trim_spec {s : LogSegment} (hs : s.currentSize = s.file.length) :
    s.trim.file = records.encAll (records.scan s.file) ∧
      s.trim.currentSize = s.trim.file.length := by
  obtain ⟨rest, hfile, -, -⟩ := records.exists_scan_append s.file
  have hpre : records.encAll (records.scan s.file) <+: s.file := ⟨rest, hfile.symm⟩
  unfold LogSegment.trim
  split
  · next hall => exact ⟨(hpre.eq_of_length (hall.trans hs)).symm, hs⟩
  · have hcut := (List.prefix_iff_eq_take.mp hpre).symm
    exact ⟨hcut, (congrArg List.length hcut).symm⟩

/-- Scanning the complete records of a file finds them again. -/
theorem scan_encAll_scan (b : Bytes) :
    records.scan (records.encAll (records.scan b)) = records.scan b := by
  obtain ⟨-, -, -, hvalid⟩ := records.exists_scan_append b
  exact records.scan_encAll _ hvalid

/-- Records at the front of a file are among those that a scan finds. -/
theorem encAll_prefix_scan {b : Bytes} (hfits : b.length < 2 ^ 64) {rs : List Bytes}
    (h : records.encAll rs <+: b) : records.encAll rs <+: records.encAll (records.scan b) := by
  have hvalid : ∀ m ∈ rs, records.Valid m := by
    intro m hm
    obtain ⟨A, B, rfl⟩ := List.append_of_mem hm
    have hlen := h.length_le
    rw [Format.encAll_append, Format.encAll_cons, List.length_append, List.length_append,
      LogSegment.length_enc] at hlen
    show m.length < 256 ^ 8
    omega
  obtain ⟨rest, rfl⟩ := h
  rw [records.scan_encAll_append rs hvalid, Format.encAll_append]
  exact List.prefix_append _ _

theorem trim_trim {s : LogSegment} (hs : s.currentSize = s.file.length) :
    s.trim.trim = s.trim := by
  obtain ⟨hfile, hsize⟩ := trim_spec hs
  rw [LogSegment.trim, if_pos]
  rw [LogSegment.sizes, hsize, hfile, scan_encAll_scan]

/-- **Segment scan.**  Whatever the file of a segment contains, `rebuild_index_from_segment`
    ends, with the result that the arithmetic without bounds gives and without reading past
    the end of the file.  It leaves the longest prefix of the file that is a sequence `rs` of
    complete records, counts these, and touches no other segment; a second run cuts nothing
    off and counts the same records. -/
theorem rebuildIndexFromSegment_keeps_longest (log : Log) (si : Nat)
    (hsi : si < log.segments.length)
    (hsize : (log.segment si).currentSize = (log.segment si).file.length)
    (hfits : (log.segment si).file.length < 2 ^ 64) :
    let file := (log.segment si).file
    let log' := rebuildIndexFromSegment si log
    (∀ rounds, file.length < rounds → ∃ ranges,
        rebuildLoop64 si rounds 0 log = some (ranges, log') ∧
          ∀ range ∈ ranges, range.1 + range.2 ≤ file.length) ∧
      ∃ rs, (log'.segment si).file = records.encAll rs ∧
        (log'.segment si).currentSize = (records.encAll rs).length ∧
        records.encAll rs <+: file ∧
        (∀ rs', records.encAll rs' <+: file → records.encAll rs' <+: records.encAll rs) ∧
        (∀ j, j ≠ si → log'.segment j = log.segment j) ∧
        log'.nextOffset = log.nextOffset + rs.length ∧
        (rebuildIndexFromSegment si log').segments = log'.segments ∧
        (rebuildIndexFromSegment si log').nextOffset = log'.nextOffset + rs.length := by
  intro file log'
  have hlog' : log' = _ := rebuildIndexFromSegment_eq hsi hsize
  have hsi' : si < log'.segments.length := by
    rw [hlog', List.length_set]
    exact hsi
  have hsegment : log'.segment si = (log.segment si).trim := by
    rw [segment_eq_getElem hsi', List.getElem_of_eq (congrArg Log.segments hlog'),
      List.getElem_set_self]
  obtain ⟨hfile, htrim⟩ := trim_spec hsize
  have hsize' : (log'.segment si).currentSize = (log'.segment si).file.length := by
    rw [hsegment, htrim]
  obtain ⟨rest, hrest, -, -⟩ := records.exists_scan_append file
  refine ⟨fun rounds hr => ?_, records.scan file, by rw [hsegment, hfile], ?_,
    ⟨rest, hrest.symm⟩, fun rs' => encAll_prefix_scan hfits, fun j hj => ?_, ?_, ?_, ?_⟩
  · -- more rounds than needed make no difference
    have hr' : (log.segment si).file.length < 0 + rounds := by rwa [Nat.zero_add]
    obtain ⟨ranges, heq, hinside⟩ := rebuildLoop64_eq rounds hsize hfits (Nat.zero_le _) hr'
    refine ⟨ranges, heq.trans ?_, hinside⟩
    rw [hlog']
    exact congrArg (fun l => some (ranges, l))
      (rebuildLoop_eq rounds hsi (A := []) (by simp) rfl hsize hr)
  · rw [hsize', hsegment, hfile]
  · rw [hlog']
    show (log.segments.set si _).getD j _ = log.segments.getD j _
    rw [List.getD_eq_getElem?_getD, List.getD_eq_getElem?_getD, List.getElem?_set_ne hj.symm]
  · rw [hlog']
  · -- the second run finds the same records, so nothing is left to cut
    rw [rebuildIndexFromSegment_eq hsi' hsize']
    dsimp only
    rw [hsegment, trim_trim hsize, ← hsegment, segment_eq_getElem hsi', List.set_getElem_self]
  · rw [rebuildIndexFromSegment_eq hsi' hsize']
    dsimp only
    rw [hsegment, hfile, scan_encAll_scan]

/-- Two records and a length field of `2 ^ 64 - 1` behind them. -/
theorem rebuildIndexFromSegment_keeps_longest_huge_length :
    let contents := records.encAll [[7], []] ++ List.replicate 8 255 ++ [1, 2, 3]
    let log : Log :=
      { segments := [LogSegment.reopen (segmentName 0) contents], index := [],
        activeSegmentIndex := 0, nextOffset := 0, maxSegmentSize := 100, wal := [],
        syncBatchSize := 1, pendingAppends := 0 }
    (rebuildIndexFromSegment 0 log).nextOffset = 2 ∧
      ∃ ranges, rebuildLoop64 0 29 0 log = some (ranges, rebuildIndexFromSegment 0 log) ∧
        ∀ range ∈ ranges, range.1 + range.2 ≤ 28 := by
  intro contents log
  have hspec := rebuildIndexFromSegment_keeps_longest log 0 (by decide) rfl (by decide)
  exact ⟨by decide +kernel, hspec.1 29 (by decide)⟩

end Log

end StreamingPlatform
