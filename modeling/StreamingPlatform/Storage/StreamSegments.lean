import StreamingPlatform.Storage.Streams

namespace StreamingPlatform

open ByteString

/-!
# Storage — what a segment's stream shows

A segment that owns its file (`Storage/LogSegment`) and a stream on a file of a directory
(`Storage/Streams`) hold the same if what waits in the stream goes to the end of the file
(`Shown`).  Appending, reading and cutting keep this and touch no other file (`ShownBy`),
whether or not a record stays in the buffer.
-/

/-! ### Files of a directory -/

section Files

variable (directory : List File) (name contents : Bytes)

theorem contentsOf_cons (f : File) :
    contentsOf (f :: directory) name
      = if f.name = name then f.contents else contentsOf directory name := by
  unfold contentsOf
  by_cases h : f.name = name
  · rw [if_pos h, List.find?_cons_of_pos (by simpa using h)]
  · rw [if_neg h, List.find?_cons_of_neg (by simpa using h)]

/-- A file that is not there reads as an empty one. -/
theorem contentsOf_of_notMem (h : name ∉ directory.map File.name) :
    contentsOf directory name = [] := by
  induction directory with
  | nil => rfl
  | cons f directory ih =>
    rw [List.map_cons, List.mem_cons, not_or] at h
    rw [contentsOf_cons, if_neg (Ne.symm h.1), ih h.2]

/-- A file is found by its name if no two files share one. -/
theorem contentsOf_of_mem (hnodup : (directory.map File.name).Nodup) {f : File}
    (hf : f ∈ directory) : contentsOf directory f.name = f.contents := by
  induction directory with
  | nil => exact absurd hf (by simp)
  | cons g directory ih =>
    rw [List.map_cons, List.nodup_cons] at hnodup
    rw [contentsOf_cons]
    rcases List.mem_cons.mp hf with rfl | hf
    · rw [if_pos rfl]
    · have hne : g.name ≠ f.name := fun heq => hnodup.1 (heq ▸ List.mem_map_of_mem hf)
      rw [if_neg hne, ih hnodup.2 hf]

/-- A new file at the end is the one that is found if there is no other of its name. -/
theorem contentsOf_concat (name' : Bytes) (h : name ∉ directory.map File.name) :
    contentsOf (directory ++ [⟨name, contents⟩]) name'
      = if name' = name then contents else contentsOf directory name' := by
  induction directory with
  | nil =>
    rw [List.nil_append, contentsOf_cons]
    by_cases hname : name' = name
    · rw [if_pos hname.symm, if_pos hname]
    · rw [if_neg (Ne.symm hname), if_neg hname]
  | cons f directory ih =>
    rw [List.map_cons, List.mem_cons, not_or] at h
    rw [List.cons_append, contentsOf_cons, contentsOf_cons, ih h.2]
    by_cases hname : name' = name
    · have hf : f.name ≠ name' := fun heq => h.1 (hname.symm.trans heq.symm)
      rw [if_neg hf, if_pos hname, if_pos hname]
    · rw [if_neg hname, if_neg hname]

/-- Replacing the contents of the files of one name. -/
theorem contentsOf_replace (name' : Bytes) (h : name' = name → name ∈ directory.map File.name) :
    contentsOf (directory.map (fun f => if f.name == name then ⟨name, contents⟩ else f)) name'
      = if name' = name then contents else contentsOf directory name' := by
  induction directory with
  | nil =>
    have hname : name' ≠ name := fun heq => absurd (h heq) (by simp)
    rw [if_neg hname]
    rfl
  | cons f directory ih =>
    rw [List.map_cons, contentsOf_cons, contentsOf_cons]
    by_cases hname : name' = name
    · rw [if_pos hname]
      by_cases hf : f.name = name
      · simp [hf, hname]
      · have hrest : name ∈ directory.map File.name := by
          rcases List.mem_cons.mp (h hname) with heq | hmem
          · exact absurd heq.symm hf
          · exact hmem
        have hne : f.name ≠ name' := fun heq => hf (heq.trans hname)
        rw [ih (fun _ => hrest), if_pos hname]
        simp [hf, hne]
    · rw [if_neg hname, ih (fun heq => absurd heq hname), if_neg hname]
      by_cases hf : f.name = name
      · simp [hf, Ne.symm hname]
      · simp [hf]

/-- What is read after a file was written. -/
theorem contentsOf_setContents (name' : Bytes) :
    contentsOf (setContents directory name contents) name'
      = if name' = name then contents else contentsOf directory name' := by
  unfold setContents
  split
  · next hany =>
    refine contentsOf_replace _ _ _ _ (fun _ => ?_)
    simpa using hany
  · next hany =>
    refine contentsOf_concat _ _ _ _ (fun hmem => hany ?_)
    simpa using hmem

end Files

/-! ### Segments -/

/-- **A segment as its stream shows it**: the file, and after it what waits in the stream. -/
structure Shown (directory : List File) (st : SegmentStream) (seg : LogSegment) : Prop where
  path : seg.filePath = st.filePath
  size : seg.currentSize = st.currentSize
  length : seg.currentSize = seg.file.length
  file : seg.file = contentsOf directory st.filePath ++ st.unwritten
  atEnd : st.unwritten ≠ [] → st.putPosition = (contentsOf directory st.filePath).length

/-- An operation on a stream: the segment is shown afterwards, and no other file changes. -/
structure ShownBy (directory : List File) (st : SegmentStream)
    (changed : SegmentStream × List File) (seg : LogSegment) : Prop where
  shown : Shown changed.2 changed.1 seg
  path : changed.1.filePath = st.filePath
  elsewhere : ∀ name, name ≠ st.filePath → contentsOf changed.2 name = contentsOf directory name

theorem SegmentStream.flush_fst (st : SegmentStream) (directory : List File) :
    (st.flush directory).1 = { st with unwritten := [] } := by
  unfold flush
  split
  · next hempty => rw [← hempty]
  · rfl

theorem SegmentStream.flush_eq (st : SegmentStream) (directory : List File) :
    st.flush directory = ({ st with unwritten := [] }, (st.flush directory).2) :=
  Prod.ext (st.flush_fst directory) rfl

/-- A file that is created is empty, as it was before. -/
theorem contentsOf_reopen (name : Bytes) (directory : List File) (name' : Bytes) :
    contentsOf (SegmentStream.reopen name directory).2 name' = contentsOf directory name' := by
  show contentsOf (setContents _ _ _) _ = _
  rw [contentsOf_setContents]
  split
  · next hname => rw [hname]
  · rfl

theorem shown_reopen (name : Bytes) (directory : List File) :
    Shown (SegmentStream.reopen name directory).2 (SegmentStream.reopen name directory).1
      (LogSegment.reopen name (contentsOf directory name)) where
  path := rfl
  size := rfl
  length := rfl
  file := by
    show _ = contentsOf (SegmentStream.reopen name directory).2 name ++ []
    rw [contentsOf_reopen, List.append_nil]
    rfl
  atEnd := fun hne => absurd rfl hne

namespace Shown

variable {directory directory' : List File} {st : SegmentStream} {seg seg' : LogSegment}

/-- Only the segment's own file counts. -/
theorem congr (h : Shown directory st seg)
    (hsame : contentsOf directory' st.filePath = contentsOf directory st.filePath) :
    Shown directory' st seg where
  path := h.path
  size := h.size
  length := h.length
  file := by rw [h.file, hsame]
  atEnd := by rw [hsame]; exact h.atEnd

theorem refl (h : Shown directory st seg) : ShownBy directory st (st, directory) seg :=
  ⟨h, rfl, fun _ _ => rfl⟩

/-- What is written at the end of a file is appended to it. -/
theorem overwrite_length (contents bytes : Bytes) :
    overwrite contents contents.length bytes = contents ++ bytes := by
  simp [overwrite]

theorem contentsOf_flush (h : Shown directory st seg) (name : Bytes) :
    contentsOf (st.flush directory).2 name
      = if name = st.filePath then seg.file else contentsOf directory name := by
  unfold SegmentStream.flush
  split
  · next hempty =>
    by_cases hname : name = st.filePath
    · rw [if_pos hname, hname, h.file, hempty, List.append_nil]
    · rw [if_neg hname]
  · next hwaiting => rw [contentsOf_setContents, h.atEnd hwaiting, overwrite_length, ← h.file]

theorem sync (h : Shown directory st seg) : Shown directory st seg.sync :=
  ⟨h.path, h.size, h.length, h.file, h.atEnd⟩

/-- Flushing a stream changes nothing that can be seen through it. -/
theorem flush (h : Shown directory st seg) : ShownBy directory st (st.flush directory) seg where
  shown := by
    have hfile := h.contentsOf_flush st.filePath
    rw [if_pos rfl] at hfile
    rw [SegmentStream.flush_fst]
    exact ⟨h.path, h.size, h.length, by rw [hfile, List.append_nil], fun hne => absurd rfl hne⟩
  path := by rw [SegmentStream.flush_fst]
  elsewhere := fun name hname => by rw [h.contentsOf_flush, if_neg hname]

/-- **Append**, whether or not the record stays in the buffer. -/
theorem append (h : Shown directory st seg) (buffers : Nat → Bool) (message : Bytes) :
    (st.append buffers message directory).1 = (seg.append message).1 ∧
      ShownBy directory st (st.append buffers message directory).2 (seg.append message).2 := by
  have hfile : contentsOf (st.flush directory).2 st.filePath = seg.file := by
    rw [h.contentsOf_flush, if_pos rfl]
  -- the record waits for the end of the file, after what was there before
  have hwritten : Shown (st.flush directory).2
      { st with
        currentSize := st.currentSize + (LogSegment.kLengthBytes + message.length)
        unwritten := putLE LogSegment.kLengthBytes message.length ++ message
        putPosition := (contentsOf (st.flush directory).2 st.filePath).length }
      (seg.append message).2 := by
    refine ⟨h.path, congrArg (· + (LogSegment.kLengthBytes + message.length)) h.size, ?_, ?_,
      fun _ => rfl⟩
    · show seg.currentSize + (LogSegment.kLengthBytes + message.length)
        = (seg.file ++ LogSegment.records.enc message).length
      rw [List.length_append, LogSegment.length_enc, h.length]
    · show seg.file ++ (putLE LogSegment.kLengthBytes message.length ++ message) = _
      rw [hfile]
  unfold SegmentStream.append
  rw [SegmentStream.flush_eq]
  refine ⟨h.size.symm, ?_⟩
  dsimp only
  split
  · exact ⟨hwritten, rfl, h.flush.elsewhere⟩
  · refine ⟨hwritten.flush.shown, hwritten.flush.path, fun name hname => ?_⟩
    rw [hwritten.flush.elsewhere name hname, h.flush.elsewhere name hname]

/-- **Read.** -/
theorem read (h : Shown directory st seg) (position : Nat) :
    (st.read position directory).1 = seg.read position ∧
      ShownBy directory st (st.read position directory).2 seg := by
  unfold SegmentStream.read
  split
  · next hrefused =>
    rw [← h.size] at hrefused
    refine ⟨?_, h.refl⟩
    unfold LogSegment.read
    rw [if_pos hrefused]
  · refine ⟨?_, h.flush⟩
    rw [SegmentStream.flush_eq]
    dsimp only
    rw [h.contentsOf_flush, if_pos rfl, ← h.size]
    rfl

theorem truncate (h : Shown directory st seg) {size : Nat} (hsize : size ≤ seg.currentSize) :
    ShownBy directory st (st.truncate size directory) (seg.truncate size) := by
  have hcut : contentsOf (st.flush directory).2 st.filePath = seg.file := by
    rw [h.contentsOf_flush, if_pos rfl]
  have hlength : (seg.file.take size).length = size := by
    rw [List.length_take, ← h.length, Nat.min_eq_left hsize]
  unfold SegmentStream.truncate
  rw [SegmentStream.flush_eq]
  dsimp only
  rw [hcut]
  refine ⟨⟨h.path, ?_, hlength.symm, ?_, fun hne => absurd rfl hne⟩, rfl, fun name hname => ?_⟩
  · show size = (contentsOf _ _).length
    rw [contentsOf_setContents, if_pos rfl, hlength]
  · show seg.file.take size = contentsOf _ st.filePath ++ []
    rw [contentsOf_reopen, contentsOf_setContents, if_pos rfl, List.append_nil]
  · rw [contentsOf_reopen, contentsOf_setContents, if_neg hname, h.flush.elsewhere name hname]

end Shown

end StreamingPlatform
