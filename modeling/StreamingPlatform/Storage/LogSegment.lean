import StreamingPlatform.Lib.Format

namespace StreamingPlatform

open ByteString

/-!
# Storage — one segment file (`log_segment.cpp`)

A segment is a file of length-prefixed records: an 8-byte little-endian length, then
that many bytes.  The model keeps the file's bytes next to the in-memory
`current_size`, which the code checks every read against.  File operations succeed;
what a crash may take away is bounded by `synced`, the part of the file that a
completed `fsync` covers.  Paths are relative to the log's own directory, and
`base_offset`, which nothing reads, is left out.
-/

/-- The standard exceptions the broker's code throws or catches, with their text. -/
inductive StdException where
  | outOfRange (what : String)
  | invalidArgument (what : String)
  | runtimeError (what : String)
  deriving DecidableEq, Repr

/-- An open segment file. -/
structure LogSegment where
  /-- File name inside the log directory. -/
  filePath : Bytes
  /-- The bytes of the file. -/
  file : Bytes
  currentSize : Nat
  /-- How many bytes of the file are known to be on stable storage. -/
  synced : Nat
  deriving DecidableEq, Repr

namespace LogSegment

/-- `sizeof(uint64_t)`, the size of a record's length field. -/
abbrev kLengthBytes : Nat := 8

/-- Construct a segment on a file that already has some contents (none for a new
    file).  What is read back from the disk is on the disk. -/
def reopen (filePath contents : Bytes) : LogSegment :=
  { filePath, file := contents, currentSize := contents.length, synced := contents.length }

/-- `LogSegment::append`: write length and message at the end of the file, and return
    the position the record starts at. -/
def append (s : LogSegment) (message : Bytes) : Nat × LogSegment :=
  (s.currentSize,
   { s with
     file := s.file ++ (putLE kLengthBytes message.length ++ message)
     currentSize := s.currentSize + (kLengthBytes + message.length) })

/-- `LogSegment::read`: the record that starts at `position`.  The length field is
    checked against what is left of the file before the message is read. -/
def read (s : LogSegment) (position : Nat) : Except StdException Bytes :=
  if s.currentSize < position ∨ s.currentSize - position < kLengthBytes then
    .error (.outOfRange "invalid record position")
  else
    let header := (s.file.drop position).take kLengthBytes
    let length := valueLE header
    if header.length < kLengthBytes ∨ s.currentSize - position - kLengthBytes < length then
      .error (.outOfRange "incomplete record")
    else
      let message := (s.file.drop (position + kLengthBytes)).take length
      if message.length < length then .error (.outOfRange "incomplete record")
      else .ok message

/-- `LogSegment::sync`: everything written so far reaches stable storage. -/
def sync (s : LogSegment) : LogSegment := { s with synced := s.file.length }

/-- `LogSegment::truncate`: shrink the file to `size` bytes and reopen it. -/
def truncate (s : LogSegment) (size : Nat) : LogSegment :=
  { s with
    file := s.file.take size
    currentSize := size
    synced := min s.synced size }

/-- `LogSegment::sizes`. -/
def sizes (s : LogSegment) : Nat := s.currentSize

/-! ### Reading is decoding -/

/-- The record format of a segment file. -/
def records : Format Bytes := prefixed kLengthBytes (by decide)

theorem append_file (s : LogSegment) (message : Bytes) :
    (s.append message).2.file = s.file ++ records.enc message := rfl

/-- A record takes its length field and its message. -/
theorem length_enc (m : Bytes) : (records.enc m).length = kLengthBytes + m.length :=
  length_putPrefixed _ _

/-- On a segment whose size matches its file, `read` succeeds exactly when a record can
    be decoded at that position, and returns it. -/
theorem read_eq_dec {s : LogSegment} (hs : s.currentSize = s.file.length) (position : Nat) :
    (∃ e, s.read position = .error (.outOfRange e) ∧ records.dec (s.file.drop position) = none) ∨
    (∃ m rest, s.read position = .ok m ∧ records.dec (s.file.drop position) = some (m, rest)) := by
  have hlen : (s.file.drop position).length = s.currentSize - position := by
    rw [List.length_drop, hs]
  have hdec : records.dec (s.file.drop position) = getPrefixed 8 (s.file.drop position) := rfl
  rw [hdec, getPrefixed, hlen]
  simp only [read, kLengthBytes]
  by_cases h₁ : s.currentSize - position < 8
  · rw [if_pos (Or.inr h₁), if_pos h₁]
    exact Or.inl ⟨_, rfl, rfl⟩
  · have hhead : ((s.file.drop position).take 8).length = 8 := by
      rw [List.length_take, hlen]; omega
    rw [if_neg (by omega), if_neg h₁, hhead]
    by_cases h₂ : s.currentSize - position - 8 < valueLE ((s.file.drop position).take 8)
    · rw [if_pos (Or.inr h₂), if_pos h₂]
      exact Or.inl ⟨_, rfl, rfl⟩
    · -- the length field leaves room for the message, so the last check passes too
      have hmsg : ¬ ((s.file.drop (position + 8)).take
          (valueLE ((s.file.drop position).take 8))).length
          < valueLE ((s.file.drop position).take 8) := by
        rw [List.length_take, List.length_drop, ← hs]; omega
      rw [if_neg (by omega), if_neg h₂, if_neg hmsg, List.drop_drop]
      exact Or.inr ⟨_, _, rfl, rfl⟩

/-- `read` at the start of a record returns that record. -/
theorem read_record {s : LogSegment} (hs : s.currentSize = s.file.length)
    {xs : List Bytes} {m : Bytes} (rest : Bytes) (hm : records.Valid m)
    (hfile : s.file = records.encAll xs ++ (records.enc m ++ rest)) :
    s.read (records.encAll xs).length = .ok m := by
  have hdec : records.dec (s.file.drop (records.encAll xs).length) = some (m, rest) := by
    rw [hfile, List.drop_left' rfl, records.dec_enc m rest hm]
  rcases read_eq_dec hs (records.encAll xs).length with ⟨e, _, hnone⟩ | ⟨m', rest', hread, hsome⟩
  · rw [hdec] at hnone
    exact absurd hnone (by simp)
  · rw [hdec] at hsome
    simp only [Option.some.injEq, Prod.mk.injEq] at hsome
    rw [hread, hsome.1]

end LogSegment

end StreamingPlatform
