import StreamingPlatform.Lib.Path
import StreamingPlatform.Storage.Messages

namespace StreamingPlatform

open ByteString

/-!
# Storage — where the logs are (`storage_engine.cpp`)

The directory of a log is `data_directory / key`, where the key begins with the topic, and
a topic is whatever a client sends.  A topic may hold slashes and `..`, and the last
component of the path is always a name, since the key ends with `-` and the partition
(`logDirectory_eq`): the log lies in the directory to which the part of the topic before
its last slash leads, which is where two logs can meet and where a log can leave the data
directory (`logs_isolated_iff`).
-/

/-- `StorageEngine::log_directory_for_key`. -/
def logDirectoryForKey (dataDirectory key : Bytes) : Bytes := Path.append dataDirectory key

/-- The directory in which the log of a topic-partition is, for a broker that was started in
    the directory `cwd`. -/
def logDirectory (cwd : List Bytes) (dataDirectory topic : Bytes) (partition : Int) :
    List Bytes :=
  Path.resolve cwd (logDirectoryForKey dataDirectory (makeKey topic partition))

/-- `directory` lies below `data`. -/
structure StrictlyInside (data directory : List Bytes) : Prop where
  below : data <+: directory
  ne : directory ≠ data

/-- Two topic-partitions have logs in different directories, both below the data
    directory. -/
structure Isolated (cwd : List Bytes) (dataDirectory topic : Bytes) (partition : Int)
    (topic' : Bytes) (partition' : Int) : Prop where
  apart : logDirectory cwd dataDirectory topic partition
    ≠ logDirectory cwd dataDirectory topic' partition'
  inside : StrictlyInside (Path.resolve cwd dataDirectory)
    (logDirectory cwd dataDirectory topic partition)
  inside' : StrictlyInside (Path.resolve cwd dataDirectory)
    (logDirectory cwd dataDirectory topic' partition')

/-- Where the part of a topic before its last slash leads. -/
def topicParent (data : List Bytes) (topic : Bytes) : List Bytes :=
  Path.walk (if Path.isAbsolute topic then [] else data) (Path.split topic).1

/-- What stands after the last slash of a topic. -/
def topicName (topic : Bytes) : Bytes := (Path.split topic).2

section Directories

variable {cwd : List Bytes} {dataDirectory topic topic' : Bytes} {partition partition' : Int}

/-- What a key adds to the topic holds no slash. -/
theorem slash_notMem_suffix (hp : 0 ≤ partition) :
    Path.slash ∉ ofString "-" ++ decimalInt partition := by
  obtain ⟨n, rfl⟩ := Int.eq_ofNat_of_zero_le hp
  intro hmem
  rcases List.mem_append.mp hmem with hdash | hdigit
  · exact absurd hdash (by decide)
  · exact absurd (mem_decimal hdigit).1 (by decide)

theorem split_makeKey (hp : 0 ≤ partition) :
    Path.split (makeKey topic partition)
      = ((Path.split topic).1, makeKey (topicName topic) partition) := by
  unfold makeKey
  rw [List.append_assoc, Path.split_append (slash_notMem_suffix hp), List.append_assoc]
  rfl

/-- **Where a log is**: below the directory to which the topic leads, under the name of the
    key. -/
theorem logDirectory_eq (htopic : topic ≠ []) (hp : 0 ≤ partition) :
    logDirectory cwd dataDirectory topic partition
      = topicParent (Path.resolve cwd dataDirectory) topic
        ++ [makeKey (topicName topic) partition] := by
  have habsolute : Path.isAbsolute (makeKey topic partition) = Path.isAbsolute topic := by
    unfold makeKey
    rw [List.append_assoc]
    exact Path.isAbsolute_append htopic _
  -- the last component is a name, because there is a `-` in it
  have hname : ∀ directory, Path.step directory (makeKey (topicName topic) partition)
      = directory ++ [makeKey (topicName topic) partition] := by
    intro directory
    have hdash : (45 : UInt8) ∈ makeKey (topicName topic) partition := by
      unfold makeKey
      exact List.mem_append_left _ (List.mem_append_right _ (by decide))
    exact Path.step_of_mem hdash (by decide) directory
  have hwalk : ∀ directory, Path.walk directory (Path.components (makeKey topic partition))
      = Path.walk directory (Path.split topic).1 ++ [makeKey (topicName topic) partition] := by
    intro directory
    rw [Path.components, split_makeKey hp, Path.walk_append]
    exact hname _
  unfold logDirectory logDirectoryForKey topicParent
  by_cases habs : Path.isAbsolute topic = true
  · rw [Path.append, habsolute, if_pos habs, Path.resolve, habsolute, if_pos habs, if_pos habs,
      hwalk]
  · rw [if_neg habs, Path.resolve_append cwd dataDirectory
      (habsolute.trans (Bool.eq_false_of_not_eq_true habs)), hwalk]

/-- Two logs are in one directory if the topics lead to one place and have one name. -/
theorem logDirectory_eq_iff (htopic : topic ≠ []) (htopic' : topic' ≠ []) (hp : 0 ≤ partition)
    (hp' : 0 ≤ partition') :
    logDirectory cwd dataDirectory topic partition
        = logDirectory cwd dataDirectory topic' partition'
      ↔ topicParent (Path.resolve cwd dataDirectory) topic
          = topicParent (Path.resolve cwd dataDirectory) topic' ∧
        topicName topic = topicName topic' ∧ partition = partition' := by
  rw [logDirectory_eq htopic hp, logDirectory_eq htopic' hp']
  constructor
  · intro heq
    obtain ⟨hparent, hname⟩ := List.append_inj' heq rfl
    exact ⟨hparent, makeKey_injective hp hp' (List.cons.inj hname).1⟩
  · rintro ⟨hparent, hname, rfl⟩
    rw [hparent, hname]

theorem strictlyInside_concat_iff {data parent : List Bytes} {name : Bytes} :
    StrictlyInside data (parent ++ [name]) ↔ data <+: parent := by
  constructor
  · rintro ⟨hbelow, hne⟩
    rcases List.prefix_concat_iff.mp hbelow with heq | hparent
    · exact absurd heq.symm hne
    · exact hparent
  · intro hparent
    refine ⟨hparent.trans (List.prefix_append _ _), fun heq => ?_⟩
    -- nothing lies below a directory and is as short
    have hle := hparent.length_le
    rw [← heq, List.length_append, List.length_singleton] at hle
    omega

/-- **Isolation.**  The logs of two topic-partitions are in different directories below the
    data directory exactly if neither topic leads out of it before its last slash, and the
    two do not lead to the same directory, name and partition. -/
theorem logs_isolated_iff (cwd : List Bytes) (dataDirectory : Bytes) {topic topic' : Bytes}
    {partition partition' : Int} (htopic : topic ≠ []) (htopic' : topic' ≠ [])
    (hp : 0 ≤ partition) (hp' : 0 ≤ partition') :
    Isolated cwd dataDirectory topic partition topic' partition'
      ↔ Path.resolve cwd dataDirectory <+: topicParent (Path.resolve cwd dataDirectory) topic ∧
        Path.resolve cwd dataDirectory <+: topicParent (Path.resolve cwd dataDirectory) topic' ∧
        ¬ (topicParent (Path.resolve cwd dataDirectory) topic
            = topicParent (Path.resolve cwd dataDirectory) topic' ∧
          topicName topic = topicName topic' ∧ partition = partition') := by
  constructor
  · rintro ⟨hapart, hinside, hinside'⟩
    rw [logDirectory_eq htopic hp, strictlyInside_concat_iff] at hinside
    rw [logDirectory_eq htopic' hp', strictlyInside_concat_iff] at hinside'
    exact ⟨hinside, hinside', fun h => hapart ((logDirectory_eq_iff htopic htopic' hp hp').mpr h)⟩
  · rintro ⟨hinside, hinside', hapart⟩
    refine ⟨fun heq => hapart ((logDirectory_eq_iff htopic htopic' hp hp').mp heq), ?_, ?_⟩
    · rw [logDirectory_eq htopic hp, strictlyInside_concat_iff]
      exact hinside
    · rw [logDirectory_eq htopic' hp', strictlyInside_concat_iff]
      exact hinside'

/-- Two partitions of one plain topic. -/
theorem logs_isolated_iff_plain :
    Isolated [ofString "srv"] (ofString "data") (ofString "a") 0 (ofString "a") 1 :=
  (logs_isolated_iff [ofString "srv"] (ofString "data") (by decide) (by decide) (by decide)
    (by decide)).mpr ⟨by decide, by decide, by decide⟩

/-- Topic `../x` has its log beside the data directory, topic `/etc/x` anywhere, and the
    topics `a/../b` and `b` have theirs in one directory. -/
theorem logs_not_isolated :
    let directory := logDirectory [ofString "srv"] (ofString "data")
    directory (ofString "../x") 0 = [ofString "srv", ofString "x-0"] ∧
      directory (ofString "/etc/x") 0 = [ofString "etc", ofString "x-0"] ∧
      directory (ofString "a/../b") 0 = directory (ofString "b") 0 ∧
      ¬ StrictlyInside (Path.resolve [ofString "srv"] (ofString "data"))
        (directory (ofString "../x") 0) := by
  refine ⟨by decide +kernel, by decide +kernel, by decide +kernel, fun hinside => ?_⟩
  exact absurd hinside.below (by decide +kernel)

end Directories

end StreamingPlatform
