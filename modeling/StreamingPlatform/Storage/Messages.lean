import StreamingPlatform.Storage.Engine

namespace StreamingPlatform

open ByteString

/-!
# Storage — the engine over messages

Each key has a list of messages, `contents`, which is what its directory held until the
log is opened and what the open log holds from then on.  These are the facts about the
engine that the rest of the development uses: an append extends the contents of one key,
a fetch reads them.
-/

namespace StorageEngine

section Contents

variable (disk : Bytes → List Bytes) (store : StorageEngine (List Bytes))

/-- The messages of a key, whether its log has been opened or not. -/
def contents (key : Bytes) : List Bytes := (store.find? key).getD (disk key)

theorem getOrCreateLog_fst (key : Bytes) :
    (store.getOrCreateLog (messageLogs disk) key).1 = store.contents disk key := by
  unfold getOrCreateLog contents
  cases store.find? key <;> rfl

variable (topic : Bytes) (partition : Int) (message : Bytes)

/-- The offset of a new record is the number of earlier ones. -/
theorem append_fst :
    (store.append (messageLogs disk) topic partition message).1
      = (store.contents disk (makeKey topic partition)).length := by
  show ((store.getOrCreateLog (messageLogs disk) _).1).length = _
  rw [getOrCreateLog_fst]

theorem find?_append (key : Bytes) :
    (store.append (messageLogs disk) topic partition message).2.find? key
      = if key = makeKey topic partition
        then some (store.contents disk (makeKey topic partition) ++ [message])
        else store.find? key := by
  rw [find?_append_ops, getOrCreateLog_fst]
  rfl

/-- An append extends the messages of its key and of no other. -/
theorem contents_append (key : Bytes) :
    (store.append (messageLogs disk) topic partition message).2.contents disk key
      = if key = makeKey topic partition then store.contents disk key ++ [message]
        else store.contents disk key := by
  rw [contents, find?_append]
  by_cases hkey : key = makeKey topic partition
  · rw [if_pos hkey, if_pos hkey, Option.getD_some, hkey]
  · rw [if_neg hkey, if_neg hkey]
    rfl

variable {disk store topic partition}

/-- What a fetch returns is a message of the log. -/
theorem getElem?_of_fetch {offset : Nat} {m : Bytes}
    (h : store.fetch (messageLogs disk) topic partition offset = .ok m) :
    (store.contents disk (makeKey topic partition))[offset]? = some m := by
  unfold fetch at h
  cases hf : store.find? (makeKey topic partition) with
  | none => rw [hf] at h; exact absurd h (by simp)
  | some ms =>
    rw [hf] at h
    change Log.listFetch ms offset = .ok m at h
    rw [contents, hf, Option.getD_some]
    unfold Log.listFetch at h
    cases hget : ms[offset]? with
    | none => rw [hget] at h; exact absurd h (by simp)
    | some m' => rw [hget] at h; rw [Except.ok.inj h]

/-- A message of a log that is open is fetched. -/
theorem fetch_of_getElem? {offset : Nat} {m : Bytes}
    (hopen : (store.find? (makeKey topic partition)).isSome)
    (h : (store.contents disk (makeKey topic partition))[offset]? = some m) :
    store.fetch (messageLogs disk) topic partition offset = .ok m := by
  obtain ⟨ms, hms⟩ := Option.isSome_iff_exists.mp hopen
  rw [contents, hms, Option.getD_some] at h
  rw [fetch, hms]
  show Log.listFetch ms offset = .ok m
  rw [Log.listFetch, h]

end Contents

end StorageEngine

end StreamingPlatform
