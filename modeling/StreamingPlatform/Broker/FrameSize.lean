import StreamingPlatform.Broker.Quiet
import StreamingPlatform.Protocol.Canonical
import StreamingPlatform.Protocol.Frame

namespace StreamingPlatform

open ByteString

/-!
# Broker — what is replicated and the length of a frame

A frame says in 32 bits how long its payload is.  A `REPLICATE` has the fields of the
`PRODUCE` that it comes from and so its length; a `BATCH_REPLICATE` has an offset that the
`BATCH_PRODUCE` has not, eight bytes more (`length_replicationPayload`).  The limits on
strings and batches leave room for requests that come near to 2³² bytes, so the largest
batches that can be received cannot be sent on: their frame announces a few bytes, and what
follows is taken for frames of its own (`largest_batch_overflows`).
-/

/-- What a leader sends to its peers about a request whose first record is at `offset`. -/
def replicationPayload (request : Request) (offset : Nat) : Bytes :=
  encodeRequest (if request.type = .produce then
      replicationRequest request.topic request.partition offset request.message
    else batchRequest request.topic request.partition offset request.messages)

/-- It is all that `replicate_message` and `replicate_batch` send. -/
theorem exchanges_replicationPayload (config : BrokerConfig) (request : Request) (offset : Nat) :
    (request.type = .produce →
        (replicateMessage config request.topic request.partition offset request.message).AllActs
          (Act.Exchanges (replicationPayload request offset))) ∧
      (request.type = .batchProduce →
        (replicateBatch config request.topic request.partition offset request.messages).AllActs
          (Act.Exchanges (replicationPayload request offset))) := by
  constructor
  · intro htype
    rw [replicationPayload, if_pos htype]
    exact exchanges_replicateMessage _ _ _ _
  · intro htype
    rw [replicationPayload, if_neg (by rw [htype]; decide)]
    exact exchanges_replicateBatch _ _ _ _

/-- The payload is short enough for a frame, and the length that `write_frame` puts in front
    of it is its length, however `writev` splits what it writes. -/
structure FitsFrame (payload : Bytes) : Prop where
  short : payload.length < 2 ^ 32
  announced : ∀ counts,
    Frame.ntohl ((Frame.writeFrame payload ⟨[], counts⟩).2.items.take 4) = payload.length

/-- The length on the wire. -/
theorem announced_eq (payload : Bytes) (counts : Transfer.Schedule) :
    Frame.ntohl ((Frame.writeFrame payload ⟨[], counts⟩).2.items.take 4)
      = payload.length % 2 ^ 32 := by
  obtain ⟨counts', hwritten⟩ := Frame.writeFrame_eq payload ⟨[], counts⟩
  have hheader : (Frame.wrapFrame payload).take 4 = Frame.htonl payload.length :=
    List.take_left' (Codec.length_putU32 _)
  rw [hwritten, List.nil_append, hheader, Frame.ntohl_htonl]

theorem fitsFrame_iff (payload : Bytes) : FitsFrame payload ↔ payload.length < 2 ^ 32 := by
  constructor
  · exact FitsFrame.short
  · intro hshort
    refine ⟨hshort, fun counts => ?_⟩
    rw [announced_eq, Nat.mod_eq_of_lt hshort]

/-- What is sent on is as long as what was received, and eight bytes longer if it is a
    batch. -/
theorem length_replicationPayload {payload : Bytes}
    (hproduce : (parseRequest payload).type = .produce ∨
      (parseRequest payload).type = .batchProduce) (offset : Nat) :
    (replicationPayload (parseRequest payload) offset).length
      = payload.length + if (parseRequest payload).type = .batchProduce then 8 else 0 := by
  have hbytes : encodeRequest (parseRequest payload) = payload := by
    refine encodeRequest_parse ?_
    rcases hproduce with htype | htype <;> rw [htype] <;> decide
  -- both lengths in terms of the request
  generalize parseRequest payload = request at hproduce hbytes ⊢
  rw [← hbytes, replicationPayload]
  rcases hproduce with htype | htype
  · rw [if_pos htype, if_neg (by rw [htype]; decide), Nat.add_zero,
      length_encodeRequest (by simp [replicationRequest]),
      length_encodeRequest (by rw [htype]; decide)]
    simp only [encodeFields, htype, replicationRequest, Codec.putTopicPartition,
      List.length_append, Codec.length_putU64]
    omega
  · rw [if_neg (by rw [htype]; decide), if_pos htype,
      length_encodeRequest (by simp [batchRequest]),
      length_encodeRequest (by rw [htype]; decide)]
    simp only [encodeFields, htype, batchRequest, Codec.putTopicPartition,
      List.length_append, Codec.length_putU64]
    omega

/-- **Replicated requests and their frames.**  What a leader makes of a request that it can
    receive fits a frame exactly if it is not a batch of 2³² - 8 bytes or more. -/
theorem replicationPayload_fitsFrame_iff (payload : Bytes) (hlength : payload.length < 2 ^ 32)
    (hproduce : (parseRequest payload).type = .produce ∨
      (parseRequest payload).type = .batchProduce) (offset : Nat) :
    FitsFrame (replicationPayload (parseRequest payload) offset)
      ↔ ((parseRequest payload).type = .batchProduce → payload.length + 8 < 2 ^ 32) := by
  rw [fitsFrame_iff, length_replicationPayload hproduce]
  constructor
  · intro hshort hbatch
    rwa [if_pos hbatch] at hshort
  · intro hroom
    split
    · next hbatch => exact hroom hbatch
    · exact hlength

/-- A batch of `count` messages of `size` bytes and one of `last` bytes. -/
def wideBatch (count size last : Nat) : Request :=
  { type := .batchProduce, topic := ofString "t",
    messages := List.replicate count (List.replicate size 0) ++ [List.replicate last 0] }

theorem wideBatch_fits {count size last : Nat} (hcount : count < kMaxBatchMessages)
    (hsize : size ≤ kMaxStringBytes) (hlast : last ≤ kMaxStringBytes) :
    (wideBatch count size last).Fits where
  topic := show (ofString "t").length ≤ kMaxStringBytes by decide
  partition := show IsInt32 0 by decide
  message := Nat.zero_le _
  fetchOffset := Nat.two_pow_pos 64
  brokerId := show IsInt32 0 by decide
  groupId := Nat.zero_le _
  memberId := Nat.zero_le _
  count := by
    simp only [wideBatch, List.length_append, List.length_replicate, List.length_singleton]
    omega
  messages := by
    intro m hm
    rcases List.mem_append.mp hm with hm | hm
    · rw [List.eq_of_mem_replicate hm, List.length_replicate]
      exact hsize
    · rw [List.mem_singleton.mp hm, List.length_replicate]
      exact hlast
  type := fun h => absurd h (by simp [wideBatch])

theorem length_encode_wideBatch (count size last : Nat) :
    (encodeRequest (wideBatch count size last)).length = 19 + count * (4 + size) + last := by
  have htopic : (ofString "t").length = 1 := rfl
  rw [length_encodeRequest (by simp [wideBatch])]
  simp only [encodeFields, wideBatch, Codec.putTopicPartition, Codec.putMessages,
    List.flatMap_append, List.flatMap_replicate, List.flatMap_singleton, List.length_append,
    List.length_flatten, List.map_replicate, List.sum_replicate_nat, Codec.length_putString,
    Codec.length_putI32, Codec.length_putU32, List.length_replicate, htopic]
  omega

/-- A batch that is accepted and what is sent on, in bytes. -/
theorem length_replicationPayload_wideBatch {count size last : Nat}
    (h : (wideBatch count size last).Fits) :
    parseRequest (encodeRequest (wideBatch count size last)) = wideBatch count size last ∧
      (replicationPayload (wideBatch count size last) 0).length
        = 27 + count * (4 + size) + last := by
  have hparse : parseRequest (encodeRequest (wideBatch count size last))
      = wideBatch count size last := parseRequest_encode h
  refine ⟨hparse, ?_⟩
  have hsent := @length_replicationPayload (encodeRequest (wideBatch count size last))
    (.inr (by rw [hparse]; rfl)) 0
  rw [hparse, length_encode_wideBatch] at hsent
  rw [hsent, if_pos (show (wideBatch count size last).type = .batchProduce from rfl)]
  omega

/-- **The largest batch is not replicated.**  255 messages of 16 MiB and one of a little less
    fill a frame of 2³² - 1 bytes and are accepted; what is sent on has 2³² + 7 bytes, and
    its frame announces seven. -/
theorem largest_batch_overflows :
    (encodeRequest (wideBatch 255 16777216 16776176)).length = 4294967295 ∧
      parseRequest (encodeRequest (wideBatch 255 16777216 16776176))
        = wideBatch 255 16777216 16776176 ∧
      (replicationPayload (wideBatch 255 16777216 16776176) 0).length = 4294967303 ∧
      ∀ counts, Frame.ntohl ((Frame.writeFrame
        (replicationPayload (wideBatch 255 16777216 16776176) 0) ⟨[], counts⟩).2.items.take 4)
          = 7 := by
  have hfits : (wideBatch 255 16777216 16776176).Fits :=
    wideBatch_fits (by decide) (by decide) (by decide)
  obtain ⟨hparse, hlength⟩ := length_replicationPayload_wideBatch hfits
  refine ⟨length_encode_wideBatch 255 16777216 16776176, hparse, hlength, ?_⟩
  intro counts
  rw [announced_eq, hlength]
  decide

/-- A batch of two messages. -/
theorem replicationPayload_fitsFrame_small :
    let payload := encodeRequest (wideBatch 1 2 3)
    payload.length < 2 ^ 32 ∧ (parseRequest payload).type = .batchProduce ∧
      FitsFrame (replicationPayload (parseRequest payload) 7) := by
  intro payload
  have hlength : payload.length = 28 := length_encode_wideBatch 1 2 3
  have htype : (parseRequest payload).type = .batchProduce := by decide
  refine ⟨by omega, htype, ?_⟩
  exact (replicationPayload_fitsFrame_iff payload (by omega) (.inr htype) 7).mpr
    (fun _ => by omega)

end StreamingPlatform
