import StreamingPlatform.Protocol.Message

namespace StreamingPlatform

open ByteString

/-!
# Protocol — the wire codec (`protocol.cpp`)

Writers append to a byte string.  Readers are the code's `get_*` helpers: they take the
payload and a cursor and return whether they succeeded, what they wrote to their out
parameter (if anything) and the new cursor.  `parseRequest` chains them with the
short-circuiting `&&` of the source, so a failed parse stops with the fields read so far
in place and `type` set to `error`.
-/

/-- `kProtocolVersion`. -/
def kProtocolVersion : Nat := 1

/-- `kMaxStringBytes`: 16 MiB. -/
def kMaxStringBytes : Nat := 16 * 1024 * 1024

/-- `kMaxBatchMessages`. -/
def kMaxBatchMessages : Nat := 10000

namespace Codec

/-! ### Writers -/

/-- `put_u8`. -/
def putU8 (value : Nat) : Bytes := [UInt8.ofNat value]

/-- The low `n` bytes of `value`, the most significant one first. -/
def putBE : Nat → Nat → Bytes
  | 0, _ => []
  | n + 1, value => UInt8.ofNat (value / 256 ^ n) :: putBE n value

/-- `put_u32`. -/
def putU32 (value : Nat) : Bytes := putBE 4 value

/-- `put_u64`. -/
def putU64 (value : Nat) : Bytes := putBE 8 value

/-- `put_u32(static_cast<uint32_t>(value))` for an `int`. -/
def putI32 (value : Int) : Bytes := putU32 (value % 2 ^ 32).toNat

/-- `put_string`. -/
def putString (value : Bytes) : Bytes := putU32 value.length ++ value

/-- `put_topic_partition`. -/
def putTopicPartition (request : Request) : Bytes :=
  putString request.topic ++ putI32 request.partition

/-- The count and the strings of a batch. -/
def putMessages (messages : List Bytes) : Bytes :=
  putU32 messages.length ++ messages.flatMap putString

/-! ### Readers -/

/-- What a `get_*` helper does: its return value, what it assigned to its out parameter
    and where it left the cursor. -/
structure Read (α : Type) where
  ok : Bool
  out : Option α
  pos : Nat

/-- `get_u8`. -/
def getU8 (payload : Bytes) (pos : Nat) : Read Nat :=
  match payload[pos]? with
  | none => ⟨false, none, pos⟩
  | some byte => ⟨true, some byte.toNat, pos + 1⟩

/-- The loop of `get_u32` and `get_u64`: `n` more bytes are shifted into `value`. -/
def getBE (payload : Bytes) : Nat → Nat → Nat → Read Nat
  | 0, value, pos => ⟨true, some value, pos⟩
  | n + 1, value, pos =>
    match payload[pos]? with
    | none => ⟨false, some value, pos⟩
    | some byte => getBE payload n (value * 256 + byte.toNat) (pos + 1)

/-- `get_u32`. -/
def getU32 (payload : Bytes) (pos : Nat) : Read Nat := getBE payload 4 0 pos

/-- `get_u64`. -/
def getU64 (payload : Bytes) (pos : Nat) : Read Nat := getBE payload 8 0 pos

/-- `static_cast<int32_t>` of a `uint32_t`. -/
def toInt32 (value : Nat) : Int := Int.bmod value (2 ^ 32)

/-- `get_string`. -/
def getString (payload : Bytes) (pos : Nat) : Read Bytes :=
  let size := getU32 payload pos
  let length := size.out.getD 0
  if size.ok ∧ length ≤ kMaxStringBytes ∧ length ≤ payload.length - size.pos then
    ⟨true, some ((payload.drop size.pos).take length), size.pos + length⟩
  else ⟨false, none, size.pos⟩

/-! ### Requests -/

/-- One operand of a chain of reads: the request filled in so far and the cursor go in,
    the verdict and both go out. -/
def Step := Request → Nat → Bool × Request × Nat

/-- `f && g`. -/
def Step.andThen (f g : Step) : Step := fun request pos =>
  match f request pos with
  | (true, request', pos') => g request' pos'
  | failed => failed

/-- `get(payload, pos, request.field)`: what the helper assigns goes to the field, also
    when it fails half-way. -/
def readInto {α : Type} (get : Nat → Read α) (set : α → Request → Request) : Step :=
  fun request pos =>
    ((get pos).ok, (get pos).out.elim request (fun value => set value request), (get pos).pos)

/-- `get(payload, pos, local) && (request.field = local, true)`. -/
def readVia {α : Type} (get : Nat → Read α) (set : α → Request → Request) : Step :=
  fun request pos =>
    if (get pos).ok then readInto get set request pos else (false, request, (get pos).pos)

/-- `get_topic_partition`. -/
def getTopicPartition (payload : Bytes) : Step :=
  (readInto (getString payload) (fun v r => { r with topic := v })).andThen
    (readVia (getU32 payload) (fun v r => { r with partition := toInt32 v }))

/-- The reads of `request.fetch_offset` and `request.message`. -/
def getFetchOffset (payload : Bytes) : Step :=
  readInto (getU64 payload) (fun v r => { r with fetchOffset := v })

@[inherit_doc getFetchOffset]
def getMessage (payload : Bytes) : Step :=
  readInto (getString payload) (fun v r => { r with message := v })

/-- The loop that collects a batch: `count` more messages. -/
def getMessages (payload : Bytes) : Nat → Step
  | 0 => fun request pos => (true, request, pos)
  | count + 1 =>
    (readVia (getString payload) (fun v r => { r with messages := r.messages ++ [v] })).andThen
      (getMessages payload count)

/-- `get_u32(payload, pos, count) && count <= kMaxBatchMessages`, then the loop. -/
def getBatch (payload : Bytes) : Step := fun request pos =>
  let count := getU32 payload pos
  let n := count.out.getD 0
  if count.ok ∧ n ≤ kMaxBatchMessages then getMessages payload n request count.pos
  else (false, request, count.pos)

/-- `get_string` into `group_id` and `member_id`. -/
def getGroupMember (payload : Bytes) : Step :=
  (readInto (getString payload) (fun v r => { r with groupId := v })).andThen
    (readInto (getString payload) (fun v r => { r with memberId := v }))

/-- The `switch` of `parse_request`. -/
def parseFields (payload : Bytes) : RequestType → Step
  | .produce =>
    ((getTopicPartition payload).andThen (getMessage payload)).andThen (getFetchOffset payload)
  | .batchProduce => (getTopicPartition payload).andThen (getBatch payload)
  | .batchReplicate =>
    ((getTopicPartition payload).andThen (getFetchOffset payload)).andThen (getBatch payload)
  | .fetch | .commit => (getTopicPartition payload).andThen (getFetchOffset payload)
  | .replicate =>
    ((getTopicPartition payload).andThen (getFetchOffset payload)).andThen (getMessage payload)
  | .ack =>
    ((getFetchOffset payload).andThen
      (readVia (getU32 payload) (fun v r => { r with brokerId := toInt32 v }))).andThen
      (getTopicPartition payload)
  -- the one case that assigns its local whether or not the read succeeded
  | .heartbeat => readInto (getU32 payload) (fun v r => { r with brokerId := toInt32 v })
  | .metadata => fun request pos => (true, request, pos)
  | .joinGroup | .leaveGroup | .groupAssignment =>
    (getGroupMember payload).andThen
      (readInto (getString payload) (fun v r => { r with topic := v }))
  | .groupFetch | .commitOffset =>
    ((getGroupMember payload).andThen (getTopicPartition payload)).andThen (getFetchOffset payload)
  | .error => fun request pos => (false, request, pos)

end Codec

open Codec

/-- `parse_request`. -/
def parseRequest (payload : Bytes) : Request :=
  let version := getU8 payload 0
  let type := getU8 payload version.pos
  if version.ok ∧ version.out = some kProtocolVersion ∧ type.ok ∧
      type.out.getD 0 ≤ RequestType.code .batchReplicate then
    let parsed := parseFields payload (.ofCode (type.out.getD 0))
      { type := .ofCode (type.out.getD 0) } type.pos
    if parsed.1 ∧ parsed.2.2 = payload.length then parsed.2.1
    else { parsed.2.1 with type := .error }
  else { type := .error }

/-- The `switch` of `encode_request`: the bytes after version and type. -/
def encodeFields (request : Request) : Bytes :=
  match request.type with
  | .produce =>
    putTopicPartition request ++ putString request.message ++ putU64 request.fetchOffset
  | .batchProduce => putTopicPartition request ++ putMessages request.messages
  | .batchReplicate =>
    putTopicPartition request ++ putU64 request.fetchOffset ++ putMessages request.messages
  | .fetch | .commit => putTopicPartition request ++ putU64 request.fetchOffset
  | .replicate =>
    putTopicPartition request ++ putU64 request.fetchOffset ++ putString request.message
  | .ack => putU64 request.fetchOffset ++ putI32 request.brokerId ++ putTopicPartition request
  | .heartbeat => putI32 request.brokerId
  | .metadata => []
  | .joinGroup | .leaveGroup | .groupAssignment =>
    putString request.groupId ++ putString request.memberId ++ putString request.topic
  | .groupFetch | .commitOffset =>
    putString request.groupId ++ putString request.memberId ++ putTopicPartition request ++
      putU64 request.fetchOffset
  | .error => []

/-- `encode_request`. -/
def encodeRequest (request : Request) : Bytes :=
  if request.type = .error then []
  else putU8 kProtocolVersion ++ putU8 request.type.code ++ encodeFields request

/-! ### Responses -/

/-- The answer to anything that is not a response. -/
def malformedResponse : Response := .failure "malformed_response"

/-- The loop of `parse_response` over the appended offsets. -/
def getOffsets (payload : Bytes) : Nat → Nat → Option (List Nat × Nat)
  | 0, pos => some ([], pos)
  | count + 1, pos =>
    let offset := getU64 payload pos
    if offset.ok then
      match getOffsets payload count offset.pos with
      | some (offsets, pos') => some (offset.out.getD 0 :: offsets, pos')
      | none => none
    else none

/-- `parse_response`. -/
def parseResponse (payload : Bytes) : Response :=
  let version := getU8 payload 0
  let success := getU8 payload version.pos
  let kind := getU8 payload success.pos
  if version.ok ∧ version.out = some kProtocolVersion ∧ success.ok ∧ kind.ok then
    let offset := getU64 payload kind.pos
    let message := getString payload offset.pos
    if offset.ok ∧ message.ok then
      let count := getU32 payload message.pos
      if count.ok ∧ count.out.getD 0 ≤ kMaxBatchMessages then
        match getOffsets payload (count.out.getD 0) count.pos with
        | some (offsets, pos) =>
          if pos = payload.length then
            ⟨success.out.getD 0 ≠ 0, message.out.getD [], offset.out.getD 0, offsets⟩
          else malformedResponse
        | none => malformedResponse
      else malformedResponse
    else malformedResponse
  else malformedResponse

/-- `serialize_response`. -/
def serializeResponse (response : Response) : Bytes :=
  putU8 kProtocolVersion ++ putU8 (if response.success then 1 else 0) ++
    putU8 (if response.message = [] then 0 else 1) ++ putU64 response.appendedOffset ++
    putString response.message ++ putU32 response.appendedOffsets.length ++
    response.appendedOffsets.flatMap putU64

end StreamingPlatform
