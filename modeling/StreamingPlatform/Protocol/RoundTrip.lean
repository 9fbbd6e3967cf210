import StreamingPlatform.Protocol.Codec
import Mathlib.Tactic.Ring

namespace StreamingPlatform

open ByteString

/-!
# Protocol — what is written is read back

The reads of `parse_request` are chains of small readers, so the round trip is proved
reader by reader.  `Consumes f r r' e` says that `f`, started on a payload whose rest
begins with the bytes `e`, succeeds, turns the request `r` into `r'` and moves the cursor
past `e`; chains of readers consume the concatenation (`Consumes.andThen`).
`parseRequest_encodeRequest` and `parseResponse_serializeResponse` put the pieces
together.
-/

variable {pos : Nat} {rest : Bytes} {r : Request}

namespace Codec

variable {payload : Bytes}

/-! ### Numbers and strings -/

@[simp] theorem length_putBE (n value : Nat) : (putBE n value).length = n := by
  induction n with
  | zero => rfl
  | succ n ih => rw [putBE, List.length_cons, ih]

@[simp] theorem length_putU32 (value : Nat) : (putU32 value).length = 4 := length_putBE 4 value

@[simp] theorem length_putU64 (value : Nat) : (putU64 value).length = 8 := length_putBE 8 value

@[simp] theorem length_putI32 (value : Int) : (putI32 value).length = 4 := length_putU32 _

@[simp] theorem length_putString (value : Bytes) :
    (putString value).length = 4 + value.length := by
  rw [putString, List.length_append, length_putU32]

/-- Where a byte is read, given what the rest of the payload looks like. -/
theorem getElem?_of_drop {b : UInt8} (h : payload.drop pos = b :: rest) :
    payload[pos]? = some b ∧ payload.drop (pos + 1) = rest := by
  constructor
  · have := congrArg List.head? h
    rwa [List.head?_drop] at this
  · rw [← List.drop_drop, h]
    rfl

/-- The loop reads the low bytes of what was written. -/
theorem getBE_putBE (n value acc pos : Nat) (h : payload.drop pos = putBE n value ++ rest) :
    getBE payload n acc pos
      = ⟨true, some (acc * 256 ^ n + value % 256 ^ n), pos + n⟩ := by
  induction n generalizing acc pos with
  | zero => simp [getBE, Nat.mod_one]
  | succ n ih =>
    rw [putBE, List.cons_append] at h
    obtain ⟨hbyte, hrest⟩ := getElem?_of_drop h
    rw [getBE, hbyte]
    dsimp only
    rw [ih _ _ hrest, UInt8.toNat_ofNat', show (2 : Nat) ^ 8 = 256 from rfl]
    -- shifting in the byte is adding its digit
    have hdigit : value % 256 ^ (n + 1)
        = value / 256 ^ n % 256 * 256 ^ n + value % 256 ^ n := by
      rw [pow_succ, Nat.mod_mul]
      ring
    have hsum : ∀ d v : Nat,
        (acc * 256 + d) * 256 ^ n + v = acc * 256 ^ (n + 1) + (d * 256 ^ n + v) := by
      intro d v
      rw [pow_succ]
      ring
    rw [hdigit, hsum, Nat.add_assoc, Nat.add_comm 1 n]

/-- Numbers are read as they were written. -/
theorem getU32_putU32 {value : Nat} (hv : value < 2 ^ 32)
    (h : payload.drop pos = putU32 value ++ rest) :
    getU32 payload pos = ⟨true, some value, pos + 4⟩ := by
  rw [getU32, getBE_putBE 4 value 0 pos h, Nat.zero_mul, Nat.zero_add, Nat.mod_eq_of_lt (by omega)]

theorem getU64_putU64 {value : Nat} (hv : value < 2 ^ 64)
    (h : payload.drop pos = putU64 value ++ rest) :
    getU64 payload pos = ⟨true, some value, pos + 8⟩ := by
  rw [getU64, getBE_putBE 8 value 0 pos h, Nat.zero_mul, Nat.zero_add, Nat.mod_eq_of_lt (by omega)]

variable {e : Bytes} {r' : Request}

/-- The rest of the payload behind what was read. -/
theorem drop_of_drop (h : payload.drop pos = e ++ rest) : payload.drop (pos + e.length) = rest := by
  rw [← List.drop_drop, h, List.drop_left' rfl]

/-- So are strings, up to their limit. -/
theorem getString_putString {value : Bytes} (hv : value.length ≤ kMaxStringBytes)
    (h : payload.drop pos = putString value ++ rest) :
    getString payload pos = ⟨true, some value, pos + (putString value).length⟩ := by
  have hmax : value.length ≤ 16 * 1024 * 1024 := hv
  rw [putString, List.append_assoc] at h
  have hsize := getU32_putU32 (by omega) h
  have hrest := drop_of_drop h
  rw [length_putU32] at hrest
  have hlen : value.length ≤ payload.length - (pos + 4) := by
    rw [← List.length_drop, hrest, List.length_append]
    omega
  rw [getString, hsize]
  simp only [Option.getD_some, hv, hlen, and_self, if_true, hrest]
  rw [List.take_left' rfl, putString, List.length_append, length_putU32, Nat.add_assoc]

/-- A 32-bit integer survives the cast to `uint32_t` and back. -/
theorem toInt32_cast {value : Int} (h : IsInt32 value) :
    toInt32 (value % 2 ^ 32).toNat = value := by
  obtain ⟨hlow, hhigh⟩ := h
  unfold toInt32
  rw [Int.bmod_def]
  split <;> omega

/-! ### Chains of reads -/

/-- Started where the payload goes on with `e`, the reads `f` succeed, make `r'` out of
    `r` and end behind `e`. -/
def Consumes (payload : Bytes) (f : Step) (r r' : Request) (e : Bytes) : Prop :=
  ∀ pos rest, payload.drop pos = e ++ rest → f r pos = (true, r', pos + e.length)

/-- Steps compose as the encoding does. -/
theorem Consumes.andThen {f g : Step} {r'' : Request} {e' : Bytes} (hf : Consumes payload f r r' e)
    (hg : Consumes payload g r' r'' e') : Consumes payload (f.andThen g) r r'' (e ++ e') := by
  intro pos rest h
  rw [List.append_assoc] at h
  rw [Step.andThen, hf pos _ h]
  dsimp only
  rw [hg _ _ (drop_of_drop h), List.length_append, Nat.add_assoc]

theorem Consumes.nil (r : Request) :
    Consumes payload (fun request pos => (true, request, pos)) r r [] :=
  fun _ _ _ => rfl

/-- A field that is read as it was written. -/
theorem consumes_readInto {α : Type} {get : Nat → Read α} {set : α → Request → Request} {value : α}
    (hget : ∀ pos rest, payload.drop pos = e ++ rest → get pos = ⟨true, some value, pos + e.length⟩)
    (r : Request) : Consumes payload (readInto get set) r (set value r) e := by
  intro pos rest h
  rw [readInto, hget pos rest h]
  rfl

theorem consumes_readVia {α : Type} {get : Nat → Read α} {set : α → Request → Request} {value : α}
    (hget : ∀ pos rest, payload.drop pos = e ++ rest → get pos = ⟨true, some value, pos + e.length⟩)
    (r : Request) : Consumes payload (readVia get set) r (set value r) e := by
  intro pos rest h
  rw [readVia, hget pos rest h]
  exact consumes_readInto hget r pos rest h

/-- An integer field goes through a local variable. -/
theorem consumes_int (set : Int → Request → Request) {value : Int} (hint : IsInt32 value)
    (r : Request) :
    Consumes payload (readVia (getU32 payload) (fun v r => set (toInt32 v) r)) r (set value r)
      (putI32 value) := by
  intro pos rest h
  have hget := getU32_putU32 (by omega) h
  simp only [readVia, readInto, hget, if_true, Option.elim_some, toInt32_cast hint, putI32,
    length_putU32]

theorem consumes_topicPartition (htopic : r'.topic.length ≤ kMaxStringBytes)
    (hint : IsInt32 r'.partition) :
    Consumes payload (getTopicPartition payload) r
      { r with topic := r'.topic, partition := r'.partition } (putTopicPartition r') :=
  (consumes_readInto (fun _ _ h => getString_putString htopic h) r).andThen
    (consumes_int (fun v r => { r with partition := v }) hint _)

theorem consumes_fetchOffset {offset : Nat} (h : offset < 2 ^ 64) (r : Request) :
    Consumes payload (getFetchOffset payload) r { r with fetchOffset := offset } (putU64 offset) :=
  consumes_readInto (fun _ _ hdrop => getU64_putU64 h hdrop) r

theorem consumes_message {message : Bytes} (h : message.length ≤ kMaxStringBytes) (r : Request) :
    Consumes payload (getMessage payload) r { r with message := message } (putString message) :=
  consumes_readInto (fun _ _ hdrop => getString_putString h hdrop) r

/-- The messages of a batch, by induction. -/
theorem consumes_messages {messages : List Bytes}
    (h : ∀ m ∈ messages, m.length ≤ kMaxStringBytes) (r : Request) :
    Consumes payload (getMessages payload messages.length) r
      { r with messages := r.messages ++ messages } (messages.flatMap putString) := by
  induction messages generalizing r with
  | nil =>
    have hr : { r with messages := r.messages ++ [] } = r := by simp
    rw [hr]
    exact Consumes.nil r
  | cons m messages ih =>
    rw [List.flatMap_cons, List.length_cons, getMessages]
    have hrest := ih (fun m' hm' => h m' (List.mem_cons_of_mem _ hm'))
      { r with messages := r.messages ++ [m] }
    rw [show r.messages ++ m :: messages = r.messages ++ [m] ++ messages by simp]
    refine Consumes.andThen (consumes_readVia (fun _ _ hdrop => ?_) r) hrest
    exact getString_putString (h m List.mem_cons_self) hdrop

/-- A batch of at most `kMaxBatchMessages` messages. -/
theorem consumes_batch {messages : List Bytes} (hcount : messages.length ≤ kMaxBatchMessages)
    (h : ∀ m ∈ messages, m.length ≤ kMaxStringBytes) (r : Request) (hr : r.messages = []) :
    Consumes payload (getBatch payload) r { r with messages := messages }
      (putMessages messages) := by
  intro pos rest hdrop
  have hlt : messages.length ≤ 10000 := hcount
  rw [putMessages, List.append_assoc] at hdrop
  have hget := getU32_putU32 (by omega) hdrop
  have hrest := drop_of_drop hdrop
  rw [length_putU32] at hrest
  have hmsgs := consumes_messages h r (pos + 4) rest hrest
  simp only [getBatch, hget, Option.getD_some, hcount, and_self, if_true, hmsgs, hr,
    List.nil_append, putMessages, List.length_append, length_putU32, Nat.add_assoc]

theorem consumes_groupMember (hgroup : r'.groupId.length ≤ kMaxStringBytes)
    (hmember : r'.memberId.length ≤ kMaxStringBytes) :
    Consumes payload (getGroupMember payload) r
      { r with groupId := r'.groupId, memberId := r'.memberId }
      (putString r'.groupId ++ putString r'.memberId) :=
  (consumes_readInto (fun _ _ h => getString_putString hgroup h) r).andThen
    (consumes_readInto (fun _ _ h => getString_putString hmember h) _)

end Codec

open Codec

/-! ### Requests -/

/-- The sizes that fit the wire: strings of at most 16 MiB, batches of at most 10000
    messages, 32-bit integers and 64-bit offsets. -/
structure Request.Sized (r : Request) : Prop where
  topic : r.topic.length ≤ kMaxStringBytes
  partition : IsInt32 r.partition
  message : r.message.length ≤ kMaxStringBytes
  fetchOffset : r.fetchOffset < 2 ^ 64
  brokerId : IsInt32 r.brokerId
  groupId : r.groupId.length ≤ kMaxStringBytes
  memberId : r.memberId.length ≤ kMaxStringBytes
  count : r.messages.length ≤ kMaxBatchMessages
  messages : ∀ m ∈ r.messages, m.length ≤ kMaxStringBytes

/-- A request that the wire can carry. -/
structure Request.Fits (r : Request) : Prop extends Request.Sized r where
  type : r.type ≠ .error

/-- The fields that a request of its type carries; all others at their defaults. -/
def Request.carried (r : Request) : Request :=
  match r.type with
  | .produce | .replicate =>
    { type := r.type, topic := r.topic, partition := r.partition, message := r.message,
      fetchOffset := r.fetchOffset }
  | .batchProduce =>
    { type := r.type, topic := r.topic, partition := r.partition, messages := r.messages }
  | .batchReplicate =>
    { type := r.type, topic := r.topic, partition := r.partition, fetchOffset := r.fetchOffset,
      messages := r.messages }
  | .fetch | .commit =>
    { type := r.type, topic := r.topic, partition := r.partition, fetchOffset := r.fetchOffset }
  | .ack =>
    { type := r.type, topic := r.topic, partition := r.partition, fetchOffset := r.fetchOffset,
      brokerId := r.brokerId }
  | .heartbeat => { type := r.type, brokerId := r.brokerId }
  | .metadata | .error => { type := r.type }
  | .joinGroup | .leaveGroup | .groupAssignment =>
    { type := r.type, topic := r.topic, groupId := r.groupId, memberId := r.memberId }
  | .groupFetch | .commitOffset =>
    { type := r.type, topic := r.topic, partition := r.partition, fetchOffset := r.fetchOffset,
      groupId := r.groupId, memberId := r.memberId }

/-- The two `switch` statements agree: the reads consume what was written. -/
theorem consumes_parseFields {payload : Bytes} (h : r.Fits) :
    Consumes payload (parseFields payload r.type) { type := r.type } r.carried
      (encodeFields r) := by
  have htp : ∀ r₀ : Request, Consumes payload (getTopicPartition payload) r₀
      { r₀ with topic := r.topic, partition := r.partition } (putTopicPartition r) :=
    fun r₀ => consumes_topicPartition h.topic h.partition
  have hoff : ∀ r₀ : Request, Consumes payload (getFetchOffset payload) r₀
      { r₀ with fetchOffset := r.fetchOffset } (putU64 r.fetchOffset) :=
    consumes_fetchOffset h.fetchOffset
  have hmsg : ∀ r₀ : Request, Consumes payload (getMessage payload) r₀
      { r₀ with message := r.message } (putString r.message) :=
    consumes_message h.message
  have hbroker : ∀ r₀ : Request, Consumes payload
      (readVia (getU32 payload) (fun v r => { r with brokerId := toInt32 v })) r₀
      { r₀ with brokerId := r.brokerId } (putI32 r.brokerId) :=
    consumes_int (fun v r => { r with brokerId := v }) h.brokerId
  have hgm : ∀ r₀ : Request, Consumes payload (getGroupMember payload) r₀
      { r₀ with groupId := r.groupId, memberId := r.memberId }
      (putString r.groupId ++ putString r.memberId) :=
    fun r₀ => consumes_groupMember h.groupId h.memberId
  have hgroup : ∀ r₀ : Request, Consumes payload ((getGroupMember payload).andThen
      (readInto (getString payload) (fun v r => { r with topic := v }))) r₀
      { r₀ with groupId := r.groupId, memberId := r.memberId, topic := r.topic }
      (putString r.groupId ++ putString r.memberId ++ putString r.topic) := fun r₀ =>
    (hgm r₀).andThen (consumes_readInto (fun _ _ hd => getString_putString h.topic hd) _)
  have hcursor : ∀ r₀ : Request, Consumes payload (((getGroupMember payload).andThen
      (getTopicPartition payload)).andThen (getFetchOffset payload)) r₀
      { r₀ with groupId := r.groupId, memberId := r.memberId, topic := r.topic,
                partition := r.partition, fetchOffset := r.fetchOffset }
      (putString r.groupId ++ putString r.memberId ++ putTopicPartition r ++
        putU64 r.fetchOffset) := fun r₀ =>
    ((hgm r₀).andThen (htp _)).andThen (hoff _)
  unfold encodeFields Request.carried
  have htype := h.type
  cases ht : r.type with
  | produce => exact ((htp _).andThen (hmsg _)).andThen (hoff _)
  | fetch => exact (htp _).andThen (hoff _)
  | replicate => exact ((htp _).andThen (hoff _)).andThen (hmsg _)
  | ack => exact ((hoff _).andThen (hbroker _)).andThen (htp _)
  | heartbeat =>
    -- on success it does not matter that the local is assigned in any case
    intro pos rest hd
    have := hbroker { type := .heartbeat } pos rest hd
    rw [readVia, getU32_putU32 (by omega) hd] at this
    exact this
  | commit => exact (htp _).andThen (hoff _)
  | metadata => exact Consumes.nil _
  | joinGroup => exact hgroup _
  | leaveGroup => exact hgroup _
  | groupFetch => exact hcursor _
  | commitOffset => exact hcursor _
  | groupAssignment => exact hgroup _
  | batchProduce => exact (htp _).andThen (consumes_batch h.count h.messages _ rfl)
  | batchReplicate =>
    exact ((htp _).andThen (hoff _)).andThen (consumes_batch h.count h.messages _ rfl)
  | error => exact absurd ht htype

/-- Version and type, and the fields. -/
theorem length_encodeRequest (h : r.type ≠ .error) :
    (encodeRequest r).length = 2 + (encodeFields r).length := by
  rw [encodeRequest, if_neg h, List.length_append]
  rfl

/-- **Request round trip.** -/
theorem parseRequest_encode (h : r.Fits) : parseRequest (encodeRequest r) = r.carried := by
  have hcode := RequestType.code_le h.type
  have hlt : r.type.code < 256 := lt_of_le_of_lt hcode (by decide)
  have hbyte : (UInt8.ofNat r.type.code).toNat = r.type.code := by
    rw [UInt8.toNat_ofNat']
    omega
  have henc : encodeRequest r
      = 1 :: UInt8.ofNat r.type.code :: encodeFields r := by
    rw [encodeRequest, if_neg h.type]
    rfl
  have hdrop : (encodeRequest r).drop 2 = encodeFields r ++ [] := by
    rw [henc, List.append_nil]
    rfl
  have hfields := consumes_parseFields h 2 [] hdrop
  have hlen := length_encodeRequest h.type
  have hversion : getU8 (encodeRequest r) 0 = ⟨true, some 1, 1⟩ := by rw [henc]; rfl
  have htype : getU8 (encodeRequest r) 1 = ⟨true, some r.type.code, 2⟩ := by
    rw [henc, getU8]
    simp [hbyte]
  rw [parseRequest, hversion]
  simp only [htype, Option.getD_some, hcode, RequestType.ofCode_code, hfields, hlen,
    kProtocolVersion, and_self, if_true]

/-! ### Responses -/

/-- The responses that fit the wire. -/
structure Response.Fits (r : Response) : Prop where
  message : r.message.length ≤ kMaxStringBytes
  appendedOffset : r.appendedOffset < 2 ^ 64
  count : r.appendedOffsets.length ≤ kMaxBatchMessages
  appendedOffsets : ∀ o ∈ r.appendedOffsets, o < 2 ^ 64

/-- The offsets of a response, by induction. -/
theorem getOffsets_flatMap {payload : Bytes} {offsets : List Nat} (h : ∀ o ∈ offsets, o < 2 ^ 64)
    (hdrop : payload.drop pos = offsets.flatMap putU64 ++ rest) :
    getOffsets payload offsets.length pos
      = some (offsets, pos + (offsets.flatMap putU64).length) := by
  induction offsets generalizing pos with
  | nil => rfl
  | cons o offsets ih =>
    rw [List.flatMap_cons, List.append_assoc] at hdrop
    have hget := getU64_putU64 (h o List.mem_cons_self) hdrop
    have hrest := drop_of_drop hdrop
    rw [length_putU64] at hrest
    have hih := ih (fun o' ho' => h o' (List.mem_cons_of_mem _ ho')) hrest
    rw [List.length_cons, getOffsets]
    simp only [hget, if_true, hih, Option.getD_some, List.flatMap_cons, List.length_append,
      length_putU64, Nat.add_assoc]

/-- The bytes of a response: version, success, kind, offset, message, and the appended offsets
    behind their number. -/
def responseBytes (success kind : UInt8) (offset : Nat) (message : Bytes) (offsets : List Nat) :
    Bytes :=
  putU8 kProtocolVersion ++ [success] ++ [kind] ++ putU64 offset ++ putString message ++
    putU32 offsets.length ++ offsets.flatMap putU64

/-- Any byte but zero is read as success, and the kind is not looked at. -/
theorem parseResponse_responseBytes {r : Response} (h : r.Fits) (success kind : UInt8)
    (hbyte : r.success = decide (success.toNat ≠ 0)) :
    parseResponse (responseBytes success kind r.appendedOffset r.message r.appendedOffsets)
      = r := by
  have hcount : r.appendedOffsets.length ≤ 10000 := h.count
  have hbytes : responseBytes success kind r.appendedOffset r.message r.appendedOffsets
      = 1 :: success :: kind :: (putU64 r.appendedOffset ++ (putString r.message ++
        (putU32 r.appendedOffsets.length ++ (r.appendedOffsets.flatMap putU64 ++ [])))) := by
    simp only [responseBytes, List.append_assoc, List.append_nil]
    rfl
  generalize responseBytes success kind r.appendedOffset r.message r.appendedOffsets = payload
    at hbytes ⊢
  have hversion : getU8 payload 0 = ⟨true, some 1, 1⟩ := by rw [hbytes]; rfl
  have hsuccess : getU8 payload 1 = ⟨true, some success.toNat, 2⟩ := by rw [hbytes]; rfl
  have hkind : getU8 payload 2 = ⟨true, some kind.toNat, 3⟩ := by rw [hbytes]; rfl
  -- the rest of the payload behind each field
  have hdrop₀ : payload.drop 3 = putU64 r.appendedOffset ++ (putString r.message ++
      (putU32 r.appendedOffsets.length ++ (r.appendedOffsets.flatMap putU64 ++ []))) := by
    rw [hbytes]
    rfl
  have hdrop₁ := drop_of_drop hdrop₀
  have hdrop₂ := drop_of_drop hdrop₁
  have hdrop₃ := drop_of_drop hdrop₂
  have hoffset := getU64_putU64 h.appendedOffset hdrop₀
  rw [length_putU64] at hdrop₁ hdrop₂ hdrop₃
  have hmessage := getString_putString h.message hdrop₁
  have hlength := getU32_putU32 (by omega) hdrop₂
  rw [length_putU32] at hdrop₃
  have hoffsets := getOffsets_flatMap h.appendedOffsets hdrop₃
  have hlen : payload.length = 3 + 8 + (putString r.message).length + 4 +
      (r.appendedOffsets.flatMap putU64).length := by
    rw [hbytes]
    simp only [List.length_cons, List.length_append, length_putU64, length_putU32, List.length_nil]
    omega
  rw [parseResponse, hversion]
  simp only [hsuccess, hkind, hoffset, hmessage, hlength, hoffsets, Option.getD_some, h.count,
    hlen, kProtocolVersion, and_self, if_true, ← hbyte]

/-- **Response round trip.** -/
theorem parseResponse_serialize {r : Response} (h : r.Fits) :
    parseResponse (serializeResponse r) = r := by
  refine parseResponse_responseBytes h (UInt8.ofNat (if r.success then 1 else 0))
    (UInt8.ofNat (if r.message = [] then 0 else 1)) ?_
  cases r.success <;> rfl

end StreamingPlatform
