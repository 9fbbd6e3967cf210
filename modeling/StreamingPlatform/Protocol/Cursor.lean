import StreamingPlatform.Lib.Traced
import StreamingPlatform.Protocol.Parsed

namespace StreamingPlatform

open ByteString Tracing

/-!
# Protocol — the cursor of the parsers (`protocol.cpp`)

`Codec` says what the parsers return.  Here they are written again one memory access at a
time, as computations that record what they do with the payload: each call of a helper at
its start and at its end, each byte that is read, each difference `in.size() - pos`, each
copy out of the payload and each round of a loop.  A read beyond the end would return some
byte and a difference below zero would wrap around, as in the source; and the loops run for
a number of rounds that is given to them.

`Stays` says what such a computation returns, and that on the way the cursor stays within
the payload and never goes back.  It holds of every helper and of every step of the two
parsers with what their counterparts in `Codec` return (`stays_getString`, `Follows`,
`stays_parseFields`), and so of the parsers (`parsers_stay_inside`).
-/

namespace Cursor

/-- The helpers that the parsers call. -/
inductive Helper where
  | getU8
  | getU32
  | getU64
  | getString
  | getTopicPartition
  deriving DecidableEq, Repr

/-- What happens to the payload, with the cursor at that moment. -/
inductive Event where
  /-- A helper is called. -/
  | enter (helper : Helper) (pos : Nat)
  /-- A helper returns. -/
  | leave (helper : Helper) (pos : Nat)
  /-- `in[pos]`. -/
  | byte (pos : Nat)
  /-- `in.size() - pos`. -/
  | room (pos : Nat)
  /-- `value.assign(in.data() + pos, size)`. -/
  | copy (pos size : Nat)
  /-- A round of the loop over the messages or the offsets begins. -/
  | round (pos : Nat)
  deriving DecidableEq, Repr

namespace Event

/-- The cursor at an event. -/
def pos : Event → Nat
  | enter _ pos | leave _ pos | byte pos | room pos | copy pos _ | round pos => pos

/-- What may happen to a payload of `size` bytes: the cursor is not behind its end, and the
    bytes that are touched are bytes of the payload. -/
def Safe (size : Nat) : Event → Prop
  | enter _ pos | leave _ pos | room pos | round pos => pos ≤ size
  | byte pos => pos < size
  | copy pos n => pos + n ≤ size

/-- The rounds of the loops. -/
def isRound : Event → Bool
  | round _ => true
  | _ => false

end Event

/-- What is asked of a parser. -/
def watch (payload : Bytes) : Watch Event where
  pos := Event.pos
  Safe := Event.Safe payload.length
  counted := Event.isRound

/-- A parser, access by access. -/
abbrev Parser (α : Type) := Traced Event α

/-- The difference of two `size_t`. -/
def sizeMinus (size pos : Nat) : Nat :=
  if pos ≤ size then size - pos else size + 2 ^ 64 - pos

section Helpers

variable (payload : Bytes)

/-- `in[pos++]`. -/
def nextByte : Parser Nat := fun pos =>
  some ⟨(payload.getD pos 0).toNat, pos + 1, [.byte pos]⟩

/-- `in.size() - pos`. -/
def room : Parser Nat := fun pos => some ⟨sizeMinus payload.length pos, pos, [.room pos]⟩

/-- `value.assign(in.data() + pos, size); pos += size`. -/
def copy (size : Nat) : Parser Bytes := fun pos =>
  some ⟨(payload.drop pos).take size, pos + size, [.copy pos size]⟩

/-- A call of a helper. -/
def call {α : Type} (helper : Helper) (body : Parser α) : Parser α := do
  emit (.enter helper)
  let result ← body
  emit (.leave helper)
  return result

/-- `get_u8`: what it returns and what it assigns. -/
def getU8 : Parser (Bool × Option Nat) := call .getU8 do
  if payload.length ≤ (← cursor) then return (false, none)
  else
    let byte ← nextByte payload
    return (true, some byte)

/-- The loop of `get_u32` and `get_u64`: `n` more bytes are shifted into `value`. -/
def getBE : Nat → Nat → Parser (Bool × Option Nat)
  | 0, value => return (true, some value)
  | n + 1, value => do
    let byte ← getU8 payload
    if byte.1 then getBE n (value * 256 + byte.2.getD 0)
    else return (false, some value)

/-- `get_u32`. -/
def getU32 : Parser (Bool × Option Nat) := call .getU32 (getBE payload 4 0)

/-- `get_u64`. -/
def getU64 : Parser (Bool × Option Nat) := call .getU64 (getBE payload 8 0)

/-- `get_string`; the difference is taken only if the size is not too large already. -/
def getString : Parser (Bool × Option Bytes) := call .getString do
  let size ← getU32 payload
  if size.1 ∧ size.2.getD 0 ≤ kMaxStringBytes then
    let left ← room payload
    if size.2.getD 0 ≤ left then
      let value ← copy payload (size.2.getD 0)
      return (true, some value)
    else return (false, none)
  else return (false, none)

end Helpers

/-! ### Requests -/

/-- One operand of a chain of reads. -/
def Step := Request → Parser (Bool × Request)

/-- `f && g`. -/
def Step.andThen (f g : Step) : Step := fun request => do
  let first ← f request
  if first.1 then g first.2 else return first

/-- `get(payload, pos, request.field)`. -/
def readInto {α : Type} (get : Parser (Bool × Option α)) (set : α → Request → Request) : Step :=
  fun request => do
    let read ← get
    return (read.1, read.2.elim request (fun value => set value request))

/-- `get(payload, pos, local) && (request.field = local, true)`. -/
def readVia {α : Type} (get : Parser (Bool × Option α)) (set : α → Request → Request) : Step :=
  fun request => do
    let read ← get
    if read.1 then return (read.1, read.2.elim request (fun value => set value request))
    else return (false, request)

section Requests

variable (payload : Bytes)

/-- `get_topic_partition`. -/
def getTopicPartition : Step := fun request =>
  call .getTopicPartition
    ((Step.andThen (readInto (getString payload) (fun v r => { r with topic := v }))
      (readVia (getU32 payload) (fun v r => { r with partition := Codec.toInt32 v }))) request)

/-- The reads of `request.fetch_offset` and `request.message`. -/
def getFetchOffset : Step :=
  readInto (getU64 payload) (fun v r => { r with fetchOffset := v })

@[inherit_doc getFetchOffset]
def getMessage : Step :=
  readInto (getString payload) (fun v r => { r with message := v })

/-- `while (valid && request.messages.size() < count)`, for at most `rounds` rounds. -/
def getMessages (count : Nat) : Nat → Step
  | rounds, request =>
    if request.messages.length < count then
      match rounds with
      | 0 => exhausted
      | rounds + 1 => do
        emit .round
        let read ← readVia (getString payload)
          (fun v r => { r with messages := r.messages ++ [v] }) request
        if read.1 then getMessages count rounds read.2 else return read
    else return (true, request)

/-- `get_u32(payload, pos, count) && count <= kMaxBatchMessages`, then the loop. -/
def getBatch (rounds : Nat) : Step := fun request => do
  let count ← getU32 payload
  if count.1 ∧ count.2.getD 0 ≤ kMaxBatchMessages then
    getMessages payload (count.2.getD 0) rounds request
  else return (false, request)

/-- `get_string` into `group_id` and `member_id`. -/
def getGroupMember : Step :=
  Step.andThen (readInto (getString payload) (fun v r => { r with groupId := v }))
    (readInto (getString payload) (fun v r => { r with memberId := v }))

/-- The `switch` of `parse_request`. -/
def parseFields (rounds : Nat) : RequestType → Step
  | .produce =>
    ((getTopicPartition payload).andThen (getMessage payload)).andThen (getFetchOffset payload)
  | .batchProduce => (getTopicPartition payload).andThen (getBatch payload rounds)
  | .batchReplicate =>
    ((getTopicPartition payload).andThen (getFetchOffset payload)).andThen
      (getBatch payload rounds)
  | .fetch | .commit => (getTopicPartition payload).andThen (getFetchOffset payload)
  | .replicate =>
    ((getTopicPartition payload).andThen (getFetchOffset payload)).andThen (getMessage payload)
  | .ack =>
    ((getFetchOffset payload).andThen
      (readVia (getU32 payload) (fun v r => { r with brokerId := Codec.toInt32 v }))).andThen
      (getTopicPartition payload)
  | .heartbeat => readInto (getU32 payload) (fun v r => { r with brokerId := Codec.toInt32 v })
  | .metadata => fun request => return (true, request)
  | .joinGroup | .leaveGroup | .groupAssignment =>
    (getGroupMember payload).andThen
      (readInto (getString payload) (fun v r => { r with topic := v }))
  | .groupFetch | .commitOffset =>
    ((getGroupMember payload).andThen (getTopicPartition payload)).andThen (getFetchOffset payload)
  | .error => fun request => return (false, request)

/-- `parse_request`. -/
def parseRequest (rounds : Nat) : Parser Request := do
  let version ← getU8 payload
  if version.1 ∧ version.2 = some kProtocolVersion then
    let type ← getU8 payload
    if type.1 ∧ type.2.getD 0 ≤ RequestType.code .batchReplicate then
      let parsed ← parseFields payload rounds (.ofCode (type.2.getD 0))
        { type := .ofCode (type.2.getD 0) }
      if parsed.1 ∧ (← cursor) = payload.length then return parsed.2
      else return { parsed.2 with type := .error }
    else return { type := .error }
  else return { type := .error }

/-! ### Responses -/

/-- The loop of `parse_response` from its round `i` on. -/
def getOffsets (count : Nat) : Nat → Nat → List Nat → Parser (Option (List Nat))
  | rounds, i, offsets =>
    if i < count then
      match rounds with
      | 0 => exhausted
      | rounds + 1 => do
        emit .round
        let offset ← getU64 payload
        if offset.1 then getOffsets count rounds (i + 1) (offsets ++ [offset.2.getD 0])
        else return none
    else return some offsets

/-- `parse_response`. -/
def parseResponse (rounds : Nat) : Parser Response := do
  let version ← getU8 payload
  if version.1 ∧ version.2 = some kProtocolVersion then
    let success ← getU8 payload
    if success.1 then
      let kind ← getU8 payload
      if kind.1 then
        let offset ← getU64 payload
        if offset.1 then
          let message ← getString payload
          if message.1 then
            let count ← getU32 payload
            if count.1 ∧ count.2.getD 0 ≤ kMaxBatchMessages then
              match ← getOffsets payload (count.2.getD 0) rounds 0 [] with
              | some offsets =>
                if (← cursor) = payload.length then
                  return ⟨success.2.getD 0 ≠ 0, message.2.getD [], offset.2.getD 0, offsets⟩
                else return malformedResponse
              | none => return malformedResponse
            else return malformedResponse
          else return malformedResponse
        else return malformedResponse
      else return malformedResponse
    else return malformedResponse
  else return malformedResponse

end Requests

/-! ### Staying within the payload -/

section Stays

variable {payload : Bytes} {α β : Type} {pos pos₁ pos₂ m n : Nat}

/-- Started at `pos`, the parser returns `value` and leaves the cursor at `stop`, within the
    payload, after safe accesses in the order of the cursor and at most `n` rounds of a
    loop. -/
structure Stays (payload : Bytes) (run : Parser α) (pos : Nat) (value : α) (stop n : Nat) :
    Prop where
  leads : Leads (watch payload) run pos value stop n
  inside : stop ≤ payload.length

theorem stays_pure (a : α) (h : pos ≤ payload.length) :
    Stays payload (pure a) pos a pos 0 :=
  ⟨leads_pure _ a pos, h⟩

/-- A bound on the rounds can be raised. -/
theorem Stays.mono {run : Parser α} {a : α} (h : Stays payload run pos a pos₁ m) (hle : m ≤ n) :
    Stays payload run pos a pos₁ n :=
  ⟨h.leads.mono hle, h.inside⟩

/-- Rounds add up. -/
theorem Stays.bind {run : Parser α} {next : α → Parser β} {a : α} {b : β}
    (h : Stays payload run pos a pos₁ m) (h' : Stays payload (next a) pos₁ b pos₂ n) :
    Stays payload (run >>= next) pos b pos₂ (m + n) :=
  ⟨h.leads.bind h'.leads, h'.inside⟩

/-- What follows does not loop. -/
theorem Stays.bind_zero {run : Parser α} {next : α → Parser β} {a : α} {b : β}
    (h : Stays payload run pos a pos₁ n) (h' : Stays payload (next a) pos₁ b pos₂ 0) :
    Stays payload (run >>= next) pos b pos₂ n :=
  h.bind h'

/-- What comes first does not loop. -/
theorem Stays.zero_bind {run : Parser α} {next : α → Parser β} {a : α} {b : β}
    (h : Stays payload run pos a pos₁ 0) (h' : Stays payload (next a) pos₁ b pos₂ n) :
    Stays payload (run >>= next) pos b pos₂ n :=
  Nat.zero_add n ▸ h.bind h'

theorem stays_cursor (h : pos ≤ payload.length) : Stays payload cursor pos pos pos 0 :=
  ⟨leads_cursor _ pos, h⟩

/-- An event is safe where it happens. -/
theorem stays_emit {event : Nat → Event} (h : pos ≤ payload.length)
    (hpos : (event pos).pos = pos) (hsafe : (event pos).Safe payload.length) :
    Stays payload (emit event) pos () pos (if (event pos).isRound then 1 else 0) :=
  ⟨leads_single rfl hsafe (le_of_eq hpos.symm) (le_of_eq hpos), h⟩

/-- A call adds its start and its end. -/
theorem Stays.call {body : Parser α} {a : α} (helper : Helper) (h : pos ≤ payload.length)
    (hbody : Stays payload body pos a pos₁ n) :
    Stays payload (call helper body) pos a pos₁ n := by
  have henter : Stays payload (emit (.enter helper)) pos () pos 0 := stays_emit h rfl h
  have hleave : Stays payload (emit (.leave helper)) pos₁ () pos₁ 0 :=
    stays_emit hbody.inside rfl hbody.inside
  exact henter.zero_bind (hbody.bind_zero (hleave.zero_bind (stays_pure a hbody.inside)))

/-! ### The helpers -/

/-- Reading a byte moves the cursor by one. -/
theorem stays_nextByte (h : pos < payload.length) :
    Stays payload (nextByte payload) pos payload[pos].toNat (pos + 1) 0 := by
  have hbyte : payload.getD pos 0 = payload[pos] := by simp [List.getD, h]
  have hrun : nextByte payload pos = some ⟨payload[pos].toNat, pos + 1, [.byte pos]⟩ := by
    rw [nextByte, hbyte]
  exact ⟨leads_single hrun h (le_refl pos) (Nat.le_succ pos), h⟩

/-- The difference does not wrap around. -/
theorem stays_room (h : pos ≤ payload.length) :
    Stays payload (room payload) pos (payload.length - pos) pos 0 := by
  have hrun : room payload pos = some ⟨payload.length - pos, pos, [.room pos]⟩ := by
    rw [room, sizeMinus, if_pos h]
  exact ⟨leads_single hrun h (le_refl pos) (le_refl pos), h⟩

/-- Copying moves it by the size copied. -/
theorem stays_copy {size : Nat} (h : pos + size ≤ payload.length) :
    Stays payload (copy payload size) pos ((payload.drop pos).take size) (pos + size) 0 := by
  have hrun : copy payload size pos
      = some ⟨(payload.drop pos).take size, pos + size, [.copy pos size]⟩ := rfl
  exact ⟨leads_single hrun h (le_refl pos) (Nat.le_add_right pos size), h⟩

/-- What a helper of `Codec` returns and assigns. -/
abbrev answer (read : Codec.Read α) : Bool × Option α := (read.ok, read.out)

theorem stays_getU8 (h : pos ≤ payload.length) :
    Stays payload (getU8 payload) pos (answer (Codec.getU8 payload pos))
      (Codec.getU8 payload pos).pos 0 := by
  refine Stays.call .getU8 h ((stays_cursor h).zero_bind ?_)
  by_cases hend : payload.length ≤ pos
  · rw [if_pos hend, Codec.getU8, List.getElem?_eq_none hend]
    exact stays_pure _ h
  · have hpos : pos < payload.length := Nat.lt_of_not_le hend
    rw [if_neg hend, Codec.getU8, List.getElem?_eq_getElem hpos]
    exact (stays_nextByte hpos).zero_bind (stays_pure _ hpos)

/-- A big-endian number, by induction on its bytes. -/
theorem stays_getBE (n value : Nat) (h : pos ≤ payload.length) :
    Stays payload (getBE payload n value) pos (answer (Codec.getBE payload n value pos))
      (Codec.getBE payload n value pos).pos 0 := by
  induction n generalizing value pos with
  | zero => exact stays_pure _ h
  | succ n ih =>
    have hbyte := stays_getU8 h
    rw [getBE, Codec.getBE]
    rw [Codec.getU8] at hbyte
    refine hbyte.zero_bind ?_
    cases hget : payload[pos]? with
    | none => exact stays_pure _ h
    | some byte => exact ih _ (List.getElem?_eq_some_iff.mp hget).1

theorem stays_getU32 (h : pos ≤ payload.length) :
    Stays payload (getU32 payload) pos (answer (Codec.getU32 payload pos))
      (Codec.getU32 payload pos).pos 0 :=
  (stays_getBE 4 0 h).call .getU32 h

theorem stays_getU64 (h : pos ≤ payload.length) :
    Stays payload (getU64 payload) pos (answer (Codec.getU64 payload pos))
      (Codec.getU64 payload pos).pos 0 :=
  (stays_getBE 8 0 h).call .getU64 h

/-- A string is copied only if its length fits the payload. -/
theorem stays_getString (h : pos ≤ payload.length) :
    Stays payload (getString payload) pos (answer (Codec.getString payload pos))
      (Codec.getString payload pos).pos 0 := by
  have hsize := stays_getU32 h
  rw [Codec.getString]
  refine Stays.call .getString h (hsize.zero_bind ?_)
  have hin := hsize.inside
  generalize Codec.getU32 payload pos = size at hin ⊢
  split
  · next hok =>
    refine (stays_room hin).zero_bind ?_
    split
    · next hleft =>
      rw [if_pos ⟨hok.1, hok.2, hleft⟩]
      have hcopy : Stays payload (copy payload (size.out.getD 0)) size.pos _ _ 0 :=
        stays_copy (by simp only at hleft; omega)
      exact hcopy.zero_bind (stays_pure _ hcopy.inside)
    · next hleft =>
      rw [if_neg (fun hall => hleft hall.2.2)]
      exact stays_pure _ hin
  · next hbad =>
    rw [if_neg (fun hall => hbad ⟨hall.1, hall.2.1⟩)]
    exact stays_pure _ hin

end Stays

/-! ### The steps of `parse_request` -/

section Follows

variable {payload : Bytes} {α : Type} {m n : Nat}

/-- The step does what its counterpart in `Codec` does, wherever it starts, and stays within
    the payload. -/
def Follows (payload : Bytes) (step : Step) (f : Codec.Step) (n : Nat) : Prop :=
  ∀ request pos, pos ≤ payload.length →
    Stays payload (step request) pos ((f request pos).1, (f request pos).2.1)
      (f request pos).2.2 n

/-- The same of a helper. -/
def Answers (payload : Bytes) (run : Parser (Bool × Option α)) (get : Nat → Codec.Read α) :
    Prop :=
  ∀ pos, pos ≤ payload.length → Stays payload run pos (answer (get pos)) (get pos).pos 0

theorem answers_getU32 (payload : Bytes) :
    Answers payload (getU32 payload) (Codec.getU32 payload) :=
  fun _ => stays_getU32

theorem answers_getU64 (payload : Bytes) :
    Answers payload (getU64 payload) (Codec.getU64 payload) :=
  fun _ => stays_getU64

theorem answers_getString (payload : Bytes) :
    Answers payload (getString payload) (Codec.getString payload) :=
  fun _ => stays_getString

/-- A step that reads nothing. -/
theorem follows_const (payload : Bytes) (ok : Bool) :
    Follows payload (fun request => pure (ok, request)) (fun request pos => (ok, request, pos))
      0 :=
  fun _ _ h => stays_pure _ h

/-- `f && g`, where it is enough that `g` is followed from where `f` succeeds. -/
theorem Follows.andThen_of_run {f g : Step} {f' g' : Codec.Step} (hf : Follows payload f f' m)
    {request : Request} {pos : Nat} (h : pos ≤ payload.length)
    (hg : ∀ request₁ pos₁, f' request pos = (true, request₁, pos₁) → pos₁ ≤ payload.length →
      Stays payload (g request₁) pos₁ ((g' request₁ pos₁).1, (g' request₁ pos₁).2.1)
        (g' request₁ pos₁).2.2 n) :
    Stays payload (f.andThen g request) pos
      ((f'.andThen g' request pos).1, (f'.andThen g' request pos).2.1)
      (f'.andThen g' request pos).2.2 (m + n) := by
  have hfirst := hf request pos h
  rw [Codec.Step.andThen]
  cases hrun : f' request pos with
  | mk ok rest =>
    obtain ⟨request₁, pos₁⟩ := rest
    rw [hrun] at hfirst
    refine hfirst.bind ?_
    cases ok with
    | true => exact hg request₁ pos₁ hrun hfirst.inside
    | false => exact (stays_pure (false, request₁) hfirst.inside).mono (Nat.zero_le n)

/-- Steps compose, and their rounds add up. -/
theorem Follows.andThen {f g : Step} {f' g' : Codec.Step} (hf : Follows payload f f' m)
    (hg : Follows payload g g' n) : Follows payload (f.andThen g) (f'.andThen g') (m + n) :=
  fun _ _ h => hf.andThen_of_run h (fun request₁ pos₁ _ hin => hg request₁ pos₁ hin)

/-- A field is read in no round of the batch loop. -/
theorem follows_readInto {run : Parser (Bool × Option α)} {get : Nat → Codec.Read α}
    (hget : Answers payload run get) (set : α → Request → Request) :
    Follows payload (readInto run set) (Codec.readInto get set) 0 := by
  intro request pos h
  exact (hget pos h).zero_bind (stays_pure _ (hget pos h).inside)

theorem follows_readVia {run : Parser (Bool × Option α)} {get : Nat → Codec.Read α}
    (hget : Answers payload run get) (set : α → Request → Request) :
    Follows payload (readVia run set) (Codec.readVia get set) 0 := by
  intro request pos h
  have hread := hget pos h
  simp only [answer] at hread
  simp only [Codec.readVia, Codec.readInto]
  cases hok : (get pos).ok with
  | true =>
    rw [hok] at hread
    exact hread.zero_bind (stays_pure _ hread.inside)
  | false =>
    rw [hok] at hread
    exact hread.zero_bind (stays_pure _ hread.inside)

theorem follows_getTopicPartition (payload : Bytes) :
    Follows payload (getTopicPartition payload) (Codec.getTopicPartition payload) 0 := by
  intro request pos h
  have hfields := (follows_readInto (answers_getString payload)
      (fun v r => { r with topic := v })).andThen
    (follows_readVia (answers_getU32 payload)
      (fun v r => { r with partition := Codec.toInt32 v }))
  exact (hfields request pos h).call .getTopicPartition h

theorem follows_getFetchOffset (payload : Bytes) :
    Follows payload (getFetchOffset payload) (Codec.getFetchOffset payload) 0 :=
  follows_readInto (answers_getU64 payload) _

theorem follows_getMessage (payload : Bytes) :
    Follows payload (getMessage payload) (Codec.getMessage payload) 0 :=
  follows_readInto (answers_getString payload) _

theorem follows_getGroupMember (payload : Bytes) :
    Follows payload (getGroupMember payload) (Codec.getGroupMember payload) 0 :=
  (follows_readInto (answers_getString payload) _).andThen
    (follows_readInto (answers_getString payload) _)

/-- A message that was read is one more message of the batch. -/
theorem length_messages_readVia {request request₁ : Request} {pos pos₁ : Nat}
    (h : Codec.readVia (Codec.getString payload)
        (fun v r => { r with messages := r.messages ++ [v] }) request pos
      = (true, request₁, pos₁)) :
    request₁.messages.length = request.messages.length + 1 := by
  obtain ⟨v, hv, rfl⟩ := Codec.exists_of_readVia_string h
  simp

/-- The loop over a batch ends: the messages still to come are a bound on its rounds. -/
theorem stays_getMessages (count rounds : Nat) (request : Request) {pos : Nat}
    (hrounds : count - request.messages.length ≤ rounds) (h : pos ≤ payload.length) :
    Stays payload (getMessages payload count rounds request) pos
      ((Codec.getMessages payload (count - request.messages.length) request pos).1,
        (Codec.getMessages payload (count - request.messages.length) request pos).2.1)
      (Codec.getMessages payload (count - request.messages.length) request pos).2.2
      rounds := by
  induction rounds generalizing request pos with
  | zero =>
    rw [getMessages, if_neg (by omega), Nat.le_zero.mp hrounds]
    exact stays_pure _ h
  | succ rounds ih =>
    rw [getMessages]
    split
    · next hmore =>
      obtain ⟨left, hleft⟩ := Nat.exists_eq_add_of_lt hmore
      have hcount : count - request.messages.length = left + 1 := by omega
      have hround : Stays payload (emit .round) pos () pos 1 := stays_emit h rfl h
      have hread := follows_readVia (answers_getString payload)
        (fun v r => { r with messages := r.messages ++ [v] }) request pos h
      rw [hcount, Codec.getMessages, Codec.Step.andThen, Nat.add_comm rounds 1]
      cases hrun : Codec.readVia (Codec.getString payload)
          (fun v r => { r with messages := r.messages ++ [v] }) request pos with
      | mk ok rest =>
        obtain ⟨request₁, pos₁⟩ := rest
        rw [hrun] at hread
        refine hround.bind (hread.zero_bind ?_)
        cases ok with
        | true =>
          have hlen := length_messages_readVia hrun
          have hnext := ih request₁ (by omega) hread.inside
          rwa [show count - request₁.messages.length = left by omega] at hnext
        | false => exact (stays_pure (false, request₁) hread.inside).mono (Nat.zero_le rounds)
    · next hdone =>
      rw [show count - request.messages.length = 0 by omega]
      exact (stays_pure _ h).mono (Nat.zero_le _)

/-- The batch loop makes at most `kMaxBatchMessages` rounds. -/
theorem stays_getBatch {request : Request} {pos : Nat} (hempty : request.messages = [])
    (h : pos ≤ payload.length) :
    Stays payload (getBatch payload kMaxBatchMessages request) pos
      ((Codec.getBatch payload request pos).1, (Codec.getBatch payload request pos).2.1)
      (Codec.getBatch payload request pos).2.2 kMaxBatchMessages := by
  have hcount := stays_getU32 h
  rw [Codec.getBatch]
  refine hcount.zero_bind ?_
  have hin := hcount.inside
  generalize Codec.getU32 payload pos = count at hin ⊢
  split
  · next hok =>
    have hloop := stays_getMessages (count.out.getD 0) kMaxBatchMessages request
      ((Nat.sub_le _ _).trans hok.2) hin
    rw [hempty, List.length_nil, Nat.sub_zero] at hloop
    exact hloop
  · exact (stays_pure _ hin).mono (Nat.zero_le _)

/-- The `switch` of `parse_request`: every case stays within the payload, and the loop of the
    batches is the only one. -/
theorem stays_parseFields (t : RequestType) {pos : Nat} (h : pos ≤ payload.length) :
    Stays payload (parseFields payload kMaxBatchMessages t { type := t }) pos
      ((Codec.parseFields payload t { type := t } pos).1,
        (Codec.parseFields payload t { type := t } pos).2.1)
      (Codec.parseFields payload t { type := t } pos).2.2 kMaxBatchMessages := by
  have htp := follows_getTopicPartition payload
  have hoff := follows_getFetchOffset payload
  have hmsg := follows_getMessage payload
  have hgm := follows_getGroupMember payload
  have htopic := follows_readInto (answers_getString payload)
    (fun v (r : Request) => { r with topic := v })
  have hplain : ∀ {step : Step} {f : Codec.Step}, Follows payload step f 0 →
      Stays payload (step { type := t }) pos ((f { type := t } pos).1, (f { type := t } pos).2.1)
        (f { type := t } pos).2.2 kMaxBatchMessages :=
    fun hstep => (hstep _ pos h).mono (Nat.zero_le _)
  -- what is read before a batch leaves the list of messages empty
  have hempty : (Codec.getTopicPartition payload).Keeps (fun r => r.messages = []) := by
    refine Codec.Step.Keeps.andThen ?_ ?_
    · exact Codec.keeps_readInto (fun _ _ _ _ => trivial) (fun _ _ _ hr => hr)
    · exact Codec.keeps_readVia (fun _ _ _ _ => trivial) (fun _ _ _ hr => hr)
  have hempty' : (Codec.getFetchOffset payload).Keeps (fun r => r.messages = []) :=
    Codec.keeps_readInto (fun _ _ _ _ => trivial) (fun _ _ _ hr => hr)
  have hbatch : ∀ {step : Step} {f : Codec.Step}, Follows payload step f 0 →
      f.Keeps (fun r => r.messages = []) →
      Stays payload (step.andThen (getBatch payload kMaxBatchMessages) { type := t }) pos
        ((f.andThen (Codec.getBatch payload) { type := t } pos).1,
          (f.andThen (Codec.getBatch payload) { type := t } pos).2.1)
        (f.andThen (Codec.getBatch payload) { type := t } pos).2.2 kMaxBatchMessages := by
    intro step f hstep hkeep
    rw [← Nat.zero_add kMaxBatchMessages]
    refine hstep.andThen_of_run h ?_
    intro r₁ pos₁ hfirst hin
    rw [Nat.zero_add]
    exact stays_getBatch (hkeep _ _ _ _ hfirst rfl) hin
  cases t with
  | produce => exact hplain ((htp.andThen hmsg).andThen hoff)
  | fetch => exact hplain (htp.andThen hoff)
  | replicate => exact hplain ((htp.andThen hoff).andThen hmsg)
  | ack => exact hplain ((hoff.andThen (follows_readVia (answers_getU32 payload) _)).andThen htp)
  | heartbeat => exact hplain (follows_readInto (answers_getU32 payload) _)
  | commit => exact hplain (htp.andThen hoff)
  | metadata => exact hplain (follows_const payload true)
  | joinGroup => exact hplain (hgm.andThen htopic)
  | leaveGroup => exact hplain (hgm.andThen htopic)
  | groupFetch => exact hplain ((hgm.andThen htp).andThen hoff)
  | commitOffset => exact hplain ((hgm.andThen htp).andThen hoff)
  | groupAssignment => exact hplain (hgm.andThen htopic)
  | batchProduce => exact hbatch htp hempty
  | batchReplicate => exact hbatch (htp.andThen hoff) (hempty.andThen hempty')
  | error => exact hplain (follows_const payload false)

end Follows

/-! ### The parsers -/

section Parsers

variable {payload : Bytes} {α β : Type} {pos pos₁ n : Nat}

/-- The parser returns `value` and stays within the payload, wherever the cursor ends. -/
def Ends (payload : Bytes) (run : Parser α) (pos : Nat) (value : α) (n : Nat) : Prop :=
  ∃ stop, Stays payload run pos value stop n

theorem ends_pure (a : α) (h : pos ≤ payload.length) : Ends payload (pure a) pos a n :=
  ⟨pos, (stays_pure a h).mono (Nat.zero_le n)⟩

/-- A part without rounds before the last one. -/
theorem Stays.zero_bind_ends {run : Parser α} {next : α → Parser β} {a : α} {b : β}
    (h : Stays payload run pos a pos₁ 0) (h' : Ends payload (next a) pos₁ b n) :
    Ends payload (run >>= next) pos b n := by
  obtain ⟨stop, hstop⟩ := h'
  exact ⟨stop, h.zero_bind hstop⟩

/-- A last part without rounds. -/
theorem Stays.bind_zero_ends {run : Parser α} {next : α → Parser β} {a : α} {b : β}
    (h : Stays payload run pos a pos₁ n) (h' : Ends payload (next a) pos₁ b 0) :
    Ends payload (run >>= next) pos b n := by
  obtain ⟨stop, hstop⟩ := h'
  exact ⟨stop, h.bind_zero hstop⟩

/-- The parser of requests ends, with the value of the model, inside the payload. -/
theorem ends_parseRequest (payload : Bytes) :
    Ends payload (parseRequest payload kMaxBatchMessages) 0
      (StreamingPlatform.parseRequest payload) kMaxBatchMessages := by
  have hversion := stays_getU8 (Nat.zero_le payload.length)
  have htype := stays_getU8 hversion.inside
  rw [StreamingPlatform.parseRequest]
  dsimp only
  generalize Codec.getU8 payload 0 = version at *
  generalize Codec.getU8 payload version.pos = type at *
  refine hversion.zero_bind_ends ?_
  split
  · next hv =>
    refine htype.zero_bind_ends ?_
    split
    · next ht =>
      rw [if_pos ⟨hv.1, hv.2, ht.1, ht.2⟩]
      have hfields := stays_parseFields (.ofCode (type.out.getD 0)) htype.inside
      refine hfields.bind_zero_ends ((stays_cursor hfields.inside).zero_bind_ends ?_)
      split
      · exact ends_pure _ hfields.inside
      · exact ends_pure _ hfields.inside
    · next ht =>
      rw [if_neg (fun hall => ht hall.2.2)]
      exact ends_pure _ htype.inside
  · next hv =>
    rw [if_neg (fun hall => hv ⟨hall.1, hall.2.1⟩)]
    exact ends_pure _ hversion.inside

/-- The loop over the offsets of a response ends: the offsets still to come are a bound on
    its rounds. -/
theorem stays_getOffsets (count rounds i : Nat) (offsets : List Nat)
    (hrounds : count - i ≤ rounds) (h : pos ≤ payload.length) :
    ∃ stop, Stays payload (getOffsets payload count rounds i offsets) pos
        ((StreamingPlatform.getOffsets payload (count - i) pos).map
          (fun found => offsets ++ found.1)) stop rounds ∧
      ∀ found, StreamingPlatform.getOffsets payload (count - i) pos = some found →
        stop = found.2 := by
  -- at the end of the loop the offsets collected so far are returned
  have hend : ∀ {offsets : List Nat} {pos n : Nat}, pos ≤ payload.length →
      ∃ stop, Stays payload (pure (some offsets)) pos
          ((StreamingPlatform.getOffsets payload 0 pos).map (fun found => offsets ++ found.1))
          stop n ∧
        ∀ found, StreamingPlatform.getOffsets payload 0 pos = some found → stop = found.2 := by
    intro offsets pos n h
    refine ⟨pos, ?_, fun found hfound => congrArg Prod.snd (Option.some.inj hfound)⟩
    rw [StreamingPlatform.getOffsets, Option.map_some, List.append_nil]
    exact (stays_pure (some offsets) h).mono (Nat.zero_le n)
  -- on the rounds that are left; `i` offsets have been read
  induction rounds generalizing i offsets pos with
  | zero =>
    rw [getOffsets, if_neg (by omega), Nat.le_zero.mp hrounds]
    exact hend h
  | succ rounds ih =>
    rw [getOffsets]
    split
    · next hmore =>
      obtain ⟨left, hleft⟩ := Nat.exists_eq_add_of_lt hmore
      have hcount : count - i = left + 1 := by omega
      have hround : Stays payload (emit .round) pos () pos 1 := stays_emit h rfl h
      have hread := stays_getU64 h
      rw [hcount, StreamingPlatform.getOffsets, Nat.add_comm rounds 1]
      cases hok : (Codec.getU64 payload pos).ok with
      | true =>
        obtain ⟨stop, hrest, hstop⟩ := ih (i + 1)
          (offsets ++ [(Codec.getU64 payload pos).out.getD 0]) (by omega) hread.inside
        rw [show count - (i + 1) = left by omega] at hrest hstop
        rw [answer, hok] at hread
        rw [if_pos rfl]
        cases hrec : StreamingPlatform.getOffsets payload left (Codec.getU64 payload pos).pos with
        | none =>
          rw [hrec] at hrest
          exact ⟨stop, hround.bind (hread.zero_bind hrest), fun _ hfound => absurd hfound (by simp)⟩
        | some found₁ =>
          obtain ⟨offsets₁, stop₁⟩ := found₁
          rw [hrec, Option.map_some, List.append_assoc] at hrest
          refine ⟨stop, hround.bind (hread.zero_bind hrest), ?_⟩
          intro found hfound
          rw [hstop _ hrec, ← Option.some.inj hfound]
      | false =>
        rw [answer, hok] at hread
        rw [if_neg (by simp)]
        refine ⟨_, hround.bind (hread.zero_bind
          ((stays_pure none hread.inside).mono (Nat.zero_le rounds))), ?_⟩
        intro found hfound
        exact absurd hfound (by simp)
    · next hdone =>
      rw [show count - i = 0 by omega]
      exact hend h

/-- So does the parser of responses. -/
theorem ends_parseResponse (payload : Bytes) :
    Ends payload (parseResponse payload kMaxBatchMessages) 0
      (StreamingPlatform.parseResponse payload) kMaxBatchMessages := by
  have hversion := stays_getU8 (Nat.zero_le payload.length)
  have hsuccess := stays_getU8 hversion.inside
  have hkind := stays_getU8 hsuccess.inside
  have hoffset := stays_getU64 hkind.inside
  have hmessage := stays_getString hoffset.inside
  have hcount := stays_getU32 hmessage.inside
  rw [StreamingPlatform.parseResponse]
  dsimp only
  -- the fields read so far, in the order in which the parser reads them
  generalize Codec.getU8 payload 0 = version at *
  generalize Codec.getU8 payload version.pos = success at *
  generalize Codec.getU8 payload success.pos = kind at *
  generalize Codec.getU64 payload kind.pos = offset at *
  generalize Codec.getString payload offset.pos = message at *
  generalize Codec.getU32 payload message.pos = count at *
  refine hversion.zero_bind_ends ?_
  split
  · next hv =>
    refine hsuccess.zero_bind_ends ?_
    split
    · next hs =>
      refine hkind.zero_bind_ends ?_
      split
      · next hk =>
        rw [if_pos ⟨hv.1, hv.2, hs, hk⟩]
        refine hoffset.zero_bind_ends ?_
        split
        · next ho =>
          refine hmessage.zero_bind_ends ?_
          split
          · next hm =>
            rw [if_pos ⟨ho, hm⟩]
            refine hcount.zero_bind_ends ?_
            split
            · next hc =>
              -- the loop is the only part with rounds
              obtain ⟨stop, hloop, hstop⟩ := stays_getOffsets (count.out.getD 0)
                kMaxBatchMessages 0 [] hc.2 hcount.inside
              rw [Nat.sub_zero] at hloop hstop
              split
              · next offsets pos hrec =>
                rw [hrec, Option.map_some, List.nil_append, hstop _ hrec] at hloop
                refine hloop.bind_zero_ends ((stays_cursor hloop.inside).zero_bind_ends ?_)
                dsimp only
                split
                · exact ends_pure _ hloop.inside
                · exact ends_pure _ hloop.inside
              · next hrec =>
                rw [hrec, Option.map_none] at hloop
                exact hloop.bind_zero_ends (ends_pure _ hloop.inside)
            · exact ends_pure _ hcount.inside
          · next hm =>
            rw [if_neg (fun hall => hm hall.2)]
            exact ends_pure _ hmessage.inside
        · next ho =>
          rw [if_neg (fun hall => ho hall.1)]
          exact ends_pure _ hoffset.inside
      · next hk =>
        rw [if_neg (fun hall => hk hall.2.2.2)]
        exact ends_pure _ hkind.inside
    · next hs =>
      rw [if_neg (fun hall => hs hall.2.2.1)]
      exact ends_pure _ hsuccess.inside
  · next hv =>
    rw [if_neg (fun hall => hv ⟨hall.1, hall.2.1⟩)]
    exact ends_pure _ hversion.inside

end Parsers

end Cursor

/-- What is asked of the run of a parser: every access is safe (a helper starts and ends with
    the cursor within the payload, `in.size() - pos` is not below zero, and bytes are read
    within the payload), the cursor never goes back, and the loops run for at most
    `kMaxBatchMessages` rounds. -/
structure CursorSafe {α : Type} (payload : Bytes) (ran : Ran Cursor.Event α) : Prop where
  safe : ∀ event ∈ ran.events, event.Safe payload.length
  ordered : (ran.events.map Cursor.Event.pos).Pairwise (· ≤ ·)
  inside : ran.cursor ≤ payload.length
  rounds : ran.events.countP Cursor.Event.isRound ≤ 10000

/-- A parser that ends is safe throughout. -/
theorem Cursor.Ends.cursorSafe {α : Type} {payload : Bytes} {run : Cursor.Parser α} {value : α}
    (h : Cursor.Ends payload run 0 value kMaxBatchMessages) :
    ∃ ran, run 0 = some ran ∧ ran.value = value ∧ CursorSafe payload ran := by
  obtain ⟨stop, ⟨events, hrun, horder, hcount⟩, hinside⟩ := h
  exact ⟨_, hrun, rfl, horder.safe, horder.sorted, hinside, hcount⟩

/-- **Cursor safety.**  For every payload both parsers return, with the answer that `Codec`
    gives and within the 10000 rounds that a batch may take, and on the way the cursor stays
    within the payload and never goes back. -/
theorem parsers_stay_inside (payload : Bytes) :
    (∃ ran, Cursor.parseRequest payload kMaxBatchMessages 0 = some ran ∧
        ran.value = parseRequest payload ∧ CursorSafe payload ran) ∧
      (∃ ran, Cursor.parseResponse payload kMaxBatchMessages 0 = some ran ∧
        ran.value = parseResponse payload ∧ CursorSafe payload ran) :=
  ⟨(Cursor.ends_parseRequest payload).cursorSafe, (Cursor.ends_parseResponse payload).cursorSafe⟩

end StreamingPlatform
