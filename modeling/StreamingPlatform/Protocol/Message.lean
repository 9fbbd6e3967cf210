import StreamingPlatform.Lib.Bytes

namespace StreamingPlatform

open ByteString

/-!
# Protocol — requests and responses (`protocol.h`)

The records that brokers and clients exchange.  A string is its bytes; `int` fields are
integers in the 32-bit range and `uint64_t` fields are natural numbers below `2 ^ 64`,
where the codec keeps them.
-/

/-- `RequestType`, in the order of the enumeration. -/
inductive RequestType where
  | produce
  | fetch
  | replicate
  | ack
  | heartbeat
  | commit
  | metadata
  | joinGroup
  | leaveGroup
  | groupFetch
  | commitOffset
  | groupAssignment
  | batchProduce
  | batchReplicate
  | error
  deriving DecidableEq, Repr

namespace RequestType

/-- The enumerators in order, `error` left out: the types that exist on the wire. -/
def wire : List RequestType :=
  [produce, fetch, replicate, ack, heartbeat, commit, metadata, joinGroup, leaveGroup,
    groupFetch, commitOffset, groupAssignment, batchProduce, batchReplicate]

/-- `static_cast<uint8_t>(type)`. -/
def code (t : RequestType) : Nat := wire.idxOf t

/-- `static_cast<RequestType>(byte)` for a byte that is not above `BATCH_REPLICATE`. -/
def ofCode (n : Nat) : RequestType := wire.getD n error

@[simp] theorem ofCode_code (t : RequestType) : ofCode t.code = t := by
  cases t <;> rfl

theorem code_ofCode {n : Nat} (h : n ≤ code batchReplicate) : (ofCode n).code = n := by
  have hall : ∀ n ≤ code batchReplicate, (ofCode n).code = n := by decide
  exact hall n h

/-- The byte of a type determines it. -/
theorem eq_of_byte {t t' : RequestType} (h : UInt8.ofNat t.code = UInt8.ofNat t'.code) :
    t = t' := by
  have hbyte : ∀ t : RequestType, (UInt8.ofNat t.code).toNat = t.code := by
    intro t
    cases t <;> rfl
  have hcode : t.code = t'.code := by rw [← hbyte t, h, hbyte t']
  rw [← ofCode_code t, hcode, ofCode_code]

theorem code_le {t : RequestType} (h : t ≠ error) : t.code ≤ code batchReplicate := by
  cases t <;> first | decide | exact absurd rfl h

/-- The requests that only brokers send to each other. -/
def isInterBroker : RequestType → Bool
  | replicate | batchReplicate | ack | heartbeat | commit => true
  | _ => false

end RequestType

/-- The range of an `int`. -/
def IsInt32 (value : Int) : Prop := -2 ^ 31 ≤ value ∧ value < 2 ^ 31

instance (value : Int) : Decidable (IsInt32 value) := inferInstanceAs (Decidable (_ ∧ _))

/-- `Request`.  Fields that a request does not carry keep their defaults. -/
structure Request where
  type : RequestType
  topic : Bytes := []
  partition : Int := 0
  message : Bytes := []
  fetchOffset : Nat := 0
  brokerId : Int := 0
  groupId : Bytes := []
  memberId : Bytes := []
  messages : List Bytes := []
  deriving DecidableEq, Repr

/-- `Response`. -/
structure Response where
  success : Bool
  message : Bytes
  appendedOffset : Nat
  appendedOffsets : List Nat := []
  deriving DecidableEq, Repr

/-- `uint64_t(-1)`, the offset of a failed request. -/
def kNoOffset : Nat := 2 ^ 64 - 1

/-- `Response{false, message, uint64_t(-1)}`. -/
def Response.failure (message : String) : Response := ⟨false, ofString message, kNoOffset, []⟩

end StreamingPlatform
