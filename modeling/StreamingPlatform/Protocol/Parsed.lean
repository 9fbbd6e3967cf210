import StreamingPlatform.Protocol.RoundTrip

namespace StreamingPlatform

open ByteString

/-!
# Protocol — what a parsed request looks like

Whatever the bytes were, a request that `parse_request` accepts has the type its second
byte announces and fields within the limits of the wire (`parseRequest_fits`), so a
broker that passes it on encodes it faithfully.  The same holds of what `parse_response`
returns (`parseResponse_fits`).
-/

variable {pos pos' : Nat} {b : Bytes}

namespace Codec

variable {payload : Bytes} {r r' : Request} {P : Request → Prop}

/-- A successful chain, taken apart. -/
theorem Step.andThen_eq_true {f g : Step} (h : f.andThen g r pos = (true, r', pos')) :
    ∃ r₁ pos₁, f r pos = (true, r₁, pos₁) ∧ g r₁ pos₁ = (true, r', pos') := by
  rw [Step.andThen] at h
  split at h
  · next r₁ pos₁ heq => exact ⟨r₁, pos₁, heq, h⟩
  · next hfail =>
    rw [h] at hfail
    exact absurd rfl (hfail r' pos')

/-- Successful reads of `f` keep `P`. -/
def Step.Keeps (P : Request → Prop) (f : Step) : Prop :=
  ∀ r pos r' pos', f r pos = (true, r', pos') → P r → P r'

/-- Steps compose. -/
theorem Step.Keeps.andThen {f g : Step} (hf : f.Keeps P) (hg : g.Keeps P) :
    (f.andThen g).Keeps P := by
  intro r pos r' pos' h hP
  obtain ⟨r₁, pos₁, hfirst, hlast⟩ := Step.andThen_eq_true h
  exact hg _ _ _ _ hlast (hf _ _ _ _ hfirst hP)

/-- A step that sets a field keeps what every value of the field keeps. -/
theorem keeps_readInto {α : Type} {V : α → Prop} {get : Nat → Read α} {set : α → Request → Request}
    (hget : ∀ pos v, (get pos).ok = true → (get pos).out = some v → V v)
    (hset : ∀ v r, V v → P r → P (set v r)) : (readInto get set).Keeps P := by
  intro r pos r' pos' h hP
  simp only [readInto, Prod.mk.injEq] at h
  obtain ⟨hok, hr, -⟩ := h
  cases hout : (get pos).out with
  | none =>
    rw [hout] at hr
    exact hr ▸ hP
  | some v =>
    rw [hout] at hr
    exact hr ▸ hset v r (hget pos v hok hout) hP

theorem keeps_readVia {α : Type} {V : α → Prop} {get : Nat → Read α} {set : α → Request → Request}
    (hget : ∀ pos v, (get pos).ok = true → (get pos).out = some v → V v)
    (hset : ∀ v r, V v → P r → P (set v r)) : (readVia get set).Keeps P := by
  intro r pos r' pos' h hP
  rw [readVia] at h
  split at h
  · exact keeps_readInto hget hset _ _ _ _ h hP
  · exact absurd (congrArg Prod.fst h) (by simp)

/-- A string that was read is within its limit. -/
theorem length_getString (pos : Nat) (v : Bytes) (h : (getString payload pos).out = some v) :
    v.length ≤ kMaxStringBytes := by
  rw [getString] at h
  split at h
  · next hc =>
    obtain ⟨-, hmax, -⟩ := hc
    rw [← Option.some.inj h]
    exact (List.length_take_le _ _).trans hmax
  · exact absurd h (by simp)

/-- Every byte that is read adds at most one digit to the base 256. -/
theorem getBE_lt (n acc pos v : Nat) (h : (getBE payload n acc pos).out = some v) :
    v < (acc + 1) * 256 ^ n := by
  induction n generalizing acc pos with
  | zero =>
    simp only [getBE, Option.some.injEq] at h
    omega
  | succ n ih =>
    rw [getBE] at h
    have hpos : 0 < 256 ^ (n + 1) := Nat.pow_pos (by decide)
    split at h
    · rw [← Option.some.inj h]
      calc acc < acc + 1 := Nat.lt_succ_self acc
        _ = (acc + 1) * 1 := (Nat.mul_one _).symm
        _ ≤ (acc + 1) * 256 ^ (n + 1) := Nat.mul_le_mul_left _ hpos
    · next byte _ =>
      have hbyte : byte.toNat + 1 ≤ 256 := UInt8.toNat_lt byte
      calc v < (acc * 256 + byte.toNat + 1) * 256 ^ n := ih _ _ h
        _ ≤ ((acc + 1) * 256) * 256 ^ n := Nat.mul_le_mul_right _ (by omega)
        _ = (acc + 1) * 256 ^ (n + 1) := by rw [pow_succ]; ring

theorem isInt32_toInt32 (v : Nat) : IsInt32 (toInt32 v) := by
  unfold IsInt32 toInt32
  rw [Int.bmod_def]
  constructor <;> split <;> omega

theorem sized_partition (h : r.Sized) {value : Int} (hint : IsInt32 value) :
    Request.Sized { r with partition := value } :=
  { h with partition := hint }

theorem sized_brokerId (h : r.Sized) {value : Int} (hint : IsInt32 value) :
    Request.Sized { r with brokerId := value } :=
  { h with brokerId := hint }

/-- What all reads but the batch keep: sizes, type, and an empty list of messages. -/
def Filling (t : RequestType) (r : Request) : Prop := r.type = t ∧ r.messages = [] ∧ r.Sized

theorem filling_topicPartition (t : RequestType) :
    (getTopicPartition payload).Keeps (Filling t) := by
  refine Step.Keeps.andThen ?_ ?_
  · refine keeps_readInto (fun pos v _ h => length_getString pos v h) ?_
    rintro v r hv ⟨ht, hm, hs⟩
    exact ⟨ht, hm, { hs with topic := hv }⟩
  · refine keeps_readVia (fun _ v _ _ => isInt32_toInt32 v) ?_
    rintro v r hv ⟨ht, hm, hs⟩
    exact ⟨ht, hm, sized_partition hs hv⟩

theorem filling_fetchOffset (t : RequestType) : (getFetchOffset payload).Keeps (Filling t) := by
  refine keeps_readInto (fun pos v _ h => getBE_lt 8 0 pos v h) ?_
  rintro v r hv ⟨ht, hm, hs⟩
  have hlt : v < 2 ^ 64 := lt_of_lt_of_eq hv (by norm_num)
  exact ⟨ht, hm, { hs with fetchOffset := hlt }⟩

theorem filling_message (t : RequestType) : (getMessage payload).Keeps (Filling t) := by
  refine keeps_readInto (fun pos v _ h => length_getString pos v h) ?_
  rintro v r hv ⟨ht, hm, hs⟩
  exact ⟨ht, hm, { hs with message := hv }⟩

theorem filling_groupMember (t : RequestType) : (getGroupMember payload).Keeps (Filling t) := by
  refine Step.Keeps.andThen ?_ ?_
  · refine keeps_readInto (fun pos v _ h => length_getString pos v h) ?_
    rintro v r hv ⟨ht, hm, hs⟩
    exact ⟨ht, hm, { hs with groupId := hv }⟩
  · refine keeps_readInto (fun pos v _ h => length_getString pos v h) ?_
    rintro v r hv ⟨ht, hm, hs⟩
    exact ⟨ht, hm, { hs with memberId := hv }⟩

/-- A successful `get_string` has assigned its string. -/
theorem exists_of_readVia_string {set : Bytes → Request → Request}
    (h : readVia (getString payload) set r pos = (true, r', pos')) :
    ∃ v, (getString payload pos).out = some v ∧ r' = set v r := by
  rw [readVia] at h
  split at h
  · next hok =>
    simp only [readInto, Prod.mk.injEq] at h
    obtain ⟨-, hr, -⟩ := h
    cases hout : (getString payload pos).out with
    | none =>
      rw [getString] at hok hout
      split at hok <;> simp_all
    | some v =>
      rw [hout] at hr
      exact ⟨v, rfl, hr.symm⟩
  · exact absurd (congrArg Prod.fst h) (by simp)

/-- The loop adds `n` strings that fit. -/
theorem getMessages_spec (n : Nat) (h : getMessages payload n r pos = (true, r', pos')) :
    ∃ ms : List Bytes, ms.length = n ∧ (∀ m ∈ ms, m.length ≤ kMaxStringBytes) ∧
      r' = { r with messages := r.messages ++ ms } := by
  induction n generalizing r pos with
  | zero =>
    simp only [getMessages, Prod.mk.injEq, true_and] at h
    exact ⟨[], rfl, by simp, by rw [← h.1, List.append_nil]⟩
  | succ n ih =>
    rw [getMessages] at h
    obtain ⟨r₁, pos₁, hfirst, hlast⟩ := Step.andThen_eq_true h
    obtain ⟨v, hv, rfl⟩ := exists_of_readVia_string hfirst
    obtain ⟨ms, hlen, hms, rfl⟩ := ih hlast
    refine ⟨v :: ms, by rw [List.length_cons, hlen], fun m hm => ?_, by simp⟩
    rcases List.mem_cons.mp hm with rfl | hm
    · exact length_getString pos _ hv
    · exact hms m hm

/-- A batch that was read is within its limits. -/
theorem filling_batch {t : RequestType} (h : getBatch payload r pos = (true, r', pos'))
    (hr : Filling t r) : r'.type = t ∧ r'.Sized := by
  obtain ⟨ht, hm, hs⟩ := hr
  rw [getBatch] at h
  split at h
  · next hc =>
    obtain ⟨ms, hlen, hms, rfl⟩ := getMessages_spec _ h
    refine ⟨ht, { hs with count := ?_, messages := ?_ }⟩
    · rw [hm, List.nil_append, hlen]
      exact hc.2
    · rw [hm, List.nil_append]
      exact hms
  · exact absurd (congrArg Prod.fst h) (by simp)

/-- Successful reads give a request of the announced type whose fields fit. -/
theorem parseFields_sized {t : RequestType}
    (h : parseFields payload t { type := t } pos = (true, r, pos')) : r.type = t ∧ r.Sized := by
  have hfresh : Filling t { type := t } := by
    have hzero : IsInt32 0 := by unfold IsInt32; omega
    refine ⟨rfl, rfl, ?_⟩
    exact
      { topic := Nat.zero_le _, partition := hzero, message := Nat.zero_le _,
        fetchOffset := Nat.two_pow_pos 64, brokerId := hzero, groupId := Nat.zero_le _,
        memberId := Nat.zero_le _, count := Nat.zero_le _,
        messages := fun m hm => absurd hm (by simp) }
  have hkeep : ∀ f : Step, f.Keeps (Filling t) → f { type := t } pos = (true, r, pos') →
      r.type = t ∧ r.Sized := by
    intro f hf hrun
    obtain ⟨ht, -, hs⟩ := hf _ _ _ _ hrun hfresh
    exact ⟨ht, hs⟩
  have htp : (getTopicPartition payload).Keeps (Filling t) := filling_topicPartition t
  have hoff : (getFetchOffset payload).Keeps (Filling t) := filling_fetchOffset t
  have hmsg : (getMessage payload).Keeps (Filling t) := filling_message t
  have hgm : (getGroupMember payload).Keeps (Filling t) := filling_groupMember t
  have hbroker : ∀ v (r : Request), True → Filling t r →
      Filling t { r with brokerId := toInt32 v } := by
    rintro v r - ⟨ht, hm, hs⟩
    exact ⟨ht, hm, sized_brokerId hs (isInt32_toInt32 v)⟩
  have htopic : (readInto (getString payload) (fun v r => { r with topic := v })).Keeps
      (Filling t) := by
    refine keeps_readInto (fun pos v _ h => length_getString pos v h) ?_
    rintro v r hv ⟨ht, hm, hs⟩
    exact ⟨ht, hm, { hs with topic := hv }⟩
  -- a batch is read last, into a request without messages
  have hbatch : ∀ f : Step, f.Keeps (Filling t) →
      f.andThen (getBatch payload) { type := t } pos = (true, r, pos') → r.type = t ∧ r.Sized := by
    intro f hf hrun
    obtain ⟨r₁, pos₁, hfirst, hlast⟩ := Step.andThen_eq_true hrun
    exact filling_batch hlast (hf _ _ _ _ hfirst hfresh)
  cases t with
  | produce => exact hkeep _ ((htp.andThen hmsg).andThen hoff) h
  | fetch => exact hkeep _ (htp.andThen hoff) h
  | replicate => exact hkeep _ ((htp.andThen hoff).andThen hmsg) h
  | ack =>
    exact hkeep _ ((hoff.andThen (keeps_readVia (fun _ _ _ _ => trivial) hbroker)).andThen htp) h
  | heartbeat => exact hkeep _ (keeps_readInto (fun _ _ _ _ => trivial) hbroker) h
  | commit => exact hkeep _ (htp.andThen hoff) h
  | metadata =>
    simp only [parseFields, Prod.mk.injEq, true_and] at h
    rw [← h.1]
    exact ⟨rfl, hfresh.2.2⟩
  | joinGroup => exact hkeep _ (hgm.andThen htopic) h
  | leaveGroup => exact hkeep _ (hgm.andThen htopic) h
  | groupFetch => exact hkeep _ ((hgm.andThen htp).andThen hoff) h
  | commitOffset => exact hkeep _ ((hgm.andThen htp).andThen hoff) h
  | groupAssignment => exact hkeep _ (hgm.andThen htopic) h
  | batchProduce => exact hbatch _ htp h
  | batchReplicate => exact hbatch _ (htp.andThen hoff) h
  | error => exact absurd (congrArg Prod.fst h) (by simp [parseFields])

end Codec

open Codec

/-- An accepted request, taken apart: its second byte is the code of its type. -/
theorem parseRequest_accepted (h : (parseRequest b).type ≠ .error) :
    ∃ n pos, (getU8 b (getU8 b 0).pos).out.getD 0 = n ∧
      n ≤ RequestType.code .batchReplicate ∧
      parseFields b (.ofCode n) { type := .ofCode n } pos = (true, parseRequest b, b.length) := by
  rw [parseRequest] at h ⊢
  dsimp only at h ⊢
  split at h
  · next hc =>
    rw [if_pos hc]
    split at h
    · next hok =>
      rw [if_pos hok]
      refine ⟨_, (getU8 b (getU8 b 0).pos).pos, rfl, hc.2.2.2, ?_⟩
      exact Prod.ext hok.1 (Prod.ext rfl hok.2)
    · exact absurd rfl h
  · exact absurd rfl h

/-- **Accepted requests fit the wire.** -/
theorem parseRequest_fits (h : (parseRequest b).type ≠ .error) : (parseRequest b).Fits := by
  obtain ⟨n, pos, -, -, hparse⟩ := parseRequest_accepted h
  exact { (parseFields_sized hparse).2 with type := h }

/-- A response is never taken for an acknowledgement: its second byte is `0` or `1`. -/
theorem type_parseRequest_serializeResponse (r : Response) :
    (parseRequest (serializeResponse r)).type ≠ .ack := by
  intro hack
  have herr : (parseRequest (serializeResponse r)).type ≠ .error := by rw [hack]; decide
  obtain ⟨n, pos, hn, -, hparse⟩ := parseRequest_accepted herr
  rw [(parseFields_sized hparse).1] at hack
  have hbyte : n = if r.success then 1 else 0 := by
    rw [← hn, serializeResponse]
    simp only [List.append_assoc]
    cases r.success <;> rfl
  rw [hbyte] at hack
  revert hack
  cases r.success <;> decide

theorem getU64_lt (b : Bytes) (pos : Nat) : (getU64 b pos).out.getD 0 < 2 ^ 64 := by
  cases hout : (getU64 b pos).out with
  | none => exact Nat.two_pow_pos 64
  | some v => exact lt_of_lt_of_eq (getBE_lt 8 0 pos v hout) (by norm_num)

/-- Offsets that were read fit 64 bits. -/
theorem getOffsets_fits {n : Nat} {offsets : List Nat}
    (h : getOffsets b n pos = some (offsets, pos')) :
    offsets.length = n ∧ ∀ o ∈ offsets, o < 2 ^ 64 := by
  induction n generalizing pos pos' offsets with
  | zero =>
    obtain ⟨rfl, -⟩ := Prod.mk.inj (Option.some.inj h)
    exact ⟨rfl, fun o ho => absurd ho (by simp)⟩
  | succ n ih =>
    rw [getOffsets] at h
    split at h
    · split at h
      · next offsets₁ pos₁ hrest =>
        obtain ⟨rfl, -⟩ := Prod.mk.inj (Option.some.inj h)
        obtain ⟨hlen, hlt⟩ := ih hrest
        refine ⟨by rw [List.length_cons, hlen], fun o ho => ?_⟩
        rcases List.mem_cons.mp ho with rfl | ho
        · exact getU64_lt b pos
        · exact hlt o ho
      · exact absurd h (by simp)
    · exact absurd h (by simp)

/-- All that `Fits` asks for apart from the length of the message. -/
structure Response.OffsetsFit (r : Response) : Prop where
  appendedOffset : r.appendedOffset < 2 ^ 64
  count : r.appendedOffsets.length ≤ kMaxBatchMessages
  appendedOffsets : ∀ o ∈ r.appendedOffsets, o < 2 ^ 64

/-- With a short message, the whole response fits. -/
theorem Response.OffsetsFit.fits {r : Response} (h : r.OffsetsFit)
    (hmessage : r.message.length ≤ kMaxStringBytes) : r.Fits :=
  ⟨hmessage, h.appendedOffset, h.count, h.appendedOffsets⟩

/-- A response without a batch. -/
theorem Response.offsetsFit_single (success : Bool) (message : Bytes) {offset : Nat}
    (h : offset < 2 ^ 64) : (Response.mk success message offset []).OffsetsFit :=
  ⟨h, Nat.zero_le _, fun _ ho => absurd ho List.not_mem_nil⟩

theorem Response.fits_single {success : Bool} {message : Bytes} {offset : Nat}
    (hmessage : message.length ≤ kMaxStringBytes) (h : offset < 2 ^ 64) :
    (Response.mk success message offset []).Fits :=
  (offsetsFit_single success message h).fits hmessage

theorem Response.offsetsFit_failure (text : String) : (Response.failure text).OffsetsFit :=
  offsetsFit_single false _ (by decide)

/-- A short failure fits the wire. -/
theorem Response.failure_fits (text : String) (h : (ofString text).length ≤ kMaxStringBytes) :
    (Response.failure text).Fits :=
  fits_single h (by decide)

/-- **Parsed responses fit the wire.** -/
theorem parseResponse_fits (b : Bytes) : (parseResponse b).Fits := by
  have hmalformed : malformedResponse.Fits :=
    Response.failure_fits "malformed_response" (by decide)
  unfold parseResponse
  dsimp only
  split
  · split
    · split
      · next hcount =>
        split
        · next offsets pos hoffsets =>
          split
          · obtain ⟨hlen, hlt⟩ := getOffsets_fits hoffsets
            refine ⟨?_, getU64_lt b _, hlen ▸ hcount.2, hlt⟩
            -- an unassigned string is the empty one
            show ((getString b _).out.getD []).length ≤ kMaxStringBytes
            generalize (getU64 b (getU8 b (getU8 b (getU8 b 0).pos).pos).pos).pos = start
            cases hout : (getString b start).out with
            | none => exact Nat.zero_le _
            | some v => exact length_getString start v hout
          · exact hmalformed
        · exact hmalformed
      · exact hmalformed
    · exact hmalformed
  · exact hmalformed

end StreamingPlatform
