import StreamingPlatform.Protocol.Parsed

namespace StreamingPlatform

open ByteString

/-!
# Protocol — the request encoding is canonical

The converse of the round trip: what a reader has read is what the writer of the same
field writes.  `Reads f set put` says so of a step `f` that assigns by `set` a value that
`put` writes, whatever the payload; chains of reads have read the concatenation
(`Reads.andThen`).  So the bytes of an accepted request are those of its encoding
(`encodeRequest_parse`), and with `parseRequest_encode` the codec is a bijection between
the requests that fit the wire and the accepted payloads.  The reads of a request end where
its bytes end, so that no accepted payload is the beginning of another
(`eq_nil_of_accepted_append`).
-/

namespace Codec

variable {payload : Bytes}

/-! ### Numbers and strings -/

/-- What the loop has read, written at the same width. -/
theorem putBE_getBE {n acc pos v : Nat} (hok : (getBE payload n acc pos).ok = true)
    (hout : (getBE payload n acc pos).out = some v) :
    v / 256 ^ n = acc ∧
      payload.drop pos = putBE n v ++ payload.drop (getBE payload n acc pos).pos := by
  induction n generalizing acc pos with
  | zero =>
    simp only [getBE, Option.some.injEq] at hout
    simp [getBE, putBE, hout]
  | succ n ih =>
    rw [getBE] at hok hout ⊢
    cases hbyte : payload[pos]? with
    | none =>
      rw [hbyte] at hok
      exact absurd hok (by simp)
    | some byte =>
      rw [hbyte] at hok hout
      obtain ⟨hdiv, hdrop⟩ := ih hok hout
      have hlt : byte.toNat < 256 := UInt8.toNat_lt byte
      constructor
      · rw [pow_succ, ← Nat.div_div_eq_div_mul, hdiv]
        omega
      · -- the leading digit is the byte that was shifted in first
        have hdigit : UInt8.ofNat (v / 256 ^ n) = byte := by
          apply UInt8.toNat_inj.mp
          rw [hdiv, UInt8.toNat_ofNat']
          omega
        obtain ⟨hpos, hget⟩ := List.getElem?_eq_some_iff.mp hbyte
        rw [putBE, hdigit, List.cons_append, ← hdrop, List.drop_eq_getElem_cons hpos, hget]

theorem getBE_out (payload : Bytes) (n acc pos : Nat) :
    ∃ v, (getBE payload n acc pos).out = some v := by
  induction n generalizing acc pos with
  | zero => exact ⟨acc, rfl⟩
  | succ n ih =>
    rw [getBE]
    split
    · exact ⟨acc, rfl⟩
    · exact ih _ _

/-- `get` reads what `put` writes: a successful read has moved the cursor over exactly
    the bytes of its value. -/
def Gets {α : Type} (payload : Bytes) (get : Nat → Read α) (put : α → Bytes) : Prop :=
  ∀ pos, (get pos).ok = true → ∃ v, (get pos).out = some v ∧
    payload.drop pos = put v ++ payload.drop (get pos).pos

theorem gets_u32 (payload : Bytes) : Gets payload (getU32 payload) putU32 := by
  intro pos hok
  obtain ⟨v, hv⟩ := getBE_out payload 4 0 pos
  exact ⟨v, hv, (putBE_getBE hok hv).2⟩

theorem gets_u64 (payload : Bytes) : Gets payload (getU64 payload) putU64 := by
  intro pos hok
  obtain ⟨v, hv⟩ := getBE_out payload 8 0 pos
  exact ⟨v, hv, (putBE_getBE hok hv).2⟩

theorem getU32_lt {pos v : Nat} (h : (getU32 payload pos).out = some v) : v < 2 ^ 32 :=
  lt_of_lt_of_eq (getBE_lt 4 0 pos v h) (by norm_num)

theorem gets_string (payload : Bytes) : Gets payload (getString payload) putString := by
  intro pos hok
  rw [getString] at hok ⊢
  split at hok
  · next hc =>
    rw [if_pos hc]
    obtain ⟨v, hv, hdrop⟩ := gets_u32 payload pos hc.1
    have hfits : v ≤ payload.length - (getU32 payload pos).pos := by
      have := hc.2.2
      rwa [hv] at this
    refine ⟨_, rfl, ?_⟩
    -- the length that was read is the length of the string
    have hlen : ((payload.drop (getU32 payload pos).pos).take v).length = v := by
      rw [List.length_take, List.length_drop]
      omega
    simp only [hv, Option.getD_some]
    rw [hdrop, putString, hlen, List.append_assoc, ← List.drop_drop, List.take_append_drop]
  · exact absurd hok (by simp)

/-- The cast to `int32_t` loses nothing. -/
theorem putI32_toInt32 {v : Nat} (h : v < 2 ^ 32) : putI32 (toInt32 v) = putU32 v := by
  have hcast : (toInt32 v % 2 ^ 32).toNat = v := by
    unfold toInt32
    rw [Int.bmod_def]
    split <;> omega
  rw [putI32, hcast]

/-! ### Chains of reads -/

/-- A successful run of `f` has assigned some value by `set` and has moved the cursor over
    exactly the bytes that `put` writes for it. -/
def Reads {α : Type} (payload : Bytes) (f : Step) (set : α → Request → Request)
    (put : α → Bytes) : Prop :=
  ∀ r pos r' pos', f r pos = (true, r', pos') → ∃ v, r' = set v r ∧
    payload.drop pos = put v ++ payload.drop pos'

variable {α β : Type} {set : α → Request → Request} {set' : β → Request → Request}
  {put : α → Bytes} {put' : β → Bytes}

theorem reads_readInto {get : Nat → Read α} (h : Gets payload get put) :
    Reads payload (readInto get set) set put := by
  intro r pos r' pos' hrun
  simp only [readInto, Prod.mk.injEq] at hrun
  obtain ⟨hok, hr, hpos⟩ := hrun
  obtain ⟨v, hv, hdrop⟩ := h pos hok
  rw [hv] at hr
  exact ⟨v, hr.symm, hpos ▸ hdrop⟩

theorem reads_readVia {get : Nat → Read α} (h : Gets payload get put) :
    Reads payload (readVia get set) set put := by
  intro r pos r' pos' hrun
  rw [readVia] at hrun
  split at hrun
  · exact reads_readInto h _ _ _ _ hrun
  · exact absurd (congrArg Prod.fst hrun) (by simp)

theorem Reads.andThen {f g : Step} (hf : Reads payload f set put)
    (hg : Reads payload g set' put') :
    Reads payload (f.andThen g) (fun (v : α × β) r => set' v.2 (set v.1 r))
      (fun v => put v.1 ++ put' v.2) := by
  intro r pos r' pos' hrun
  obtain ⟨r₁, pos₁, hfirst, hlast⟩ := Step.andThen_eq_true hrun
  obtain ⟨v, rfl, hdrop⟩ := hf _ _ _ _ hfirst
  obtain ⟨v', rfl, hdrop'⟩ := hg _ _ _ _ hlast
  exact ⟨(v, v'), rfl, by rw [hdrop, hdrop', List.append_assoc]⟩

/-- An integer field that goes through a local variable of type `uint32_t`. -/
theorem reads_int (setInt : Int → Request → Request) {f : Step}
    (hf : f = readVia (getU32 payload) (fun v r => setInt (toInt32 v) r) ∨
      f = readInto (getU32 payload) (fun v r => setInt (toInt32 v) r)) :
    Reads payload f setInt putI32 := by
  intro r pos r' pos' hrun
  -- both forms have assigned the value that was read
  have hread : readInto (getU32 payload) (fun v r => setInt (toInt32 v) r) r pos
      = (true, r', pos') := by
    rcases hf with rfl | rfl
    · rw [readVia] at hrun
      split at hrun
      · exact hrun
      · exact absurd (congrArg Prod.fst hrun) (by simp)
    · exact hrun
  simp only [readInto, Prod.mk.injEq] at hread
  obtain ⟨hok, hr, hpos⟩ := hread
  obtain ⟨v, hv, hdrop⟩ := gets_u32 payload pos hok
  rw [hv] at hr
  exact ⟨toInt32 v, hr.symm, by rw [putI32_toInt32 (getU32_lt hv), ← hpos, hdrop]⟩

theorem reads_topicPartition :
    Reads payload (getTopicPartition payload)
      (fun (v : Bytes × Int) r => { r with topic := v.1, partition := v.2 })
      (fun v => putString v.1 ++ putI32 v.2) := by
  have htopic : Reads payload (readInto (getString payload) (fun v r => { r with topic := v }))
      (fun v r => { r with topic := v }) putString := reads_readInto (gets_string payload)
  exact htopic.andThen (reads_int (fun v r => { r with partition := v }) (.inl rfl))

theorem reads_fetchOffset :
    Reads payload (getFetchOffset payload) (fun v r => { r with fetchOffset := v }) putU64 :=
  reads_readInto (gets_u64 payload)

theorem reads_message :
    Reads payload (getMessage payload) (fun v r => { r with message := v }) putString :=
  reads_readInto (gets_string payload)

theorem reads_groupMember :
    Reads payload (getGroupMember payload)
      (fun (v : Bytes × Bytes) r => { r with groupId := v.1, memberId := v.2 })
      (fun v => putString v.1 ++ putString v.2) := by
  have hgroup : Reads payload (readInto (getString payload) (fun v r => { r with groupId := v }))
      (fun v r => { r with groupId := v }) putString := reads_readInto (gets_string payload)
  exact hgroup.andThen (reads_readInto (gets_string payload))

/-- The loop that collects a batch has read as many strings as it was told to. -/
theorem reads_messages {n : Nat} {r r' : Request} {pos pos' : Nat}
    (h : getMessages payload n r pos = (true, r', pos')) :
    ∃ ms : List Bytes, ms.length = n ∧ r' = { r with messages := r.messages ++ ms } ∧
      payload.drop pos = ms.flatMap putString ++ payload.drop pos' := by
  induction n generalizing r pos with
  | zero =>
    simp only [getMessages, Prod.mk.injEq, true_and] at h
    obtain ⟨rfl, rfl⟩ := h
    exact ⟨[], rfl, by rw [List.append_nil], rfl⟩
  | succ n ih =>
    rw [getMessages] at h
    obtain ⟨r₁, pos₁, hfirst, hlast⟩ := Step.andThen_eq_true h
    obtain ⟨m, rfl, hdrop⟩ := reads_readVia (gets_string payload) _ _ _ _ hfirst
    obtain ⟨ms, hlen, rfl, hdrop'⟩ := ih hlast
    refine ⟨m :: ms, by rw [List.length_cons, hlen], ?_, ?_⟩
    · rw [List.append_assoc]
      rfl
    · rw [hdrop, hdrop', List.flatMap_cons, List.append_assoc]

/-- A batch is read into a request that has no messages yet. -/
theorem reads_batch {r r' : Request} {pos pos' : Nat} (hr : r.messages = [])
    (h : getBatch payload r pos = (true, r', pos')) :
    ∃ ms : List Bytes, r' = { r with messages := ms } ∧
      payload.drop pos = putMessages ms ++ payload.drop pos' := by
  rw [getBatch] at h
  split at h
  · next hc =>
    obtain ⟨n, hn, hdrop⟩ := gets_u32 payload pos hc.1
    obtain ⟨ms, hlen, rfl, hdrop'⟩ := reads_messages h
    rw [hn, Option.getD_some] at hlen
    refine ⟨ms, by rw [hr, List.nil_append], ?_⟩
    rw [hdrop, hdrop', putMessages, hlen, List.append_assoc]
  · exact absurd (congrArg Prod.fst h) (by simp)

end Codec

open Codec

/-- The two `switch` statements agree: the fields that were read, written again, are the
    bytes they were read from. -/
theorem drop_eq_encodeFields {payload : Bytes} {t : RequestType} {r : Request} {pos pos' : Nat}
    (h : parseFields payload t { type := t } pos = (true, r, pos')) :
    payload.drop pos = encodeFields r ++ payload.drop pos' := by
  have htp : Reads payload (getTopicPartition payload) _ _ := reads_topicPartition
  have hoff : Reads payload (getFetchOffset payload) _ _ := reads_fetchOffset
  have hmsg : Reads payload (getMessage payload) _ _ := reads_message
  have hgm : Reads payload (getGroupMember payload) _ _ := reads_groupMember
  have htopic : Reads payload (readInto (getString payload) (fun v r => { r with topic := v }))
      (fun v r => { r with topic := v }) putString := reads_readInto (gets_string payload)
  -- in each case the values that were read are the fields of the request
  have hgroup : ∀ t', t' = .joinGroup ∨ t' = .leaveGroup ∨ t' = .groupAssignment →
      parseFields payload t' { type := t' } pos = (true, r, pos') →
      payload.drop pos = encodeFields r ++ payload.drop pos' := by
    rintro t' (rfl | rfl | rfl) hrun <;>
    · obtain ⟨v, rfl, hdrop⟩ := (hgm.andThen htopic) _ _ _ _ hrun
      exact hdrop
  have hcursor : ∀ t', t' = .groupFetch ∨ t' = .commitOffset →
      parseFields payload t' { type := t' } pos = (true, r, pos') →
      payload.drop pos = encodeFields r ++ payload.drop pos' := by
    rintro t' (rfl | rfl) hrun <;>
    · obtain ⟨v, rfl, hdrop⟩ := ((hgm.andThen htp).andThen hoff) _ _ _ _ hrun
      exact hdrop
  have hoffset : ∀ t', t' = .fetch ∨ t' = .commit →
      parseFields payload t' { type := t' } pos = (true, r, pos') →
      payload.drop pos = encodeFields r ++ payload.drop pos' := by
    rintro t' (rfl | rfl) hrun <;>
    · obtain ⟨v, rfl, hdrop⟩ := (htp.andThen hoff) _ _ _ _ hrun
      exact hdrop
  cases t with
  | produce =>
    obtain ⟨v, rfl, hdrop⟩ := ((htp.andThen hmsg).andThen hoff) _ _ _ _ h
    exact hdrop
  | fetch => exact hoffset _ (.inl rfl) h
  | replicate =>
    obtain ⟨v, rfl, hdrop⟩ := ((htp.andThen hoff).andThen hmsg) _ _ _ _ h
    exact hdrop
  | ack =>
    have hbroker : Reads payload _ (fun v r => { r with brokerId := v }) putI32 :=
      reads_int (fun v r => { r with brokerId := v }) (.inl rfl)
    obtain ⟨v, rfl, hdrop⟩ := ((hoff.andThen hbroker).andThen htp) _ _ _ _ h
    exact hdrop
  | heartbeat =>
    obtain ⟨v, rfl, hdrop⟩ :=
      reads_int (fun v r => { r with brokerId := v }) (.inr rfl) _ _ _ _ h
    exact hdrop
  | commit => exact hoffset _ (.inr rfl) h
  | metadata =>
    simp only [parseFields, Prod.mk.injEq, true_and] at h
    obtain ⟨rfl, rfl⟩ := h
    rfl
  | joinGroup => exact hgroup _ (.inl rfl) h
  | leaveGroup => exact hgroup _ (.inr (.inl rfl)) h
  | groupFetch => exact hcursor _ (.inl rfl) h
  | commitOffset => exact hcursor _ (.inr rfl) h
  | groupAssignment => exact hgroup _ (.inr (.inr rfl)) h
  | batchProduce =>
    obtain ⟨r₁, pos₁, hfirst, hlast⟩ := Step.andThen_eq_true h
    obtain ⟨v, rfl, hdrop⟩ := htp _ _ _ _ hfirst
    obtain ⟨ms, rfl, hdrop'⟩ := reads_batch rfl hlast
    rw [hdrop, hdrop', ← List.append_assoc]
    rfl
  | batchReplicate =>
    obtain ⟨r₁, pos₁, hfirst, hlast⟩ := Step.andThen_eq_true h
    obtain ⟨v, rfl, hdrop⟩ := (htp.andThen hoff) _ _ _ _ hfirst
    obtain ⟨ms, rfl, hdrop'⟩ := reads_batch rfl hlast
    rw [hdrop, hdrop', ← List.append_assoc]
    rfl
  | error => exact absurd (congrArg Prod.fst h) (by simp [parseFields])

/-- The bytes of an accepted request: version, type, and the fields that were read from
    the third byte on. -/
theorem parseRequest_bytes {b : Bytes} (h : (parseRequest b).type ≠ .error) :
    ∃ t fields, b = 1 :: UInt8.ofNat (RequestType.code t) :: fields ∧
      parseFields b t { type := t } 2 = (true, parseRequest b, b.length) := by
  obtain _ | ⟨version, _ | ⟨code, fields⟩⟩ := b
  · exact absurd rfl h
  · exact absurd (by simp [parseRequest, getU8]) h
  · rw [parseRequest] at h ⊢
    simp only [getU8, List.getElem?_cons_zero, List.getElem?_cons_succ, Nat.zero_add,
      Option.getD_some, true_and, Option.some.injEq] at h ⊢
    split at h
    · next hc =>
      rw [if_pos hc]
      split at h
      · next hok =>
        rw [if_pos hok]
        refine ⟨.ofCode code.toNat, fields, ?_, Prod.ext hok.1 (Prod.ext rfl hok.2)⟩
        have hversion : version = 1 := UInt8.toNat_inj.mp hc.1
        rw [RequestType.code_ofCode hc.2, UInt8.ofNat_toNat, hversion]
      · exact absurd rfl h
    · exact absurd rfl h

/-- An accepted request, encoded again. -/
theorem encodeRequest_parse {b : Bytes} (h : (parseRequest b).type ≠ .error) :
    encodeRequest (parseRequest b) = b := by
  obtain ⟨t, fields, hb, hparse⟩ := parseRequest_bytes h
  have htype : (parseRequest b).type = t := (parseFields_sized hparse).1
  have hfields : fields = encodeFields (parseRequest b) := by
    have hdrop := drop_eq_encodeFields hparse
    rw [List.drop_length, List.append_nil] at hdrop
    rw [← hdrop, hb]
    rfl
  rw [encodeRequest, if_neg h, htype, ← hfields]
  exact hb.symm

/-- Whatever its fields are, an encoded request is read as one of its type or not at all. -/
theorem type_parseRequest_encode (r : Request) :
    (parseRequest (encodeRequest r)).type = r.type ∨
      (parseRequest (encodeRequest r)).type = .error := by
  by_cases herror : (parseRequest (encodeRequest r)).type = .error
  · exact .inr herror
  have htype : r.type ≠ .error := by
    intro heq
    rw [encodeRequest, if_pos heq] at herror
    exact herror rfl
  -- the second byte is the code of the type
  have hsecond : ∀ r : Request, r.type ≠ .error →
      (encodeRequest r)[1]? = some (UInt8.ofNat r.type.code) := by
    intro r hr
    rw [encodeRequest, if_neg hr]
    rfl
  have hcode := hsecond _ herror
  rw [encodeRequest_parse herror, hsecond r htype, Option.some.injEq] at hcode
  exact .inl (RequestType.eq_of_byte hcode).symm

/-! ### The codec is a bijection -/

/-- **Request round trip.**  Parsing an encoded request gives back its type and the fields
    that type carries, all others at their defaults. -/
theorem parseRequest_encodeRequest (r : Request) (h : r.Fits) :
    (parseRequest (encodeRequest r)).type = r.type ∧
      parseRequest (encodeRequest r) = r.carried := by
  have hparse := parseRequest_encode h
  refine ⟨?_, hparse⟩
  rw [hparse]
  unfold Request.carried
  split <;> rfl

/-- A request with the smallest partition and an offset that needs all eight bytes. -/
theorem parseRequest_encodeRequest_produce :
    let r : Request :=
      { type := .produce, topic := ofString "t", partition := -2 ^ 31, message := [0, 255],
        fetchOffset := 2 ^ 64 - 1, groupId := ofString "not carried" }
    r.Fits ∧ (parseRequest (encodeRequest r)).type = .produce ∧
      parseRequest (encodeRequest r) = { r with groupId := [] } := by
  intro r
  have hfits : r.Fits :=
    { topic := by decide, partition := by decide, message := by decide, fetchOffset := by decide,
      brokerId := by decide, groupId := by decide, memberId := by decide, count := by decide,
      messages := by decide, type := by decide }
  exact ⟨hfits, parseRequest_encodeRequest r hfits⟩

/-- **Canonical encoding.**  Encoding an accepted request gives the payload back, so no
    other payload is accepted as the same request, and only encodings of requests are
    accepted. -/
theorem encodeRequest_parseRequest (b : Bytes) (h : (parseRequest b).type ≠ .error) :
    encodeRequest (parseRequest b) = b ∧
      (∀ b', parseRequest b' = parseRequest b → b' = b) ∧
      ∃ r : Request, r.Fits ∧ encodeRequest r = b := by
  have hb := encodeRequest_parse h
  refine ⟨hb, ?_, parseRequest b, parseRequest_fits h, hb⟩
  intro b' hsame
  have hb' : encodeRequest (parseRequest b') = b' := encodeRequest_parse (by rwa [hsame])
  rw [← hb', hsame, hb]

/-- A batch without messages and with a negative partition. -/
theorem encodeRequest_parseRequest_batch :
    let b : Bytes := [1, 12, 0, 0, 0, 1, 116, 255, 255, 255, 255, 0, 0, 0, 0]
    (parseRequest b).type = .batchProduce ∧ encodeRequest (parseRequest b) = b := by
  intro b
  have htype : (parseRequest b).type = .batchProduce := by decide
  exact ⟨htype, (encodeRequest_parseRequest b (by rw [htype]; decide)).1⟩

/-! ### No accepted payload begins another -/

/-- The reads stop behind the bytes of the request, whatever comes after them: a payload
    that goes on is accepted only if nothing comes after them. -/
theorem eq_nil_of_accepted_append {b rest : Bytes} (h : (parseRequest b).type ≠ .error)
    (hlong : (parseRequest (b ++ rest)).type ≠ .error) : rest = [] := by
  obtain ⟨t, fields, hb, hparse⟩ := parseRequest_bytes h
  obtain ⟨t', fields', hb', hparse'⟩ := parseRequest_bytes hlong
  have htype : (parseRequest b).type = t := (parseFields_sized hparse).1
  -- the two payloads have the same second byte
  have hcode : UInt8.ofNat t.code = UInt8.ofNat t'.code := by
    rw [hb, List.cons_append, List.cons_append] at hb'
    exact (List.cons.inj (List.cons.inj hb').2).1
  have hsame : t = t' := RequestType.eq_of_byte hcode
  -- the fields of the shorter one are what the reads consume
  have hdrop : (b ++ rest).drop 2 = encodeFields (parseRequest b) ++ rest := by
    have hfields := drop_eq_encodeFields hparse
    rw [List.drop_length, List.append_nil] at hfields
    rw [List.drop_append_of_le_length (by rw [hb]; simp), hfields]
  have hconsumes := consumes_parseFields (parseRequest_fits h) 2 rest hdrop
  rw [htype, hsame, hparse'] at hconsumes
  have hlen : (b ++ rest).length = 2 + (encodeFields (parseRequest b)).length :=
    congrArg (fun parsed => parsed.2.2) hconsumes
  have hrest := congrArg List.length hdrop
  simp only [List.length_drop, hlen, List.length_append] at hrest
  exact List.eq_nil_of_length_eq_zero (by omega)

/-- **Prefix-freeness.**  What is cut off an accepted request or follows it makes the
    payload a malformed one, wherever the cut is. -/
theorem parseRequest_cut_or_extended (b : Bytes) (h : (parseRequest b).type ≠ .error) :
    (∀ b', b' <+: b → b' ≠ b → (parseRequest b').type = .error) ∧
      (∀ b', b <+: b' → b' ≠ b → (parseRequest b').type = .error) := by
  constructor
  · rintro b' ⟨rest, rfl⟩ hne
    by_contra hcut
    have hnil := eq_nil_of_accepted_append hcut h
    exact hne (by rw [hnil, List.append_nil])
  · rintro b' ⟨rest, rfl⟩ hne
    by_contra hlong
    have hnil := eq_nil_of_accepted_append h hlong
    exact hne (by rw [hnil, List.append_nil])

/-- A batch of two messages, cut within the length of the second, and followed by a
    byte. -/
theorem parseRequest_cut_or_extended_batch :
    let b : Bytes :=
      [1, 12, 0, 0, 0, 1, 116, 0, 0, 0, 0, 0, 0, 0, 2, 0, 0, 0, 1, 97, 0, 0, 0, 1, 98]
    (parseRequest b).type = .batchProduce ∧
      (parseRequest (b.take 22)).type = .error ∧ (parseRequest (b ++ [0])).type = .error := by
  intro b
  have htype : (parseRequest b).type = .batchProduce := by decide
  obtain ⟨hcut, hlong⟩ := parseRequest_cut_or_extended b (by rw [htype]; decide)
  exact ⟨htype, hcut _ (List.take_prefix _ _) (by decide),
    hlong _ (List.prefix_append _ _) (by decide)⟩

end StreamingPlatform
