import StreamingPlatform.Protocol.Canonical

namespace StreamingPlatform

open ByteString

/-!
# Protocol — the response codec

A payload spells a response if it consists of the bytes of that response and nothing else:
the success byte may be any number but zero for `true`, and the kind byte may be anything.
These are exactly the payloads that `parse_response` consumes (`parseResponse_of_spells`,
`spells_of_ne_malformed`), and every other payload gives `malformed_response` with no field of
it set (`parseResponse_serializeResponse`).
-/

open Codec

/-- The payload is the bytes of the response, without a byte missing or left over. -/
def Spells (payload : Bytes) (r : Response) : Prop :=
  r.Fits ∧ ∃ success kind : UInt8, r.success = decide (success.toNat ≠ 0) ∧
    payload = responseBytes success kind r.appendedOffset r.message r.appendedOffsets

theorem parseResponse_of_spells {payload : Bytes} {r : Response} (h : Spells payload r) :
    parseResponse payload = r := by
  obtain ⟨hfits, success, kind, hbyte, rfl⟩ := h
  exact parseResponse_responseBytes hfits success kind hbyte

/-! ### What was read was there -/

theorem getU8_of_ok {payload : Bytes} {pos : Nat} (h : (getU8 payload pos).ok = true) :
    ∃ byte : UInt8, getU8 payload pos = ⟨true, some byte.toNat, pos + 1⟩ ∧
      payload.drop pos = [byte] ++ payload.drop (pos + 1) := by
  unfold getU8 at h ⊢
  cases hbyte : payload[pos]? with
  | none =>
    rw [hbyte] at h
    exact absurd h (by simp)
  | some byte =>
    obtain ⟨hpos, hget⟩ := List.getElem?_eq_some_iff.mp hbyte
    refine ⟨byte, rfl, ?_⟩
    rw [List.drop_eq_getElem_cons hpos, hget]
    rfl

/-- The loop over the appended offsets has read as many as it was told to. -/
theorem drop_eq_flatMap_of_getOffsets {payload : Bytes} {n pos pos' : Nat} {offsets : List Nat}
    (h : getOffsets payload n pos = some (offsets, pos')) :
    payload.drop pos = offsets.flatMap putU64 ++ payload.drop pos' := by
  induction n generalizing pos offsets with
  | zero =>
    obtain ⟨rfl, rfl⟩ := Prod.mk.inj (Option.some.inj h)
    rfl
  | succ n ih =>
    rw [getOffsets] at h
    split at h
    · next hok =>
      obtain ⟨v, hv, hdrop⟩ := gets_u64 payload pos hok
      split at h
      · next rest pos₁ hrest =>
        obtain ⟨rfl, rfl⟩ := Prod.mk.inj (Option.some.inj h)
        rw [hdrop, ih hrest, hv, Option.getD_some, List.flatMap_cons, List.append_assoc]
      · exact absurd h (by simp)
    · exact absurd h (by simp)

/-- **A response that is not the malformed one was read to the last byte.** -/
theorem spells_of_ne_malformed {payload : Bytes} (h : parseResponse payload ≠ malformedResponse) :
    Spells payload (parseResponse payload) := by
  have hfits := parseResponse_fits payload
  refine ⟨hfits, ?_⟩
  clear hfits
  unfold parseResponse at h ⊢
  dsimp only at h ⊢
  -- each check passed, or the answer would be the malformed response
  by_cases hhead : (getU8 payload 0).ok = true ∧
      (getU8 payload 0).out = some kProtocolVersion ∧
      (getU8 payload (getU8 payload 0).pos).ok = true ∧
      (getU8 payload (getU8 payload (getU8 payload 0).pos).pos).ok = true
  swap
  · exact absurd (if_neg hhead) h
  rw [if_pos hhead] at h ⊢
  obtain ⟨hversion, hone, hsuccess, hkind⟩ := hhead
  obtain ⟨version, hversion, hdrop₀⟩ := getU8_of_ok hversion
  rw [hversion] at hone hsuccess hkind h ⊢
  obtain ⟨success, hsuccess, hdrop₁⟩ := getU8_of_ok hsuccess
  rw [hsuccess] at hkind h ⊢
  obtain ⟨kind, hkind, hdrop₂⟩ := getU8_of_ok hkind
  rw [hkind] at h ⊢
  obtain rfl : version = 1 := UInt8.toNat_inj.mp (Option.some.inj hone)
  dsimp only at h hdrop₀ hdrop₁ hdrop₂ ⊢
  by_cases hfields : (getU64 payload (0 + 1 + 1 + 1)).ok = true ∧
      (getString payload (getU64 payload (0 + 1 + 1 + 1)).pos).ok = true
  swap
  · exact absurd (if_neg hfields) h
  rw [if_pos hfields] at h ⊢
  obtain ⟨offset, hoffset, hdrop₃⟩ := gets_u64 payload _ hfields.1
  obtain ⟨message, hmessage, hdrop₄⟩ := gets_string payload _ hfields.2
  generalize (getString payload (getU64 payload (0 + 1 + 1 + 1)).pos).pos = behind at *
  by_cases hcount : (getU32 payload behind).ok = true ∧
      (getU32 payload behind).out.getD 0 ≤ kMaxBatchMessages
  swap
  · exact absurd (if_neg hcount) h
  rw [if_pos hcount] at h ⊢
  obtain ⟨count, hnumber, hdrop₅⟩ := gets_u32 payload _ hcount.1
  rw [hnumber, Option.getD_some] at h ⊢
  cases hoffsets : getOffsets payload count (getU32 payload behind).pos with
  | none =>
    rw [hoffsets] at h
    exact absurd rfl h
  | some p =>
    obtain ⟨offsets, stop⟩ := p
    rw [hoffsets] at h
    have hdrop₆ := drop_eq_flatMap_of_getOffsets hoffsets
    have hlength := (getOffsets_fits hoffsets).1
    dsimp only at h ⊢
    by_cases hstop : stop = payload.length
    swap
    · exact absurd (if_neg hstop) h
    rw [if_pos hstop]
    refine ⟨success, kind, rfl, ?_⟩
    rw [hstop, List.drop_length, List.append_nil] at hdrop₆
    calc payload = payload.drop 0 := rfl
      _ = _ := by
        rw [hdrop₀, hdrop₁, hdrop₂, hdrop₃, hdrop₄, hdrop₅, hdrop₆, hoffset, hmessage,
          Option.getD_some, Option.getD_some, ← hlength]
        simp only [responseBytes, List.append_assoc]
        rfl

/-! ### The codec -/

/-- **Response codec.**  A response that fits the wire is read back; a payload that is the
    bytes of a response is read as it; and a payload that is not the bytes of any response
    gives the malformed one, with no field of it set. -/
theorem parseResponse_serializeResponse :
    (∀ r : Response, r.Fits → parseResponse (serializeResponse r) = r) ∧
      (∀ payload r, Spells payload r → parseResponse payload = r) ∧
      ∀ payload, (¬ ∃ r, Spells payload r) →
        parseResponse payload = ⟨false, ofString "malformed_response", 2 ^ 64 - 1, []⟩ := by
  refine ⟨fun r h => parseResponse_serialize h, fun payload r h => parseResponse_of_spells h, ?_⟩
  intro payload hnone
  by_contra hne
  exact hnone ⟨_, spells_of_ne_malformed hne⟩

/-- The largest offsets, and a response with a byte left over. -/
theorem parseResponse_serializeResponse_batch :
    let r : Response := ⟨true, [0, 255], 2 ^ 64 - 1, [0, 2 ^ 64 - 1]⟩
    parseResponse (serializeResponse r) = r ∧
      parseResponse (serializeResponse r ++ [0])
        = ⟨false, ofString "malformed_response", 2 ^ 64 - 1, []⟩ := by
  intro r
  have hfits : r.Fits := ⟨by decide, by decide, by decide, by decide⟩
  refine ⟨parseResponse_serializeResponse.1 r hfits, parseResponse_serializeResponse.2.2 _ ?_⟩
  -- what is read is the malformed response, whose bytes are fewer
  have hmalformed : parseResponse (serializeResponse r ++ [0]) = malformedResponse := by
    decide +kernel
  rintro ⟨r', hspells⟩
  obtain rfl : malformedResponse = r' := hmalformed.symm.trans (parseResponse_of_spells hspells)
  obtain ⟨-, success, kind, -, hbytes⟩ := hspells
  have hlength : (serializeResponse r ++ [0]).length = 37 := congrArg List.length hbytes
  exact absurd hlength (by decide)

end StreamingPlatform
