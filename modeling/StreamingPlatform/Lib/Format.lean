import StreamingPlatform.Lib.Bytes

namespace ByteString

/-!
# Self-delimiting formats and torn tails

A `Format α` writes items of `α` one after another so that a reader can cut them
apart again: `dec` takes one item off the front of a byte string and fails when the
item is not complete.  An append-only file in such a format that loses its tail in a
crash still holds a number of complete items followed by a torn one.  This file says
which:

* `scan b` — the items a reader gets off `b` before the first incomplete one;
* `fit c xs` — the items of `xs` that are complete within the first `c` bytes of their
  encoding, by counting only;
* `scan_take` — the two agree: cutting the encoding of `xs` at byte `c` and scanning
  the rest gives `fit c xs`.
-/

/-- A format whose items can be read back one at a time.  `Valid` is the range of
    items the encoding is faithful on (a length that fits its field, for example). -/
structure Format (α : Type) where
  /-- The bytes of one item. -/
  enc : α → Bytes
  /-- Take one item off the front; `none` when it is incomplete or refused. -/
  dec : Bytes → Option (α × Bytes)
  /-- The items that survive a round trip. -/
  Valid : α → Prop
  enc_pos : ∀ a, 0 < (enc a).length
  dec_enc : ∀ a rest, Valid a → dec (enc a ++ rest) = some (a, rest)
  dec_cut : ∀ a c, Valid a → c < (enc a).length → dec ((enc a).take c) = none
  dec_sound : ∀ b a rest, dec b = some (a, rest) → b = enc a ++ rest ∧ Valid a

variable {b m rest : Bytes} {w : Nat}

namespace Format

variable {α : Type} (F : Format α)

/-- The encoding of a list of items. -/
def encAll (xs : List α) : Bytes := xs.flatMap F.enc

@[simp] theorem encAll_nil : F.encAll [] = [] := rfl

@[simp] theorem encAll_cons (x : α) (xs : List α) :
    F.encAll (x :: xs) = F.enc x ++ F.encAll xs := by
  simp [encAll]

@[simp] theorem encAll_append (xs ys : List α) :
    F.encAll (xs ++ ys) = F.encAll xs ++ F.encAll ys := by
  simp [encAll]

/-! ### Scanning -/

/-- Read at most `n` items off the front of a byte string. -/
def scanUpTo : Nat → Bytes → List α
  | 0, _ => []
  | n + 1, b =>
    match F.dec b with
    | none => []
    | some (a, rest) => a :: scanUpTo n rest

/-- The complete items at the front of a byte string.  An item has at least one byte,
    so the length of the string bounds their number. -/
def scan (b : Bytes) : List α := F.scanUpTo b.length b

variable {a : α}

/-- A successful read shortens the input. -/
theorem length_of_dec (h : F.dec b = some (a, rest)) :
    b.length = (F.enc a).length + rest.length := by
  rw [(F.dec_sound b a rest h).1, List.length_append]

/-- An item has at least one byte, so there is none in the empty string. -/
theorem dec_nil : F.dec [] = none := by
  cases hd : F.dec [] with
  | none => rfl
  | some p =>
    have hlen := F.length_of_dec hd
    have hpos := F.enc_pos p.1
    rw [List.length_nil] at hlen
    omega

theorem scanUpTo_nil (n : Nat) : F.scanUpTo n [] = [] := by
  cases n with
  | zero => rfl
  | succ n => rw [scanUpTo, F.dec_nil]

/-- Any bound that is large enough gives the same items. -/
theorem scanUpTo_eq_scan (n : Nat) (b : Bytes) (hn : b.length ≤ n) :
    F.scanUpTo n b = F.scan b := by
  suffices h : ∀ (m n : Nat) (b : Bytes), b.length ≤ m → b.length ≤ n →
      F.scanUpTo m b = F.scanUpTo n b from h n b.length b hn le_rfl
  intro m
  induction m with
  | zero =>
    intro n b hm _
    have hb : b = [] := List.length_eq_zero_iff.mp (Nat.le_zero.mp hm)
    rw [hb, scanUpTo_nil, scanUpTo_nil]
  | succ m ih =>
    intro n b hm hn'
    cases n with
    | zero =>
      have hb : b = [] := List.length_eq_zero_iff.mp (Nat.le_zero.mp hn')
      rw [hb, scanUpTo_nil, scanUpTo_nil]
    | succ n =>
      -- the rest is shorter by at least one byte, so both bounds still suffice
      cases hd : F.dec b with
      | none => simp [scanUpTo, hd]
      | some p =>
        have hlen := F.length_of_dec hd
        have hpos := F.enc_pos p.1
        simp only [scanUpTo, hd]
        rw [ih n p.2 (by omega) (by omega)]

/-- Scanning stops where no item can be read. -/
theorem scan_of_dec_none (h : F.dec b = none) : F.scan b = [] := by
  rw [← F.scanUpTo_eq_scan (b.length + 1) b (by omega), scanUpTo, h]

/-- Scanning takes one item and goes on. -/
theorem scan_of_dec_some (h : F.dec b = some (a, rest)) : F.scan b = a :: F.scan rest := by
  have hlen := F.length_of_dec h
  rw [← F.scanUpTo_eq_scan (b.length + 1) b (by omega), scanUpTo, h]
  show a :: F.scanUpTo b.length rest = a :: F.scan rest
  rw [F.scanUpTo_eq_scan b.length rest (by omega)]

theorem scan_enc_append (ha : F.Valid a) (rest : Bytes) :
    F.scan (F.enc a ++ rest) = a :: F.scan rest :=
  F.scan_of_dec_some (F.dec_enc a rest ha)

/-- **Well-formed files scan to what was written.** -/
theorem scan_encAll_append (xs : List α) (hxs : ∀ x ∈ xs, F.Valid x) (rest : Bytes) :
    F.scan (F.encAll xs ++ rest) = xs ++ F.scan rest := by
  induction xs with
  | nil => simp
  | cons x xs ih =>
    have hx : F.Valid x := hxs x (by simp)
    have ih' := ih (fun y hy => hxs y (by simp [hy]))
    rw [encAll_cons, List.append_assoc, F.scan_enc_append hx, ih', List.cons_append]

/-- Scanning an encoding gives back what was encoded. -/
theorem scan_encAll (xs : List α) (hxs : ∀ x ∈ xs, F.Valid x) : F.scan (F.encAll xs) = xs := by
  have hscan := F.scan_encAll_append xs hxs []
  rwa [List.append_nil, F.scan_of_dec_none F.dec_nil, List.append_nil] at hscan

/-- What a scan finds is valid and stands at the front; no item can be read from the rest. -/
theorem exists_scan_append (b : Bytes) :
    ∃ rest, b = F.encAll (F.scan b) ++ rest ∧ F.dec rest = none ∧ ∀ x ∈ F.scan b, F.Valid x := by
  generalize hn : b.length = n
  induction n using Nat.strongRecOn generalizing b with
  | ind n ih =>
    cases hd : F.dec b with
    | none =>
      rw [F.scan_of_dec_none hd]
      exact ⟨b, rfl, hd, fun x hx => absurd hx List.not_mem_nil⟩
    | some p =>
      obtain ⟨a, rest⟩ := p
      obtain ⟨hb, ha⟩ := F.dec_sound b a rest hd
      have hlen := F.length_of_dec hd
      have hpos := F.enc_pos a
      obtain ⟨rest', hrest, hnone, hvalid⟩ := ih rest.length (by omega) rest rfl
      rw [F.scan_of_dec_some hd]
      refine ⟨rest', ?_, hnone, ?_⟩
      · rw [encAll_cons, List.append_assoc, ← hrest, ← hb]
      · intro x hx
        rcases List.mem_cons.mp hx with rfl | hx
        · exact ha
        · exact hvalid x hx

/-! ### Torn tails -/

/-- The items of `xs` that lie completely within the first `c` bytes of their
    encoding. -/
def fit : Nat → List α → List α
  | _, [] => []
  | c, x :: xs =>
    if (F.enc x).length ≤ c then x :: fit (c - (F.enc x).length) xs else []

/-- What fits is an initial part of what was written. -/
theorem fit_prefix (c : Nat) (xs : List α) : F.fit c xs <+: xs := by
  induction xs generalizing c with
  | nil => simp [fit]
  | cons x xs ih =>
    by_cases h : (F.enc x).length ≤ c
    · simp only [fit, if_pos h]
      exact List.cons_prefix_cons.mpr ⟨rfl, ih _⟩
    · simp only [fit, if_neg h]
      exact List.nil_prefix

/-- A cut past the first part keeps that part whole. -/
theorem fit_append {c : Nat} {xs ys : List α} (h : (F.encAll xs).length ≤ c) :
    F.fit c (xs ++ ys) = xs ++ F.fit (c - (F.encAll xs).length) ys := by
  induction xs generalizing c with
  | nil => simp
  | cons x xs ih =>
    rw [encAll_cons, List.length_append] at h
    have hx : (F.enc x).length ≤ c := by omega
    rw [List.cons_append, fit, if_pos hx, ih (by omega), List.cons_append, encAll_cons,
      List.length_append, Nat.sub_add_eq]

/-- **Torn-tail lemma.** Cutting the encoding of `xs` anywhere and scanning what is
    left gives the items that are complete before the cut. -/
theorem scan_take (c : Nat) (xs : List α) (hxs : ∀ x ∈ xs, F.Valid x) :
    F.scan ((F.encAll xs).take c) = F.fit c xs := by
  induction xs generalizing c with
  | nil => simp [fit, scan, scanUpTo]
  | cons x xs ih =>
    have hx : F.Valid x := hxs x (by simp)
    have ih' := ih (c - (F.enc x).length) (fun y hy => hxs y (by simp [hy]))
    rw [encAll_cons, List.take_append]
    by_cases h : (F.enc x).length ≤ c
    · rw [List.take_of_length_le h, F.scan_enc_append hx, ih', fit, if_pos h]
    · -- the cut falls inside `x`, so nothing of the rest is left
      have hzero : c - (F.enc x).length = 0 := by omega
      rw [hzero, List.take_zero, List.append_nil, fit, if_neg h]
      exact F.scan_of_dec_none (F.dec_cut x c hx (by omega))

/-- A cut in a sequence with items that the reader refuses: an item is refused if no bytes
    that agree with its encoding as far as both go can be read. -/
theorem scan_take_prefix (c : Nat) (xs : List α)
    (hxs : ∀ x ∈ xs, F.Valid x ∨ ∀ b, b <+: F.enc x ∨ F.enc x <+: b → F.dec b = none) :
    F.scan ((F.encAll xs).take c) <+: xs := by
  induction xs generalizing c with
  | nil =>
    have hnil : F.scan [] = [] := F.scan_of_dec_none F.dec_nil
    simp [hnil]
  | cons x xs ih =>
    have ih' := ih (c - (F.enc x).length) (fun y hy => hxs y (List.mem_cons_of_mem _ hy))
    rw [encAll_cons, List.take_append]
    rcases hxs x List.mem_cons_self with hvalid | hrefused
    · by_cases hc : (F.enc x).length ≤ c
      · rw [List.take_of_length_le hc, F.scan_enc_append hvalid]
        exact List.cons_prefix_cons.mpr ⟨rfl, ih'⟩
      · have hzero : c - (F.enc x).length = 0 := by omega
        rw [hzero, List.take_zero, List.append_nil,
          F.scan_of_dec_none (F.dec_cut x c hvalid (by omega))]
        exact List.nil_prefix
    · rw [F.scan_of_dec_none]
      · exact List.nil_prefix
      · refine hrefused _ ?_
        by_cases hc : (F.enc x).length ≤ c
        · rw [List.take_of_length_le hc]
          exact .inr (List.prefix_append _ _)
        · have hzero : c - (F.enc x).length = 0 := by omega
          rw [hzero, List.take_zero, List.append_nil]
          exact .inl (List.take_prefix _ _)

/-- A byte string holds no more items than bytes. -/
theorem length_scan_le (b : Bytes) : (F.scan b).length ≤ b.length := by
  have hcount : ∀ xs : List α, xs.length ≤ (F.encAll xs).length := by
    intro xs
    induction xs with
    | nil => exact Nat.zero_le _
    | cons x xs ih =>
      have hpos := F.enc_pos x
      rw [encAll_cons, List.length_append, List.length_cons]
      omega
  obtain ⟨rest, hb, -, -⟩ := F.exists_scan_append b
  have hlen := congrArg List.length hb
  rw [List.length_append] at hlen
  have := hcount (F.scan b)
  omega

end Format

/-! ### Length-prefixed strings -/

/-- Split a length-prefixed string off the front: a little-endian length of `w` bytes,
    then that many bytes. -/
def getPrefixed (w : Nat) (b : Bytes) : Option (Bytes × Bytes) :=
  if b.length < w then none
  else
    let n := valueLE (b.take w)
    if b.length - w < n then none else some ((b.drop w).take n, b.drop (w + n))

/-- A length-prefixed string. -/
def putPrefixed (w : Nat) (m : Bytes) : Bytes := putLE w m.length ++ m

@[simp] theorem length_putPrefixed (w : Nat) (m : Bytes) :
    (putPrefixed w m).length = w + m.length := by
  simp [putPrefixed]

theorem getPrefixed_putPrefixed (hm : m.length < 256 ^ w) (rest : Bytes) :
    getPrefixed w (putPrefixed w m ++ rest) = some (m, rest) := by
  have hlen : (putPrefixed w m ++ rest).length = w + m.length + rest.length := by simp
  have htake : (putPrefixed w m ++ rest).take w = putLE w m.length := by
    rw [putPrefixed, List.append_assoc, List.take_left' (length_putLE w _)]
  have hdrop : (putPrefixed w m ++ rest).drop w = m ++ rest := by
    rw [putPrefixed, List.append_assoc, List.drop_left' (length_putLE w _)]
  have hn : valueLE (putLE w m.length) = m.length := by
    rw [valueLE_putLE, Nat.mod_eq_of_lt hm]
  rw [getPrefixed, if_neg (by omega)]
  simp only [htake, hn]
  rw [if_neg (by omega), hdrop, ← List.drop_drop, hdrop, List.take_left' rfl, List.drop_left' rfl]

theorem getPrefixed_cut (hm : m.length < 256 ^ w) {c : Nat} (hc : c < (putPrefixed w m).length) :
    getPrefixed w ((putPrefixed w m).take c) = none := by
  have hlen : ((putPrefixed w m).take c).length = c := by
    rw [List.length_take, Nat.min_eq_left hc.le]
  rw [length_putPrefixed] at hc
  unfold getPrefixed
  -- the cut is in the length or in the string
  by_cases hw : c < w
  · rw [hlen, if_pos hw]
  · have htake : ((putPrefixed w m).take c).take w = putLE w m.length := by
      rw [List.take_take, Nat.min_eq_left (by omega), putPrefixed,
        List.take_left' (length_putLE w _)]
    have hn : valueLE (putLE w m.length) = m.length := by
      rw [valueLE_putLE, Nat.mod_eq_of_lt hm]
    rw [hlen, if_neg hw]
    simp only [htake, hn]
    rw [if_pos (by omega)]

theorem getPrefixed_sound (h : getPrefixed w b = some (m, rest)) :
    b = putPrefixed w m ++ rest ∧ m.length < 256 ^ w := by
  unfold getPrefixed at h
  by_cases hw : b.length < w
  · rw [if_pos hw] at h
    exact absurd h (by simp)
  · rw [if_neg hw] at h
    by_cases hn : b.length - w < valueLE (b.take w)
    · simp only [if_pos hn] at h
      exact absurd h (by simp)
    · simp only [if_neg hn, Option.some.injEq, Prod.mk.injEq] at h
      obtain ⟨rfl, rfl⟩ := h
      have htl : (b.take w).length = w := by rw [List.length_take]; omega
      have hml : ((b.drop w).take (valueLE (b.take w))).length = valueLE (b.take w) := by
        rw [List.length_take, List.length_drop]; omega
      have hput : putLE w (valueLE (b.take w)) = b.take w := by
        have := putLE_valueLE (b.take w)
        rwa [htl] at this
      refine ⟨?_, ?_⟩
      · rw [putPrefixed, hml, hput, List.append_assoc, ← List.drop_drop, List.take_append_drop,
          List.take_append_drop]
      · have := valueLE_lt (b.take w)
        rwa [htl, ← hml] at this

/-- Length-prefixed strings with a `w`-byte length, as a format. -/
def prefixed (w : Nat) (hw : 0 < w) : Format Bytes where
  enc := putPrefixed w
  dec := getPrefixed w
  Valid := fun m => m.length < 256 ^ w
  enc_pos := by intro m; rw [length_putPrefixed]; omega
  dec_enc := fun _ rest hm => getPrefixed_putPrefixed hm rest
  dec_cut := fun _ _ hm hc => getPrefixed_cut hm hc
  dec_sound := fun _ _ _ h => getPrefixed_sound h

end ByteString
