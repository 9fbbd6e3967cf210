import Mathlib.Data.List.Basic
import Mathlib.Tactic.Ring

namespace ByteString

/-!
# Byte strings

The byte-level vocabulary shared by every format of the development: the bytes of
a text literal, decimal numerals, and fixed-width little-endian integers.  Widths
are counted in bytes, and writing a number keeps its low `8 * w` bits, as a store
of a machine integer does.
-/

/-- A string of bytes, such as the contents of a file. -/
abbrev Bytes := List UInt8

/-- The bytes of a text literal. -/
def ofString (s : String) : Bytes := s.toList.map (fun c => UInt8.ofNat c.toNat)

/-! ### Decimal numerals -/

/-- The decimal numeral of a natural number, most significant digit first. -/
def decimal (n : Nat) : Bytes := (Nat.toDigits 10 n).map (fun c => UInt8.ofNat c.toNat)

/-- The decimal numeral of an integer, with a leading `-` when it is negative. -/
def decimalInt : Int → Bytes
  | .ofNat n => decimal n
  | .negSucc n => 45 :: decimal (n + 1)

/-- A digit character is at most `'9'`, so narrowing it to a byte is lossless. -/
theorem toNat_ofNat_of_isDigit {c : Char} (hc : c.isDigit) :
    (UInt8.ofNat c.toNat).toNat = c.toNat := by
  have h : c.toNat ≤ 57 := by
    simp only [Char.isDigit, Bool.and_eq_true, decide_eq_true_eq] at hc
    exact hc.2
  rw [UInt8.toNat_ofNat']
  omega

/-- Every byte of a numeral is an ASCII digit. -/
theorem mem_decimal {n : Nat} {b : UInt8} (hb : b ∈ decimal n) : 48 ≤ b.toNat ∧ b.toNat ≤ 57 := by
  simp only [decimal, List.mem_map] at hb
  obtain ⟨c, hc, rfl⟩ := hb
  have hd : c.isDigit := Nat.isDigit_of_mem_toDigits (by decide) (by decide) hc
  rw [toNat_ofNat_of_isDigit hd]
  simp only [Char.isDigit, Bool.and_eq_true, decide_eq_true_eq] at hd
  exact hd

/-- The digit characters of a number can be read back from its numeral. -/
theorem decimal_chars (n : Nat) :
    (decimal n).map (fun b => Char.ofNat b.toNat) = Nat.toDigits 10 n := by
  rw [decimal, List.map_map]
  conv_rhs => rw [← List.map_id (Nat.toDigits 10 n)]
  refine List.map_congr_left (fun c hc => ?_)
  have hd : c.isDigit := Nat.isDigit_of_mem_toDigits (by decide) (by decide) hc
  simp [toNat_ofNat_of_isDigit hd]

/-- Different numbers have different numerals. -/
theorem decimal_injective : Function.Injective decimal := by
  intro m n h
  have hchars : Nat.toDigits 10 m = Nat.toDigits 10 n := by
    rw [← decimal_chars m, h, decimal_chars n]
  rw [← Nat.ofDigitChars_ten_toDigits (n := m), hchars, Nat.ofDigitChars_ten_toDigits]

/-- A text and a numeral behind a separator that is not a digit: the last separator splits
    them. -/
theorem append_decimal_injective {sep : UInt8} (hsep : sep.toNat < 48 ∨ 57 < sep.toNat)
    {text text' : Bytes} {n n' : Nat}
    (h : text ++ sep :: decimal n = text' ++ sep :: decimal n') : text = text' ∧ n = n' := by
  have hno : ∀ k, sep ∉ decimal k := by
    intro k hk
    have := mem_decimal hk
    omega
  -- one text goes on where the other one ends, and the separator is not among the digits
  have hsplit : ∀ {text text' : Bytes} {n n' : Nat}, (∃ more, text' = text ++ more ∧
      sep :: decimal n = more ++ sep :: decimal n') → text = text' ∧ n = n' := by
    rintro text text' n n' ⟨more, rfl, hmore⟩
    cases more with
    | nil =>
      rw [List.nil_append, List.cons.injEq] at hmore
      exact ⟨(List.append_nil text).symm, decimal_injective hmore.2⟩
    | cons b more =>
      rw [List.cons_append, List.cons.injEq] at hmore
      have hmem : sep ∈ decimal n := by rw [hmore.2]; simp
      exact absurd hmem (hno n)
  rcases List.append_eq_append_iff.mp h with hcase | ⟨more, htext, hmore⟩
  · exact hsplit hcase
  · obtain ⟨htopic, hnum⟩ := hsplit ⟨more, htext, hmore⟩
    exact ⟨htopic.symm, hnum.symm⟩

/-! ### Little-endian integers -/

/-- Store the low `8 * w` bits of `n`, least significant byte first. -/
def putLE : (w : Nat) → Nat → Bytes
  | 0, _ => []
  | w + 1, n => UInt8.ofNat n :: putLE w (n / 256)

/-- The number a little-endian byte string stands for. -/
def valueLE : Bytes → Nat
  | [] => 0
  | b :: bs => b.toNat + 256 * valueLE bs

@[simp] theorem length_putLE (w n : Nat) : (putLE w n).length = w := by
  induction w generalizing n with
  | zero => rfl
  | succ w ih => simp [putLE, ih]

/-- A stored number reads back modulo the width. -/
@[simp] theorem valueLE_putLE (w n : Nat) : valueLE (putLE w n) = n % 256 ^ w := by
  induction w generalizing n with
  | zero => simp [putLE, valueLE, Nat.mod_one]
  | succ w ih =>
    have hbyte : (UInt8.ofNat n).toNat = n % 256 := UInt8.toNat_ofNat'
    have hsplit : n % (256 * 256 ^ w) = n % 256 + 256 * (n / 256 % 256 ^ w) := Nat.mod_mul
    rw [putLE, valueLE, ih, hbyte, pow_succ', hsplit]

/-- Every byte string is what storing its value at its own width writes. -/
theorem putLE_valueLE (bs : Bytes) : putLE bs.length (valueLE bs) = bs := by
  induction bs with
  | nil => rfl
  | cons b bs ih =>
    have hb := b.toNat_lt
    have hlow : UInt8.ofNat (b.toNat + 256 * valueLE bs) = b := by
      apply UInt8.toNat_inj.mp
      rw [UInt8.toNat_ofNat']
      omega
    have hhigh : (b.toNat + 256 * valueLE bs) / 256 = valueLE bs := by omega
    simp only [List.length_cons, valueLE, putLE, hlow, hhigh, ih]

theorem valueLE_lt (bs : Bytes) : valueLE bs < 256 ^ bs.length := by
  have h := valueLE_putLE bs.length (valueLE bs)
  rw [putLE_valueLE] at h
  rw [h]
  exact Nat.mod_lt _ (Nat.pow_pos (by decide))

end ByteString
