import Mathlib.Data.Int.CardIntervalMod

namespace RoundRobin

/-!
# Dealing out in turn

The items of a list are dealt out to `n` hands, the item at position `i` to hand `i % n`.
The sizes of two hands differ by one at most (`length_hand_le`).
-/

variable {α : Type}

/-- What hand `i` of `n` gets of the items, the first of which has position `start`. -/
def hand (n i : Nat) : Nat → List α → List α
  | _, [] => []
  | start, x :: xs =>
    if start % n = i then x :: hand n i (start + 1) xs else hand n i (start + 1) xs

/-- A hand gets one item for each position that falls to it. -/
theorem length_hand (n i start : Nat) (xs : List α) :
    Nat.count (· % n = i) start + (hand n i start xs).length
      = Nat.count (· % n = i) (start + xs.length) := by
  induction xs generalizing start with
  | nil => rfl
  | cons x xs ih =>
    have hnext := ih (start + 1)
    rw [Nat.count_succ] at hnext
    rw [List.length_cons, Nat.add_comm xs.length, ← Nat.add_assoc, ← hnext, hand]
    split
    · rw [List.length_cons]
      omega
    · rfl

/-- How many of the first `b` positions fall to hand `i`. -/
theorem count_mod {n i : Nat} (hi : i < n) (b : Nat) :
    Nat.count (· % n = i) b = b / n + if i < b % n then 1 else 0 := by
  have hcount := Nat.count_modEq_card b (Nat.zero_lt_of_lt hi) i
  rw [Nat.mod_eq_of_lt hi] at hcount
  rw [← hcount]
  have hsame : ∀ k, k % n = i ↔ k ≡ i [MOD n] := by
    intro k
    unfold Nat.ModEq
    rw [Nat.mod_eq_of_lt hi]
  simp only [hsame]

/-- **Fairness.** -/
theorem length_hand_le {n i j : Nat} (hi : i < n) (hj : j < n) (xs : List α) :
    (hand n i 0 xs).length ≤ (hand n j 0 xs).length + 1 := by
  have hcount : ∀ k, k < n → (hand n k 0 xs).length
      = xs.length / n + if k < xs.length % n then 1 else 0 := by
    intro k hk
    have hlength := length_hand n k 0 xs
    rw [Nat.count_zero, Nat.zero_add, Nat.zero_add, count_mod hk] at hlength
    exact hlength
  rw [hcount i hi, hcount j hj]
  split <;> split <;> omega

end RoundRobin
