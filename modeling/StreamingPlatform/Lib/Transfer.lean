import Mathlib.Data.List.Basic

namespace Transfer

/-!
# Partial transfers

Calls that move items between a program and a channel, and may move fewer than asked for.
A `Schedule` says how many items each of the calls to come would move; a call moves that
many, but at least one and at most all that there are (`Schedule.count`).  A `Source` is
the channel from which one receives and a `Sink` the one to which one sends, from several
buffers at once.
-/

variable {α : Type}

/-- How many items the calls to come would move. -/
abbrev Schedule := Nat → Nat

namespace Schedule

variable (counts : Schedule) {n : Nat}

/-- How many of `n` items the next call moves. -/
def count (n : Nat) : Nat := min (max 1 (counts 0)) n

/-- The schedule after the next call. -/
def rest : Schedule := fun i => counts (i + 1)

theorem count_le (n : Nat) : counts.count n ≤ n := Nat.min_le_right _ _

theorem count_eq_zero_iff : counts.count n = 0 ↔ n = 0 := by
  unfold count
  omega

end Schedule

/-! ### Receiving -/

/-- What is still to come, and how it comes. -/
structure Source (α : Type) where
  items : List α
  counts : Schedule

namespace Source

variable (s : Source α)

/-- Receive up to `limit` items; nothing is received only at the end. -/
def receive (limit : Nat) : List α × Source α :=
  let n := s.counts.count (min limit s.items.length)
  (s.items.take n, ⟨s.items.drop n, s.counts.rest⟩)

theorem receive_append (limit : Nat) :
    (s.receive limit).1 ++ (s.receive limit).2.items = s.items := List.take_append_drop _ _

theorem length_receive_le (limit : Nat) : (s.receive limit).1.length ≤ limit := by
  have hle := s.counts.count_le (min limit s.items.length)
  unfold receive
  rw [List.length_take]
  omega

theorem receive_eq_nil_iff {limit : Nat} (h : 0 < limit) :
    (s.receive limit).1 = [] ↔ s.items = [] := by
  unfold receive
  rw [List.take_eq_nil_iff, Schedule.count_eq_zero_iff]
  constructor
  · rintro (hmin | hnil)
    · exact List.length_eq_zero_iff.mp (by omega)
    · exact hnil
  · exact .inr

end Source

/-! ### Sending -/

/-- What has been sent, and how the rest will go. -/
structure Sink (α : Type) where
  items : List α
  counts : Schedule

/-- Send from the buffers, in order, and say how many items went out. -/
def Sink.send (s : Sink α) (buffers : List (List α)) : Nat × Sink α :=
  let n := s.counts.count buffers.flatten.length
  (n, ⟨s.items ++ buffers.flatten.take n, s.counts.rest⟩)

end Transfer
