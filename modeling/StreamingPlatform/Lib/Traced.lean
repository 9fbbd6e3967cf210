import Mathlib.Data.List.Count
import Mathlib.Data.List.Pairwise
import Mathlib.Order.Nat

namespace Tracing

/-!
# Computations on a cursor that record what they do

A `Traced ε α` starts at a cursor and returns a value, the new cursor and the events on the
way; `none` stands for a loop that has used up its rounds.  What is asked of the events is a
`Watch`: where each one happens, which ones are safe, and which ones are counted.

`Leads w run start value stop n` says that `run`, started at `start`, does return, with
`value` and the cursor at `stop`, after safe events that happen in the order of the cursor,
at most `n` of them counted.  The rules of `Leads` follow the computation: `leads_pure`,
`leads_emit` and `Leads.bind`.
-/

/-- What a computation has come to. -/
structure Ran (ε α : Type) where
  value : α
  cursor : Nat
  events : List ε

/-- A computation on a cursor. -/
def Traced (ε α : Type) : Type := Nat → Option (Ran ε α)

variable {ε α β : Type}

/-- One computation after another, with the events of both. -/
def Traced.bind (run : Traced ε α) (next : α → Traced ε β) : Traced ε β := fun pos =>
  match run pos with
  | none => none
  | some first =>
    match next first.value first.cursor with
    | none => none
    | some last => some ⟨last.value, last.cursor, first.events ++ last.events⟩

instance : Monad (Traced ε) where
  pure a := fun pos => some ⟨a, pos, []⟩
  bind := Traced.bind

/-- Record an event, which may mention the cursor. -/
def emit (event : Nat → ε) : Traced ε Unit := fun pos => some ⟨(), pos, [event pos]⟩

/-- The cursor. -/
def cursor : Traced ε Nat := fun pos => some ⟨pos, pos, []⟩

/-- No rounds are left. -/
def exhausted : Traced ε α := fun _ => none

/-! ### What is asked of the events -/

/-- Where an event happens, whether it is safe and whether it is counted. -/
structure Watch (ε : Type) where
  pos : ε → Nat
  Safe : ε → Prop
  counted : ε → Bool

variable {w : Watch ε} {start middle stop m n : Nat} {events events' : List ε}

/-- Safe events between two cursors, in the order in which they lie. -/
structure Orderly (w : Watch ε) (start stop : Nat) (events : List ε) : Prop where
  le : start ≤ stop
  safe : ∀ e ∈ events, w.Safe e
  within : ∀ e ∈ events, start ≤ w.pos e ∧ w.pos e ≤ stop
  sorted : (events.map w.pos).Pairwise (· ≤ ·)

theorem Orderly.nil (w : Watch ε) (h : start ≤ stop) : Orderly w start stop [] where
  le := h
  safe := fun _ he => absurd he List.not_mem_nil
  within := fun _ he => absurd he List.not_mem_nil
  sorted := .nil

theorem Orderly.single {e : ε} (hsafe : w.Safe e) (hstart : start ≤ w.pos e)
    (hstop : w.pos e ≤ stop) : Orderly w start stop [e] where
  le := hstart.trans hstop
  safe := fun _ he => List.mem_singleton.mp he ▸ hsafe
  within := fun _ he => List.mem_singleton.mp he ▸ ⟨hstart, hstop⟩
  sorted := List.pairwise_singleton _ _

theorem Orderly.append (h : Orderly w start middle events) (h' : Orderly w middle stop events') :
    Orderly w start stop (events ++ events') where
  le := h.le.trans h'.le
  safe := fun e he => (List.mem_append.mp he).elim (h.safe e) (h'.safe e)
  within := by
    intro e he
    rcases List.mem_append.mp he with he | he
    · exact ⟨(h.within e he).1, (h.within e he).2.trans h'.le⟩
    · exact ⟨h.le.trans (h'.within e he).1, (h'.within e he).2⟩
  sorted := by
    rw [List.map_append, List.pairwise_append]
    refine ⟨h.sorted, h'.sorted, ?_⟩
    -- what comes first happens before `middle`, what follows behind it
    intro p hp q hq
    obtain ⟨e, he, rfl⟩ := List.mem_map.mp hp
    obtain ⟨e', he', rfl⟩ := List.mem_map.mp hq
    exact (h.within e he).2.trans (h'.within e' he').1

/-! ### Where a computation leads -/

/-- Started at `start`, the computation returns `value` with the cursor at `stop`, after
    orderly events of which at most `n` are counted. -/
def Leads (w : Watch ε) (run : Traced ε α) (start : Nat) (value : α) (stop n : Nat) : Prop :=
  ∃ events, run start = some ⟨value, stop, events⟩ ∧ Orderly w start stop events ∧
    events.countP w.counted ≤ n

theorem leads_pure (w : Watch ε) (a : α) (start : Nat) :
    Leads w (pure a) start a start 0 :=
  ⟨[], rfl, .nil w (le_refl start), Nat.le_refl 0⟩

theorem leads_cursor (w : Watch ε) (start : Nat) : Leads w cursor start start start 0 :=
  ⟨[], rfl, .nil w (le_refl start), Nat.le_refl 0⟩

/-- One event, with or without a move of the cursor. -/
theorem leads_single {run : Traced ε α} {a : α} {e : ε} (hrun : run start = some ⟨a, stop, [e]⟩)
    (hsafe : w.Safe e) (hstart : start ≤ w.pos e) (hstop : w.pos e ≤ stop) :
    Leads w run start a stop (if w.counted e then 1 else 0) := by
  refine ⟨[e], hrun, .single hsafe hstart hstop, ?_⟩
  rw [List.countP_singleton]

theorem Leads.bind {run : Traced ε α} {next : α → Traced ε β} {a : α} {b : β}
    (h : Leads w run start a middle m) (h' : Leads w (next a) middle b stop n) :
    Leads w (run >>= next) start b stop (m + n) := by
  obtain ⟨events, hrun, horder, hcount⟩ := h
  obtain ⟨events', hrun', horder', hcount'⟩ := h'
  refine ⟨events ++ events', ?_, horder.append horder', ?_⟩
  · show Traced.bind run next start = _
    rw [Traced.bind, hrun]
    dsimp only
    rw [hrun']
  · rw [List.countP_append]
    exact Nat.add_le_add hcount hcount'

theorem Leads.mono {run : Traced ε α} {a : α} (h : Leads w run start a stop m) (hle : m ≤ n) :
    Leads w run start a stop n := by
  obtain ⟨events, hrun, horder, hcount⟩ := h
  exact ⟨events, hrun, horder, hcount.trans hle⟩

end Tracing
