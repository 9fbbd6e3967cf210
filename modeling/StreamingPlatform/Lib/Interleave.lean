import Mathlib.Logic.Basic
import Mathlib.Data.List.Basic

namespace Interleave

/-!
# Interleaved programs and rely–guarantee reasoning

A program is a tree of atomic actions (`Prog`).  A `Machine` gives the actions their
meaning on a shared world and says which steps the environment can take, some of which
start new programs.  A `Pool` is a world with the programs that run in it; `Machine.step`
lets one program perform its next action or the environment take a step, so
`Reachable` ranges over all interleavings.  A `Guard` restricts the steps of the runs one
wants to speak about.

Programs are verified one at a time:

* `Rely` fixes what a thread may assume of everybody else, once for a machine;
* `Protocol` is an invariant of the world together with a precondition for every action
  under which the action keeps it;
* `Safe` says of a program that it meets the preconditions of its actions and what it
  returns, whatever the others do in between.  It has one rule for each way to build a
  program (`Safe.bind`, `Safe.perform`, …);
* `Protocol.invariant` puts the threads together: in every reachable pool the invariant
  holds and every thread is safe, and with them whatever else the steps keep.

What needs no preconditions goes through `Reachable.threads`: an invariant of the world and one
of every single thread, in terms of the rest of its program.

What a thread returns is only worth something if it gets there: `Machine.exists_until`
says that a thread whose actions are all possible can run to its end.
-/

/-! ### Programs -/

/-- A program over actions `Act`, where `Res a` is what action `a` returns. -/
inductive Prog (Act : Type) (Res : Act → Type) (α : Type) where
  | ret (a : α)
  | act (a : Act) (k : Res a → Prog Act Res α)

namespace Prog

variable {Act : Type} {Res : Act → Type} {α β : Type}

/-- Run `p`, then `f` on what it returns. -/
def bind : Prog Act Res α → (α → Prog Act Res β) → Prog Act Res β
  | .ret a, f => f a
  | .act a k, f => .act a (fun r => bind (k r) f)

instance : Monad (Prog Act Res) where
  pure := .ret
  bind := bind

/-- A single action. -/
def perform (a : Act) : Prog Act Res (Res a) := .act a .ret

/-- What a program that has finished returned. -/
def result? : Prog Act Res α → Option α
  | .ret a => some a
  | .act _ _ => none

/-- The action a program performs next. -/
def next? : Prog Act Res α → Option Act
  | .ret _ => none
  | .act a _ => some a

/-- What is left of a program after the given actions with what they returned; `none` if it
    performs others. -/
def resume [DecidableEq Act] : List ((a : Act) × Res a) → Prog Act Res α →
    Option (Prog Act Res α)
  | [], p => some p
  | _ :: _, .ret _ => none
  | e :: events, .act a k => if h : e.1 = a then resume events (k (h ▸ e.2)) else none

/-- One more action. -/
theorem resume_concat [DecidableEq Act] {p : Prog Act Res α} {events : List ((a : Act) × Res a)}
    {a : Act} {k : Res a → Prog Act Res α} (h : p.resume events = some (.act a k)) (r : Res a) :
    p.resume (events ++ [⟨a, r⟩]) = some (k r) := by
  induction events generalizing p with
  | nil =>
    obtain rfl := Option.some.inj h
    exact dif_pos rfl
  | cons e events ih =>
    cases p with
    | ret b => exact absurd h (by simp [resume])
    | act b f =>
      by_cases heq : e.1 = b
      · rw [resume, dif_pos heq] at h
        rw [List.cons_append, resume, dif_pos heq]
        exact ih h
      · rw [resume, dif_neg heq] at h
        exact absurd h (by simp)

theorem eq_ret_of_result? {p : Prog Act Res α} {a : α} (h : p.result? = some a) : p = .ret a := by
  cases p with
  | ret b => rw [Option.some.inj h]
  | act b k => exact absurd h (by simp [result?])

theorem eq_ret_of_bind {o : Option (Prog Act Res α)} {a : α} (h : o.bind result? = some a) :
    o = some (.ret a) := by
  obtain ⟨p, rfl, hp⟩ := Option.bind_eq_some_iff.mp h
  rw [eq_ret_of_result? hp]

/-- Every action that `p` can come to perform satisfies `P`. -/
def AllActs (P : Act → Prop) : Prog Act Res α → Prop
  | .ret _ => True
  | .act a k => P a ∧ ∀ r, AllActs P (k r)

/-- Actions of a sequence. -/
theorem AllActs.bind {P : Act → Prop} {p : Prog Act Res α} {f : α → Prog Act Res β}
    (hp : p.AllActs P) (hf : ∀ a, (f a).AllActs P) : (p >>= f).AllActs P := by
  induction p with
  | ret a => exact hf a
  | act a k ih => exact ⟨hp.1, fun r => ih r (hp.2 r)⟩

theorem AllActs.perform {P : Act → Prop} {a : Act} (ha : P a) :
    (Prog.perform a : Prog Act Res (Res a)).AllActs P :=
  ⟨ha, fun _ => trivial⟩

theorem AllActs.pure {P : Act → Prop} (a : α) : (pure a : Prog Act Res α).AllActs P := trivial

/-- A weaker condition on actions. -/
theorem AllActs.mono {P Q : Act → Prop} (hPQ : ∀ a, P a → Q a) {p : Prog Act Res α}
    (hp : p.AllActs P) : p.AllActs Q := by
  induction p with
  | ret a => exact trivial
  | act a k ih => exact ⟨hPQ a hp.1, fun r => ih r (hp.2 r)⟩

/-- Actions of a loop. -/
theorem AllActs.forM {ι : Type} {P : Act → Prop} {l : List ι} {f : ι → Prog Act Res PUnit}
    (h : ∀ i ∈ l, (f i).AllActs P) : (l.forM f).AllActs P := by
  induction l with
  | nil => exact trivial
  | cons i l ih =>
    exact AllActs.bind (h i List.mem_cons_self)
      (fun _ => ih (fun j hj => h j (List.mem_cons_of_mem _ hj)))

end Prog

/-! ### Machines -/

/-- `exec τ a c w` is action `a` of thread `τ` in world `w`, where `c` settles what the
    action leaves open; `env n e w` is a step of the environment, where `n` is the number
    of the thread that it starts, if it starts one. -/
structure Machine (Act : Type) (Res : Act → Type) (α σ C E : Type) where
  exec : Nat → (a : Act) → C → σ → Option (Res a × σ)
  env : Nat → E → σ → Option (σ × Option (Prog Act Res α))

/-- A world and the programs of its threads. -/
structure Pool (Act : Type) (Res : Act → Type) (α σ : Type) where
  world : σ
  progs : List (Prog Act Res α)

/-- Thread `τ` moves, or the environment does. -/
inductive Label (C E : Type) where
  | run (τ : Nat) (c : C)
  | env (e : E)

/-- A condition on steps: on an action of a thread, given the world it is performed in,
    and on a step of the environment. -/
structure Guard (Act σ E : Type) where
  act : σ → Nat → Act → Prop
  env : σ → E → Prop

section Machine

variable {Act : Type} {Res : Act → Type} {α σ C E : Type}

/-- One step of a pool. -/
def Machine.step (M : Machine Act Res α σ C E) (p : Pool Act Res α σ) :
    Label C E → Option (Pool Act Res α σ)
  | .run τ c =>
    match p.progs[τ]? with
    | some (.act a k) =>
      match M.exec τ a c p.world with
      | some (r, w) => some ⟨w, p.progs.set τ (k r)⟩
      | none => none
    | _ => none
  | .env e =>
    match M.env p.progs.length e p.world with
    | some (w, started) => some ⟨w, p.progs ++ started.toList⟩
    | none => none

/-- What a step is: an action of a thread, or a step of the environment with the thread it
    may start. -/
theorem Machine.step_cases {M : Machine Act Res α σ C E} {p p' : Pool Act Res α σ}
    {l : Label C E} (h : M.step p l = some p') :
    (∃ τ c a k r, l = .run τ c ∧ p.progs[τ]? = some (.act a k) ∧
      M.exec τ a c p.world = some (r, p'.world) ∧ p'.progs = p.progs.set τ (k r)) ∨
    ∃ e started, l = .env e ∧ M.env p.progs.length e p.world = some (p'.world, started) ∧
      p'.progs = p.progs ++ started.toList := by
  cases l with
  | run τ c =>
    rw [Machine.step] at h
    split at h
    · next a k hprog =>
      split at h
      · next r w hexec =>
        obtain rfl := Option.some.inj h
        exact .inl ⟨τ, c, a, k, r, rfl, hprog, hexec, rfl⟩
      · exact absurd h (by simp)
    · exact absurd h (by simp)
  | env e =>
    rw [Machine.step] at h
    split at h
    · next w started henv =>
      obtain rfl := Option.some.inj h
      exact .inr ⟨e, started, rfl, henv, rfl⟩
    · exact absurd h (by simp)

/-- The program of a thread after a thread has moved. -/
theorem getElem?_set_prog {progs : List (Prog Act Res α)} {τ τ' : Nat}
    {old new prog : Prog Act Res α} (hold : progs[τ]? = some old)
    (h : (progs.set τ new)[τ']? = some prog) :
    (τ' = τ ∧ prog = new) ∨ (τ' ≠ τ ∧ progs[τ']? = some prog) := by
  by_cases heq : τ = τ'
  · subst heq
    rw [List.getElem?_set_self (List.getElem?_eq_some_iff.mp hold).1] at h
    exact .inl ⟨rfl, (Option.some.inj h).symm⟩
  · rw [List.getElem?_set_ne heq] at h
    exact .inr ⟨Ne.symm heq, h⟩

/-- The program of a thread after the environment has moved: an old one, or the one that was
    started. -/
theorem getElem?_append_started {β : Type} {progs : List β} {started : Option β} {τ : Nat}
    {prog : β} (h : (progs ++ started.toList)[τ]? = some prog) :
    progs[τ]? = some prog ∨ (τ = progs.length ∧ started = some prog) := by
  rcases Nat.lt_or_ge τ progs.length with hlt | hge
  · rw [List.getElem?_append_left hlt] at h
    exact .inl h
  · rw [List.getElem?_append_right hge] at h
    cases started with
    | none => exact absurd h (by simp)
    | some prog' =>
      rw [Option.toList_some, List.getElem?_singleton] at h
      split at h
      · exact .inr ⟨by omega, h⟩
      · exact absurd h (by simp)

/-- The guard allows a step. -/
def Guard.Allows (G : Guard Act σ E) (p : Pool Act Res α σ) : Label C E → Prop
  | .run τ _ => ∀ a k, p.progs[τ]? = some (.act a k) → G.act p.world τ a
  | .env e => G.env p.world e

/-- A guard that can be decided, as a check of single steps. -/
def Guard.check (G : Guard Act σ E) [∀ w τ a, Decidable (G.act w τ a)]
    [∀ w e, Decidable (G.env w e)] (p : Pool Act Res α σ) : Label C E → Bool
  | .run τ _ =>
    match (p.progs[τ]?).bind Prog.next? with
    | some a => decide (G.act p.world τ a)
    | none => true
  | .env e => decide (G.env p.world e)

/-- A decidable guard can be checked. -/
theorem Guard.allows_of_check (G : Guard Act σ E) [∀ w τ a, Decidable (G.act w τ a)]
    [∀ w e, Decidable (G.env w e)] (p : Pool Act Res α σ) (l : Label C E)
    (h : G.check p l = true) : G.Allows p l := by
  cases l with
  | run τ c =>
    intro a k hprog
    rw [Guard.check, hprog] at h
    exact of_decide_eq_true h
  | env e =>
    show G.env p.world e
    exact of_decide_eq_true h

/-- The pools that runs from `p₀` with allowed steps reach. -/
inductive Reachable (M : Machine Act Res α σ C E) (G : Guard Act σ E) (p₀ : Pool Act Res α σ) :
    Pool Act Res α σ → Prop where
  | start : Reachable M G p₀ p₀
  | step {p p' : Pool Act Res α σ} (l : Label C E) :
      Reachable M G p₀ p → G.Allows p l → M.step p l = some p' → Reachable M G p₀ p'

/-- `G` holds wherever `G'` does. -/
structure Guard.Refines (G' G : Guard Act σ E) : Prop where
  act : ∀ {w τ a}, G'.act w τ a → G.act w τ a
  env : ∀ {w e}, G'.env w e → G.env w e

/-- A refined guard allows less. -/
theorem Guard.Refines.allows {G G' : Guard Act σ E} (h : G'.Refines G) {p : Pool Act Res α σ}
    {l : Label C E} (hl : G'.Allows p l) : G.Allows p l := by
  cases l with
  | run τ c => exact fun a k hprog => h.act (hl a k hprog)
  | env e => exact h.env hl

/-- Runs compose. -/
theorem Reachable.trans {M : Machine Act Res α σ C E} {G : Guard Act σ E}
    {p₀ p p' : Pool Act Res α σ} (h : Reachable M G p₀ p) (h' : Reachable M G p p') :
    Reachable M G p₀ p' := by
  induction h' with
  | start => exact h
  | step l _ hallow hstep ih => exact ih.step l hallow hstep

/-- Runs of `G` are runs of `G'` if the states they reach allow as much. -/
theorem Reachable.restrict {M : Machine Act Res α σ C E} {G G' : Guard Act σ E}
    {p₀ p : Pool Act Res α σ} (h : Reachable M G p₀ p)
    (hG : ∀ q (l : Label C E), Reachable M G p₀ q → G.Allows q l → G'.Allows q l) :
    Reachable M G' p₀ p := by
  induction h with
  | start => exact .start
  | step l hreach hallow hstep ih => exact ih.step l (hG _ l hreach hallow) hstep

/-- A guard with one more condition on actions. -/
def Guard.within (G : Guard Act σ E) (P : σ → Nat → Act → Prop) : Guard Act σ E where
  act w τ a := G.act w τ a ∧ P w τ a
  env := G.env

/-- A further condition refines the guard. -/
theorem Guard.within_refines (G : Guard Act σ E) (P : σ → Nat → Act → Prop) :
    (G.within P).Refines G :=
  ⟨fun h => h.1, fun h => h⟩

/-- Hence it leaves fewer runs. -/
theorem Reachable.of_within {M : Machine Act Res α σ C E} {G : Guard Act σ E}
    {P : σ → Nat → Act → Prop} {p₀ p : Pool Act Res α σ} (h : Reachable M (G.within P) p₀ p) :
    Reachable M G p₀ p := by
  exact h.restrict (fun q l _ hallow => (G.within_refines P).allows hallow)

/-- A check of single steps that looks at the further condition as well. -/
def Guard.within? (ok : Pool Act Res α σ → Label C E → Bool) (P : σ → Nat → Act → Prop)
    [∀ w τ a, Decidable (P w τ a)] (p : Pool Act Res α σ) (l : Label C E) : Bool :=
  ok p l && match l with
    | .run τ _ => ((p.progs[τ]?).bind Prog.next?).all (fun a => decide (P p.world τ a))
    | .env _ => true

theorem Guard.within_allows {G : Guard Act σ E} {ok : Pool Act Res α σ → Label C E → Bool}
    (hok : ∀ p l, ok p l = true → G.Allows p l) (P : σ → Nat → Act → Prop)
    [∀ w τ a, Decidable (P w τ a)] (p : Pool Act Res α σ) (l : Label C E)
    (h : Guard.within? ok P p l = true) : (G.within P).Allows p l := by
  obtain ⟨hG, hP⟩ := Bool.and_eq_true_iff.mp h
  cases l with
  | run τ c =>
    intro a k hprog
    dsimp only at hP
    rw [hprog] at hP
    exact ⟨hok p _ hG a k hprog, of_decide_eq_true hP⟩
  | env e => exact hok p _ hG

/-- A thread performs its next action. -/
theorem Reachable.run {M : Machine Act Res α σ C E} {G : Guard Act σ E} {p : Pool Act Res α σ}
    {τ : Nat} {a : Act} {k : Res a → Prog Act Res α} {c : C} {r : Res a} {w' : σ}
    (hprog : p.progs[τ]? = some (.act a k)) (hG : G.act p.world τ a)
    (hexec : M.exec τ a c p.world = some (r, w')) :
    Reachable M G p ⟨w', p.progs.set τ (k r)⟩ := by
  refine Reachable.start.step (.run τ c) (fun a' k' hk' => ?_) ?_
  · rw [hprog, Option.some.injEq] at hk'
    cases hk'
    exact hG
  · simp only [Machine.step, hprog, hexec]

/-- The environment moves. -/
theorem Reachable.env {M : Machine Act Res α σ C E} {G : Guard Act σ E} {p : Pool Act Res α σ}
    {e : E} {w' : σ} {started : Option (Prog Act Res α)} (hG : G.env p.world e)
    (henv : M.env p.progs.length e p.world = some (w', started)) :
    Reachable M G p ⟨w', p.progs ++ started.toList⟩ := by
  refine Reachable.start.step (.env e) hG ?_
  simp only [Machine.step, henv]

/-- A whole schedule, as long as its steps pass the check `ok`. -/
def Machine.run (M : Machine Act Res α σ C E) (ok : Pool Act Res α σ → Label C E → Bool)
    (p : Pool Act Res α σ) : List (Label C E) → Option (Pool Act Res α σ)
  | [] => some p
  | l :: ls =>
    if ok p l then
      match M.step p l with
      | some p' => M.run ok p' ls
      | none => none
    else none

/-- A check that is as strict as the guard gives runs of the guard. -/
theorem Machine.reachable_of_run {M : Machine Act Res α σ C E} {G : Guard Act σ E}
    {ok : Pool Act Res α σ → Label C E → Bool} (hok : ∀ p l, ok p l = true → G.Allows p l)
    {p p' : Pool Act Res α σ} {ls : List (Label C E)} (h : M.run ok p ls = some p') :
    Reachable M G p p' := by
  induction ls generalizing p with
  | nil => rw [Option.some.inj h]; exact .start
  | cons l ls ih =>
    rw [Machine.run] at h
    split at h
    · next hl =>
      split at h
      · next p₁ hstep => exact (Reachable.start.step l (hok p l hl) hstep).trans (ih h)
      · exact absurd h (by simp)
    · exact absurd h (by simp)

/-- A schedule that passes the check leads to a reachable pool, and what is seen to be true
    there is true of it. -/
theorem Machine.exists_reachable (M : Machine Act Res α σ C E) {G : Guard Act σ E}
    {ok : Pool Act Res α σ → Label C E → Bool} (hok : ∀ p l, ok p l = true → G.Allows p l)
    (P : Pool Act Res α σ → Prop) [DecidablePred P] (p : Pool Act Res α σ) (ls : List (Label C E))
    (h : (M.run ok p ls).any (fun p' => decide (P p')) = true) :
    ∃ p', Reachable M G p p' ∧ P p' := by
  obtain ⟨p', hrun, hP⟩ := (Option.any_eq_true _ _).mp h
  exact ⟨p', reachable_of_run hok hrun, of_decide_eq_true hP⟩

/-- The same for a schedule that goes on from there. -/
theorem Machine.exists_reachable_later (M : Machine Act Res α σ C E) {G : Guard Act σ E}
    {ok : Pool Act Res α σ → Label C E → Bool} (hok : ∀ p l, ok p l = true → G.Allows p l)
    (P : Pool Act Res α σ → Pool Act Res α σ → Prop) [∀ p, DecidablePred (P p)]
    (p₀ : Pool Act Res α σ) (ls ls' : List (Label C E))
    (h : (M.run ok p₀ ls).any (fun p =>
      (M.run ok p ls').any (fun p' => decide (P p p'))) = true) :
    ∃ p p', Reachable M G p₀ p ∧ Reachable M G p p' ∧ P p p' := by
  obtain ⟨p, hrun, hlater⟩ := (Option.any_eq_true _ _).mp h
  obtain ⟨p', hreach', hP⟩ := M.exists_reachable hok (P p) p ls' hlater
  exact ⟨p, p', reachable_of_run hok hrun, hreach', hP⟩

/-- **Invariants of the world and of single threads.**  `J` is about the world and `I` about a
    thread with the rest of its program.  If an action keeps `J`, leads the thread that
    performs it on and leaves the others alone, and the environment does the same with the
    thread that it starts, both hold in every reachable pool. -/
theorem Reachable.threads {M : Machine Act Res α σ C E} {G : Guard Act σ E} {J : σ → Prop}
    {I : σ → Nat → Prog Act Res α → Prop}
    (hexec : ∀ {τ a k c w r w'}, J w → I w τ (.act a k) → G.act w τ a →
      M.exec τ a c w = some (r, w') →
        J w' ∧ I w' τ (k r) ∧ ∀ τ' prog, τ' ≠ τ → I w τ' prog → I w' τ' prog)
    (henv : ∀ {n e w w' started}, J w → G.env w e → M.env n e w = some (w', started) →
      J w' ∧ (∀ prog, started = some prog → I w' n prog) ∧
        ∀ τ prog, τ < n → I w τ prog → I w' τ prog)
    {p₀ p : Pool Act Res α σ} (hJ : J p₀.world)
    (hI : ∀ τ prog, p₀.progs[τ]? = some prog → I p₀.world τ prog) (h : Reachable M G p₀ p) :
    J p.world ∧ ∀ τ prog, p.progs[τ]? = some prog → I p.world τ prog := by
  induction h with
  | start => exact ⟨hJ, hI⟩
  | step l _ hallow hstep ih =>
    obtain ⟨ihJ, ihI⟩ := ih
    rcases Machine.step_cases hstep with ⟨τ, c, a, k, r, rfl, hprog, hrun, hprogs⟩ |
      ⟨e, started, rfl, hrun, hprogs⟩
    · obtain ⟨hJ', hown, hothers⟩ := hexec ihJ (ihI τ _ hprog) (hallow a k hprog) hrun
      refine ⟨hJ', fun τ' prog hτ' => ?_⟩
      rw [hprogs] at hτ'
      rcases getElem?_set_prog hprog hτ' with ⟨rfl, rfl⟩ | ⟨hne, hold⟩
      · exact hown
      · exact hothers τ' prog hne (ihI τ' prog hold)
    · obtain ⟨hJ', hnew, hothers⟩ := henv ihJ hallow hrun
      refine ⟨hJ', fun τ prog hτ => ?_⟩
      rw [hprogs] at hτ
      rcases getElem?_append_started hτ with hold | ⟨rfl, rfl⟩
      · exact hothers τ prog (List.getElem?_eq_some_iff.mp hold).1 (ihI τ prog hold)
      · exact hnew prog rfl

end Machine

/-! ### Rely and guarantee -/

/-- What thread `τ` may rely on between its own actions (`Rel τ`), and what holds of any
    steps at all, its own included (`Mono`). -/
structure Rely {Act : Type} {Res : Act → Type} {α σ C E : Type}
    (M : Machine Act Res α σ C E) where
  Rel : Nat → σ → σ → Prop
  Mono : σ → σ → Prop
  refl : ∀ τ w, Rel τ w w
  trans : ∀ {τ w w' w''}, Rel τ w w' → Rel τ w' w'' → Rel τ w w''
  mono_refl : ∀ w, Mono w w
  mono_trans : ∀ {w w' w''}, Mono w w' → Mono w' w'' → Mono w w''
  mono_of_rel : ∀ {τ w w'}, Rel τ w w' → Mono w w'
  exec_rel : ∀ {τ τ' a c w r w'}, M.exec τ a c w = some (r, w') → τ' ≠ τ → Rel τ' w w'
  exec_mono : ∀ {τ a c w r w'}, M.exec τ a c w = some (r, w') → Mono w w'
  env_rel : ∀ {n e w w' started}, M.env n e w = some (w', started) → ∀ τ, Rel τ w w'

/-- An invariant of the world, and the preconditions under which actions keep it. -/
structure Protocol {Act : Type} {Res : Act → Type} {α σ C E : Type}
    (M : Machine Act Res α σ C E) (G : Guard Act σ E) where
  Inv : σ → Prop
  Pre : Nat → Act → σ → Prop
  exec_inv : ∀ {τ a c w r w'}, Inv w → G.act w τ a → Pre τ a w →
    M.exec τ a c w = some (r, w') → Inv w'
  env_inv : ∀ {n e w w' started}, Inv w → G.env w e → M.env n e w = some (w', started) → Inv w'

section Safe

variable {Act : Type} {Res : Act → Type} {α β γ σ C E : Type} {M : Machine Act Res γ σ C E}
  {G : Guard Act σ E}

/-- Thread `τ` with the program `p` left to run in world `w` performs every action under
    its precondition and ends with a result that satisfies `Q`, whatever others do. -/
def Safe (R : Rely M) (P : Protocol M G) (τ : Nat) (Q : α → σ → Prop) :
    Prog Act Res α → σ → Prop
  | .ret a, w => ∀ w', R.Rel τ w w' → P.Inv w' → Q a w'
  | .act a k, w => ∀ w', R.Rel τ w w' → P.Inv w' → G.act w' τ a →
      P.Pre τ a w' ∧ ∀ c r w'', M.exec τ a c w' = some (r, w'') → Safe R P τ Q (k r) w''

namespace Safe

variable {R : Rely M} {P : Protocol M G} {τ : Nat} {Q : α → σ → Prop}

/-- Steps of others keep a thread safe. -/
theorem of_rel {p : Prog Act Res α} {w w' : σ} (h : Safe R P τ Q p w) (hR : R.Rel τ w w') :
    Safe R P τ Q p w' := by
  cases p with
  | ret a => exact fun w'' hR' hI => h w'' (R.trans hR hR') hI
  | act a k => exact fun w'' hR' hI hG => h w'' (R.trans hR hR') hI hG

theorem ret {a : α} {w : σ} (h : ∀ w', R.Rel τ w w' → P.Inv w' → Q a w') :
    Safe R P τ Q (pure a) w := h

/-- **One action.** In a world that others have led to, its precondition holds, and the
    rest of the program is safe wherever it leads. -/
theorem perform {a : Act} {f : Res a → Prog Act Res α} {w : σ}
    (h : ∀ w', R.Rel τ w w' → P.Inv w' → G.act w' τ a → P.Pre τ a w' ∧
      ∀ c r w'', M.exec τ a c w' = some (r, w'') → P.Inv w'' → Safe R P τ Q (f r) w'') :
    Safe R P τ Q (Prog.perform a >>= f) w := by
  intro w' hR hI hG
  obtain ⟨hpre, hnext⟩ := h w' hR hI hG
  exact ⟨hpre, fun c r w'' hexec =>
    hnext c r w'' hexec (P.exec_inv hI hG hpre hexec)⟩

/-- **Sequence.** -/
theorem bind {Q' : β → σ → Prop} {p : Prog Act Res α} {f : α → Prog Act Res β} {w : σ}
    (hI : P.Inv w) (hp : Safe R P τ Q p w)
    (hf : ∀ a w', R.Mono w w' → P.Inv w' → Q a w' → Safe R P τ Q' (f a) w') :
    Safe R P τ Q' (p >>= f) w := by
  induction p generalizing w with
  | ret a => exact hf a w (R.mono_refl w) hI (hp w (R.refl τ w) hI)
  | act a k ih =>
    intro w' hR hI' hG
    obtain ⟨hpre, hnext⟩ := hp w' hR hI' hG
    refine ⟨hpre, fun c r w'' hexec => ?_⟩
    refine ih r (P.exec_inv hI' hG hpre hexec) (hnext c r w'' hexec) ?_
    intro b w₃ hmono
    exact hf b w₃ (R.mono_trans (R.mono_of_rel hR) (R.mono_trans (R.exec_mono hexec) hmono))

/-- **Consequence.** -/
theorem mono {Q' : α → σ → Prop} {p : Prog Act Res α} {w : σ} (hp : Safe R P τ Q p w)
    (hQ : ∀ a w', R.Mono w w' → P.Inv w' → Q a w' → Q' a w') : Safe R P τ Q' p w := by
  induction p generalizing w with
  | ret a => exact fun w' hR hI => hQ a w' (R.mono_of_rel hR) hI (hp w' hR hI)
  | act a k ih =>
    intro w' hR hI hG
    obtain ⟨hpre, hnext⟩ := hp w' hR hI hG
    refine ⟨hpre, fun c r w'' hexec => ih r (hnext c r w'' hexec) ?_⟩
    intro b w₃ hmono
    exact hQ b w₃ (R.mono_trans (R.mono_of_rel hR) (R.mono_trans (R.exec_mono hexec) hmono))

/-- A program is safe when all of its actions may be performed from here on. -/
theorem of_allActs {A : Act → Prop} {p : Prog Act Res α} {w : σ} (hp : p.AllActs A)
    (hA : ∀ a w', R.Mono w w' → A a → P.Inv w' → G.act w' τ a → P.Pre τ a w') :
    Safe R P τ (fun _ _ => True) p w := by
  induction p generalizing w with
  | ret a => exact fun _ _ _ => trivial
  | act a k ih =>
    intro w' hR hI hG
    refine ⟨hA a w' (R.mono_of_rel hR) hp.1 hI hG, fun c r w'' hexec => ih r (hp.2 r) ?_⟩
    intro a' w₃ hmono
    exact hA a' w₃ (R.mono_trans (R.mono_of_rel hR) (R.mono_trans (R.exec_mono hexec) hmono))

end Safe

/-! ### Extending a protocol -/

/-- The steps that meet the preconditions of a protocol. -/
def Protocol.above (P : Protocol M G) : Guard Act σ E where
  act w τ a := G.act w τ a ∧ P.Pre τ a w
  env := G.env

/-- A protocol with further preconditions, which keep a stronger invariant where those of
    `P` are met. -/
def Protocol.extend (P : Protocol M G) (X : Protocol M P.above) : Protocol M G where
  Inv := X.Inv
  Pre τ a w := P.Pre τ a w ∧ X.Pre τ a w
  exec_inv := fun hI hG hpre h => X.exec_inv hI ⟨hG, hpre.1⟩ hpre.2 h
  env_inv := fun hI hG h => X.env_inv hI hG h

/-- **Extension.**  What a program owes to `P` has been shown; what is left is what it owes
    to the extension. -/
theorem Safe.extend {R : Rely M} {P : Protocol M G} {X : Protocol M P.above} {τ : Nat}
    {Q Q' : α → σ → Prop} (hX : ∀ w, X.Inv w → P.Inv w) {p : Prog Act Res α} {w : σ}
    (h : Safe R P τ Q p w) (h' : Safe R X τ Q' p w) :
    Safe R (P.extend X) τ (fun a w => Q a w ∧ Q' a w) p w := by
  induction p generalizing w with
  | ret a => exact fun w' hR hI => ⟨h w' hR (hX w' hI), h' w' hR hI⟩
  | act a k ih =>
    intro w' hR hI hG
    obtain ⟨hpre, hnext⟩ := h w' hR (hX w' hI) hG
    obtain ⟨hpre', hnext'⟩ := h' w' hR hI ⟨hG, hpre⟩
    exact ⟨⟨hpre, hpre'⟩, fun c r w'' hexec => ih r (hnext c r w'' hexec) (hnext' c r w'' hexec)⟩

/-- Every thread of the pool is safe with its own postcondition. -/
def AllSafe (R : Rely M) (P : Protocol M G) (Q : Nat → γ → σ → Prop)
    (p : Pool Act Res γ σ) : Prop :=
  ∀ τ prog, p.progs[τ]? = some prog → Safe R P τ (Q τ) prog p.world

/-- What a finished thread has returned satisfies its postcondition. -/
theorem AllSafe.result {R : Rely M} {P : Protocol M G} {Q : Nat → γ → σ → Prop}
    {p : Pool Act Res γ σ} (hS : AllSafe R P Q p) (hI : P.Inv p.world) {τ : Nat} {a : γ}
    (h : p.progs[τ]? = some (.ret a)) : Q τ a p.world :=
  hS τ _ h p.world (R.refl τ _) hI

/-- **Soundness.** In every pool that a run reaches the protocol's invariant holds and
    every thread is safe; so does any property of the world that the steps keep which meet
    the invariant and the preconditions.  No program has to be looked at again for it, and
    the runs may be those of a narrower guard. -/
theorem Protocol.invariant (R : Rely M) (P : Protocol M G) {Q : Nat → γ → σ → Prop}
    (hstart : ∀ {n e w w' prog}, P.Inv w → G.env w e → M.env n e w = some (w', some prog) →
      Safe R P n (Q n) prog w')
    {G' : Guard Act σ E} (hG : G'.Refines G) {J : σ → Prop}
    (hexec : ∀ {τ a c w r w'}, P.Inv w → J w → G'.act w τ a → P.Pre τ a w →
      M.exec τ a c w = some (r, w') → J w')
    (henv : ∀ {n e w w' started}, P.Inv w → J w → G'.env w e →
      M.env n e w = some (w', started) → J w')
    {p₀ p : Pool Act Res γ σ} (hI : P.Inv p₀.world) (hS : AllSafe R P Q p₀) (hJ : J p₀.world)
    (h : Reachable M G' p₀ p) : P.Inv p.world ∧ AllSafe R P Q p ∧ J p.world := by
  -- on the run; safety of the threads carries the preconditions from step to step
  induction h with
  | start => exact ⟨hI, hS, hJ⟩
  | step l _ hallow hstep ih =>
    obtain ⟨ihI, ihS, ihJ⟩ := ih
    rcases Machine.step_cases hstep with ⟨τ, c, a, k, r, rfl, hprog, hrun, hprogs⟩ |
      ⟨e, started, rfl, hrun, hprogs⟩
    · -- a thread moves: its own program advances, the others rely on what it does
      have hGa := hallow a k hprog
      obtain ⟨hpre, hnext⟩ := ihS τ _ hprog _ (R.refl τ _) ihI (hG.act hGa)
      refine ⟨P.exec_inv ihI (hG.act hGa) hpre hrun, ?_, hexec ihI ihJ hGa hpre hrun⟩
      intro τ' prog hτ'
      rw [hprogs] at hτ'
      rcases getElem?_set_prog hprog hτ' with ⟨rfl, rfl⟩ | ⟨hne, hold⟩
      · exact hnext c r _ hrun
      · exact (ihS τ' prog hold).of_rel (R.exec_rel hrun hne)
    · -- the environment moves, and may start a thread
      refine ⟨P.env_inv ihI (hG.env hallow) hrun, ?_, henv ihI ihJ hallow hrun⟩
      intro τ prog hτ
      rw [hprogs] at hτ
      rcases getElem?_append_started hτ with hold | ⟨rfl, rfl⟩
      · exact (ihS τ prog hold).of_rel (R.env_rel hrun τ)
      · exact hstart ihI (hG.env hallow) hrun

end Safe

/-! ### Running to the end -/

/-- **Getting there.** A thread whose actions are all possible can run on by itself, to its end
    or to an action that it is to stop at. -/
theorem Machine.exists_until {Act : Type} {Res : Act → Type} {α σ C E : Type}
    {M : Machine Act Res α σ C E} {G : Guard Act σ E} {τ : Nat} {A stop : Act → Prop}
    {P : σ → Prop}
    (hA : ∀ {a w}, A a → ¬ stop a → P w →
      G.act w τ a ∧ ∃ c r w', M.exec τ a c w = some (r, w') ∧ P w')
    {p : Pool Act Res α σ} {prog : Prog Act Res α} (hprog : p.progs[τ]? = some prog)
    (hacts : prog.AllActs A) (hP : P p.world) :
    ∃ p' prog', Reachable M G p p' ∧ p'.progs[τ]? = some prog' ∧ ∀ a ∈ prog'.next?, stop a := by
  -- on the program: each round performs its next action
  induction prog generalizing p with
  | ret b => exact ⟨p, .ret b, .start, hprog, fun a ha => absurd ha (by simp [Prog.next?])⟩
  | act a k ih =>
    by_cases hstop : stop a
    · refine ⟨p, .act a k, .start, hprog, fun a' ha' => ?_⟩
      obtain rfl : a = a' := Option.some.inj ha'
      exact hstop
    obtain ⟨hG, c, r, w', hexec, hP'⟩ := hA hacts.1 hstop hP
    obtain ⟨p', prog', hreach, hrest⟩ := @ih r ⟨w', p.progs.set τ (k r)⟩
      (List.getElem?_set_self (List.getElem?_eq_some_iff.mp hprog).1) (hacts.2 r) hP'
    exact ⟨p', prog', (Reachable.run hprog hG hexec).trans hreach, hrest⟩

end Interleave
