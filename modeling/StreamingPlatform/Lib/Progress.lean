import StreamingPlatform.Lib.Interleave

namespace Interleave

/-!
# Progress of interleaved programs

What is needed to say that a pool can come to a good end.  `Machine.restrict` keeps the steps
that one is willing to rely on; `Guard.sparing` keeps those that leave a set of threads where
they are, so that pieces of a run that let some threads go on can be put together without
disturbing those that wait for them (`Reachable.spared`, `Reachable.keep_of_spared`).
`Prog.Must` says of a program that it does not end before it has performed an action of some
kind.
-/

section Must

variable {Act : Type} {Res : Act → Type} {α β : Type}

/-- Whatever its actions return, the program does not end before one of them satisfies `P`. -/
def Prog.Must (P : Act → Prop) : Prog Act Res α → Prop
  | .ret _ => False
  | .act a k => P a ∨ ∀ r, Must P (k r)

theorem Prog.Must.bind {P : Act → Prop} (p : Prog Act Res α) {f : α → Prog Act Res β}
    (h : ∀ a, (f a).Must P) : (p >>= f).Must P := by
  induction p with
  | ret a => exact h a
  | act a k ih => exact .inr ih

end Must

section Restrict

variable {Act : Type} {Res : Act → Type} {α σ C E : Type} {M : Machine Act Res α σ C E}

/-- The machine with those steps only that pass the checks. -/
def Machine.restrict (M : Machine Act Res α σ C E) (exec : σ → Act → C → Bool)
    (env : σ → E → Bool) : Machine Act Res α σ C E where
  exec τ a c w := if exec w a c = true then M.exec τ a c w else none
  env n e w := if env w e = true then M.env n e w else none

theorem Machine.restrict_exec_of {exec : σ → Act → C → Bool} {env : σ → E → Bool} {τ : Nat}
    {a : Act} {c : C} {w : σ} (hok : exec w a c = true) :
    (M.restrict exec env).exec τ a c w = M.exec τ a c w :=
  if_pos hok

theorem Machine.restrict_env_of {exec : σ → Act → C → Bool} {env : σ → E → Bool} {n : Nat} {e : E}
    {w : σ} (hok : env w e = true) : (M.restrict exec env).env n e w = M.env n e w :=
  if_pos hok

theorem Machine.restrict_exec {exec : σ → Act → C → Bool} {env : σ → E → Bool} {τ : Nat} {a : Act}
    {c : C} {w : σ} {r : Res a × σ} (h : (M.restrict exec env).exec τ a c w = some r) :
    exec w a c = true ∧ M.exec τ a c w = some r := by
  simp only [Machine.restrict] at h
  split at h
  · next hok => exact ⟨hok, h⟩
  · cases h

theorem Machine.restrict_env {exec : σ → Act → C → Bool} {env : σ → E → Bool} {n : Nat} {e : E}
    {w : σ} {r : σ × Option (Prog Act Res α)} (h : (M.restrict exec env).env n e w = some r) :
    env w e = true ∧ M.env n e w = some r := by
  simp only [Machine.restrict] at h
  split at h
  · next hok => exact ⟨hok, h⟩
  · cases h

/-- Checks that everything passes restrict nothing. -/
theorem Machine.restrict_true : M.restrict (fun _ _ _ => true) (fun _ _ => true) = M := rfl

/-- A run of the restricted machine is one of the machine. -/
theorem Reachable.of_restrict {exec : σ → Act → C → Bool} {env : σ → E → Bool}
    {G : Guard Act σ E} {p p' : Pool Act Res α σ} (h : Reachable (M.restrict exec env) G p p') :
    Reachable M G p p' := by
  induction h with
  | start => exact .start
  | @step q q' l _ hallow hstep ih =>
    refine ih.trans ?_
    obtain ⟨w', progs'⟩ := q'
    rcases Machine.step_cases hstep with ⟨τ, c, a, k, r, rfl, hprog, hrun, rfl⟩ |
      ⟨e, started, rfl, hrun, rfl⟩
    · exact Reachable.run hprog (hallow a k hprog) (Machine.restrict_exec hrun).2
    · exact Reachable.env hallow (Machine.restrict_env hrun).2

/-- What threads rely on, they rely on when there are fewer steps. -/
def Rely.restrict (R : Rely M) (exec : σ → Act → C → Bool) (env : σ → E → Bool) :
    Rely (M.restrict exec env) where
  Rel := R.Rel
  Mono := R.Mono
  refl := R.refl
  trans := R.trans
  mono_refl := R.mono_refl
  mono_trans := R.mono_trans
  mono_of_rel := R.mono_of_rel
  exec_rel := fun h hne => R.exec_rel (Machine.restrict_exec h).2 hne
  exec_mono := fun h => R.exec_mono (Machine.restrict_exec h).2
  env_rel := fun h => R.env_rel (Machine.restrict_env h).2

/-- A schedule that passes the check leads somewhere, and what is seen to be true there is. -/
theorem Machine.exists_of_run (M : Machine Act Res α σ C E) {G : Guard Act σ E}
    {ok : Pool Act Res α σ → Label C E → Bool} (hok : ∀ p l, ok p l = true → G.Allows p l)
    (P : Pool Act Res α σ → Prop) [DecidablePred P] {p : Pool Act Res α σ} {ls : List (Label C E)}
    (h : (M.run ok p ls).any (fun p' => decide (P p')) = true) :
    ∃ p', Reachable M G p p' ∧ P p' := by
  cases hrun : M.run ok p ls with
  | none =>
    rw [hrun] at h
    cases h
  | some p' =>
    rw [hrun] at h
    exact ⟨p', Machine.reachable_of_run hok hrun, of_decide_eq_true h⟩

end Restrict

section Sparing

variable {Act : Type} {Res : Act → Type} {α σ C E : Type} {M : Machine Act Res α σ C E}
  {B B' : Nat → Prop} {p p' : Pool Act Res α σ}

/-- The threads of `B` do not move. -/
def Guard.sparing (B : Nat → Prop) : Guard Act σ E where
  act _ τ _ := ¬ B τ
  env _ _ := True

/-- Sparing more threads spares these. -/
theorem Reachable.spare_less (h : Reachable M (Guard.sparing B') p p') (hB : ∀ τ, B τ → B' τ) :
    Reachable M (Guard.sparing B) p p' := by
  refine h.restrict (fun q l _ hallow => ?_)
  cases l with
  | run τ c => exact fun a k hprog hτ => hallow a k hprog (hB τ hτ)
  | env e => exact trivial

/-- A step of the others leaves the program of a thread alone. -/
theorem Reachable.spared (h : Reachable M (Guard.sparing B) p p') {τ : Nat} (hτ : B τ)
    {prog : Prog Act Res α} (hprog : p.progs[τ]? = some prog) : p'.progs[τ]? = some prog := by
  induction h with
  | start => exact hprog
  | step l _ hallow hstep ih =>
    rcases Machine.step_cases hstep with ⟨τ', c, a, k, r, rfl, hprog', -, hprogs⟩ |
      ⟨e, started, rfl, -, hprogs⟩
    · have hne : τ' ≠ τ := fun heq => hallow a k hprog' (heq ▸ hτ)
      rw [hprogs, List.getElem?_set_ne hne]
      exact ih
    · rw [hprogs, List.getElem?_append_left (List.getElem?_eq_some_iff.mp ih).1]
      exact ih

/-- What the steps of others keep holds after a run that spares a thread. -/
theorem Reachable.keep_of_spared {P : σ → Prop} {τ : Nat} (hτ : B τ)
    (hexec : ∀ {τ' a c w r w'}, P w → τ' ≠ τ → M.exec τ' a c w = some (r, w') → P w')
    (henv : ∀ {n e w w' started}, P w → M.env n e w = some (w', started) → P w')
    (h : Reachable M (Guard.sparing B) p p') (hP : P p.world) : P p'.world := by
  induction h with
  | start => exact hP
  | step l _ hallow hstep ih =>
    rcases Machine.step_cases hstep with ⟨τ', c, a, k, r, rfl, hprog, hrun, -⟩ |
      ⟨e, started, rfl, hrun, -⟩
    · have hne : τ' ≠ τ := fun heq => hallow a k hprog (heq ▸ hτ)
      exact hexec ih hne hrun
    · exact henv ih hrun

/-- What every step keeps holds after a run. -/
theorem Reachable.keep {G : Guard Act σ E} {P : σ → Prop}
    (hexec : ∀ {τ a c w r w'}, P w → M.exec τ a c w = some (r, w') → P w')
    (henv : ∀ {n e w w' started}, P w → M.env n e w = some (w', started) → P w')
    (h : Reachable M G p p') (hP : P p.world) : P p'.world := by
  induction h with
  | start => exact hP
  | step l _ _ hstep ih =>
    rcases Machine.step_cases hstep with ⟨τ, c, a, k, r, -, -, hrun, -⟩ | ⟨e, started, -, hrun, -⟩
    · exact hexec ih hrun
    · exact henv ih hrun

/-- Who has finished stays so. -/
theorem Reachable.keep_ret {G : Guard Act σ E} (h : Reachable M G p p') {τ : Nat} {b : α}
    (hret : p.progs[τ]? = some (.ret b)) : p'.progs[τ]? = some (.ret b) := by
  induction h with
  | start => exact hret
  | step l _ _ hstep ih =>
    rcases Machine.step_cases hstep with ⟨τ', c, a, k, r, -, hprog, -, hprogs⟩ |
      ⟨e, started, -, -, hprogs⟩
    · have hne : τ' ≠ τ := by
        rintro rfl
        rw [ih, Option.some.injEq] at hprog
        cases hprog
      rw [hprogs, List.getElem?_set_ne hne]
      exact ih
    · rw [hprogs, List.getElem?_append_left (List.getElem?_eq_some_iff.mp ih).1]
      exact ih

end Sparing

end Interleave
