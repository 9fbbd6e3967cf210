import StreamingPlatform.Lib.Interleave
import Mathlib.Logic.Function.Basic

namespace Interleave

/-!
# Monitors

A monitor watches a single thread: it has a state of its own, which the thread's actions
and their results move on, and says which action is in order in which state.  `Follows`
says of a program that all its actions are in order, whatever they return and whatever
other threads do: unlike `Safe` it does not look at the world at all.  What the monitors of
all threads know together with the world is then an invariant of the machine
(`Monitor.invariant`).
-/

/-- A monitor with states `S`. -/
structure Monitor (Act : Type) (Res : Act → Type) (S : Type) where
  ok : S → Act → Prop
  next : S → (a : Act) → Res a → S

section Follows

variable {Act : Type} {Res : Act → Type} {α β S : Type} (m : Monitor Act Res S)

/-- Watched from state `s` on, every action of the program is in order, and it ends in a
    state and with a result that satisfy `Q`. -/
def Follows (Q : α → S → Prop) : Prog Act Res α → S → Prop
  | .ret a, s => Q a s
  | .act a k, s => m.ok s a ∧ ∀ r, Follows Q (k r) (m.next s a r)

variable {m}

namespace Follows

variable {Q : α → S → Prop} {s : S}

theorem ret {a : α} (h : Q a s) : Follows m Q (pure a) s := h

theorem perform {a : Act} {Q : Res a → S → Prop} (hok : m.ok s a)
    (h : ∀ r, Q r (m.next s a r)) : Follows m Q (Prog.perform a) s :=
  ⟨hok, h⟩

/-- An action and what follows it. -/
theorem act {a : Act} {f : Res a → Prog Act Res α} (hok : m.ok s a)
    (h : ∀ r, Follows m Q (f r) (m.next s a r)) : Follows m Q (Prog.perform a >>= f) s :=
  ⟨hok, h⟩

/-- **Sequence.** -/
theorem bind {Q' : β → S → Prop} {p : Prog Act Res α} {f : α → Prog Act Res β}
    (hp : Follows m Q p s) (hf : ∀ a s', Q a s' → Follows m Q' (f a) s') :
    Follows m Q' (p >>= f) s := by
  induction p generalizing s with
  | ret a => exact hf a s hp
  | act a k ih => exact ⟨hp.1, fun r => ih r (hp.2 r)⟩

/-- **Consequence.** -/
theorem mono {Q' : α → S → Prop} {p : Prog Act Res α} (hp : Follows m Q p s)
    (hQ : ∀ a s', Q a s' → Q' a s') : Follows m Q' p s := by
  induction p generalizing s with
  | ret a => exact hQ a s hp
  | act a k ih => exact ⟨hp.1, fun r => ih r (hp.2 r)⟩

/-- Actions that are in order wherever `P` holds, and that keep it. -/
theorem of_allActs {A : Act → Prop} {P : S → Prop} (hok : ∀ {s a}, P s → A a → m.ok s a)
    (hnext : ∀ {s a} (r : Res a), P s → A a → P (m.next s a r)) {p : Prog Act Res α}
    (hp : p.AllActs A) (hs : P s) : Follows m (fun _ s' => P s') p s := by
  induction p generalizing s with
  | ret a => exact hs
  | act a k ih => exact ⟨hok hs hp.1, fun r => ih r (hp.2 r) (hnext r hs hp.1)⟩

/-- **A loop** whose rounds keep `P`. -/
theorem forM {ι : Type} {P : S → Prop} {l : List ι} {f : ι → Prog Act Res PUnit}
    (h : ∀ i ∈ l, ∀ s, P s → Follows m (fun _ s' => P s') (f i) s) (hs : P s) :
    Follows m (fun _ s' => P s') (l.forM f) s := by
  induction l generalizing s with
  | nil => exact hs
  | cons i l ih =>
    refine bind (h i List.mem_cons_self s hs) (fun _ s' hs' => ?_)
    exact ih (fun j hj => h j (List.mem_cons_of_mem _ hj)) hs'

end Follows

end Follows

section Invariant

variable {Act : Type} {Res : Act → Type} {γ σ C E S : Type} {M : Machine Act Res γ σ C E}
  {G : Guard Act σ E}

/-- **Soundness.**  Every thread has a monitor, `idle` until the thread is started.  If `J`
    relates world and monitors and is kept by actions that are in order, and the
    environment keeps it and leaves a thread that it starts with a monitor that its program
    follows, then in every reachable pool `J` holds and every thread follows its
    monitor. -/
theorem Monitor.invariant_from (m : Monitor Act Res S) (idle : S) {Q : γ → S → Prop}
    {J : σ → (Nat → S) → Prop}
    (hexec : ∀ {τ a c w g r w'}, J w g → G.act w τ a → m.ok (g τ) a →
      M.exec τ a c w = some (r, w') → J w' (Function.update g τ (m.next (g τ) a r)))
    (henv : ∀ {n e w g w' started}, J w g → G.env w e → g n = idle →
      M.env n e w = some (w', started) → ∃ s, J w' (Function.update g n s) ∧
        (started = none → s = idle) ∧ ∀ prog, started = some prog → Follows m Q prog s)
    {p₀ p : Pool Act Res γ σ} (hp₀ : p₀.progs = []) (hJ : J p₀.world (fun _ => idle))
    (h : Reachable M G p₀ p) :
    ∃ g, J p.world g ∧ ∀ τ prog, p.progs[τ]? = some prog → Follows m Q prog (g τ) := by
  -- a monitor that has nothing to watch yet is idle
  suffices hall : ∃ g, J p.world g ∧ (∀ τ, p.progs.length ≤ τ → g τ = idle) ∧
      ∀ τ prog, p.progs[τ]? = some prog → Follows m Q prog (g τ) by
    obtain ⟨g, hg, -, hfollows⟩ := hall
    exact ⟨g, hg, hfollows⟩
  induction h with
  | start =>
    refine ⟨fun _ => idle, hJ, fun _ _ => rfl, fun τ prog hτ => ?_⟩
    rw [hp₀] at hτ
    exact absurd hτ (by simp)
  | @step p _ l _ hallow hstep ih =>
    obtain ⟨g, hg, hfresh, hfollows⟩ := ih
    rcases Machine.step_cases hstep with ⟨τ, c, a, k, r, rfl, hprog, hrun, hprogs⟩ |
      ⟨e, started, rfl, hrun, hprogs⟩
    · obtain ⟨hok, hnext⟩ := hfollows τ _ hprog
      have hτ := (List.getElem?_eq_some_iff.mp hprog).1
      refine ⟨_, hexec hg (hallow a k hprog) hok hrun, fun τ' hτ' => ?_, fun τ' prog hp' => ?_⟩
      · rw [hprogs, List.length_set] at hτ'
        rw [Function.update_of_ne (by omega)]
        exact hfresh τ' hτ'
      · rw [hprogs] at hp'
        rcases getElem?_set_prog hprog hp' with ⟨rfl, rfl⟩ | ⟨hne, hold⟩
        · rw [Function.update_self]
          exact hnext r
        · rw [Function.update_of_ne hne]
          exact hfollows τ' prog hold
    · obtain ⟨s, hJ', hidle, hstarted⟩ := henv hg hallow (hfresh _ (Nat.le_refl _)) hrun
      refine ⟨_, hJ', fun τ hτ => ?_, fun τ prog hp' => ?_⟩
      · rw [hprogs, List.length_append] at hτ
        rw [Function.update_apply]
        split
        · -- the thread was not started after all
          next heq =>
          apply hidle
          cases started with
          | none => rfl
          | some prog =>
            rw [Option.toList_some, List.length_singleton] at hτ
            omega
        · exact hfresh τ (by omega)
      · rw [hprogs] at hp'
        rcases getElem?_append_started hp' with hold | ⟨rfl, rfl⟩
        · rw [Function.update_of_ne (Nat.ne_of_lt (List.getElem?_eq_some_iff.mp hold).1)]
          exact hfollows τ prog hold
        · rw [Function.update_self]
          exact hstarted prog rfl

/-- The same where all programs that are started follow the monitor from `init` on. -/
theorem Monitor.invariant (m : Monitor Act Res S) (init : S) {Q : γ → S → Prop}
    {J : σ → (Nat → S) → Prop}
    (hstart : ∀ {n e w w' prog}, M.env n e w = some (w', some prog) → Follows m Q prog init)
    (hexec : ∀ {τ a c w g r w'}, J w g → G.act w τ a → m.ok (g τ) a →
      M.exec τ a c w = some (r, w') → J w' (Function.update g τ (m.next (g τ) a r)))
    (henv : ∀ {n e w g w' started}, J w g → G.env w e → g n = init →
      M.env n e w = some (w', started) → J w' g)
    {p₀ p : Pool Act Res γ σ} (hp₀ : p₀.progs = []) (hJ : J p₀.world (fun _ => init))
    (h : Reachable M G p₀ p) :
    ∃ g, J p.world g ∧ ∀ τ prog, p.progs[τ]? = some prog → Follows m Q prog (g τ) := by
  refine m.invariant_from init hexec (fun {n e w g w' started} hg hG hinit hrun => ?_) hp₀ hJ h
  refine ⟨init, ?_, fun _ => rfl, ?_⟩
  · rw [← hinit, Function.update_eq_self]
    exact henv hg hG hinit hrun
  · rintro prog rfl
    exact hstart hrun

end Invariant

end Interleave
