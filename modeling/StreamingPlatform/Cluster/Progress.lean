import StreamingPlatform.Cluster.Leadership
import StreamingPlatform.Cluster.Smooth

namespace StreamingPlatform

open ByteString Interleave World

/-!
# Cluster — requests come to an end

No deadlock.  In a state that any run has reached let no heartbeat round be under way at a live
broker, and let the live followers not refer each other to one another for ever (`Circling`).
Then smooth steps answer every request that is being served at a live broker, unless they fill a
log (`requests_finish`).  What becomes of requests where they do is the subject of
`Cluster/Circular`.

A thread waits for its broker's mutex, for the answer to a prompt request, or for a forwarded
request.  The first two are dealt with in `Cluster/Smooth`.  A request that was forwarded before
is being served by a younger thread, or is taken up by a new one; whoever serves it and
forwards it again does so to a broker of lower rank.  So the induction is on the age of threads
that are there already (`finish_old`) and on the rank of brokers for new ones
(`answered_of_rank`); within a thread it is on what the thread has left to do (`finish`).

A connection is taken up by a new thread here, whatever the others do: the brokers are given
workers enough.  What a limit on their number comes to is the subject of `Cluster/WorkerLimit`.
-/

/-! ### Whom a broker refers to -/

variable {n : Int} {τ : Nat} {a : Act} {c : Choice} {w' : World}
  {k : a.Result → Program (Option Response)} {r : a.Result}

namespace World

/-- The live broker that a live follower forwards requests to. -/
def refersTo (w : World) (n : Int) : Option Int :=
  if (w.nodes n).alive = true ∧ (w.nodes n).isLeader = false then
    (((w.nodes n).config.getLeaderEndpoint (w.nodes n).leaderBrokerId).map
      LeaderEndpoint.brokerId).filter (fun d => (w.nodes d).alive)
  else none

/-- Where a request gets from broker `n` when it is forwarded `k` times. -/
def hops (w : World) (n : Int) : Nat → Option Int
  | 0 => some n
  | k + 1 => (hops w n k).bind w.refersTo

/-- It is forwarded for ever. -/
def Circling (w : World) (n : Int) : Prop := ∀ k, w.hops n k ≠ none

variable {w : World}

theorem refersTo_eq_some {d : Int} : w.refersTo n = some d ↔
    ((w.nodes n).alive = true ∧ (w.nodes n).isLeader = false) ∧ (w.nodes d).alive = true ∧
      ∃ e, (w.nodes n).config.getLeaderEndpoint (w.nodes n).leaderBrokerId = some e ∧
        e.brokerId = d := by
  unfold refersTo
  rw [Option.ite_none_right_eq_some, Option.filter_eq_some_iff, Option.map_eq_some_iff]
  exact and_congr_right (fun _ => and_comm)

theorem hops_succ {d : Int} (h : w.refersTo n = some d) (k : Nat) :
    w.hops n (k + 1) = w.hops d k := by
  induction k with
  | zero => exact h
  | succ k ih =>
    rw [hops, ih]
    rfl

/-- Whoever is referred to by a broker that circles circles too. -/
theorem Circling.next (h : w.Circling n) : ∃ d, w.refersTo n = some d ∧ w.Circling d := by
  obtain ⟨d, hd⟩ := Option.ne_none_iff_exists'.mp (h 1)
  exact ⟨d, hd, fun k hk => h (k + 1) ((hops_succ hd k).trans hk)⟩

end World

/-- Live followers refer to brokers of lower rank only. -/
def Ranked (rank : Int → Nat) (w : World) : Prop :=
  ∀ n d, w.refersTo n = some d → rank d < rank n

/-- Where nobody circles, the number of hops that are left ranks the brokers. -/
theorem exists_ranked {w : World} (h : ∀ n, ¬ w.Circling n) : ∃ rank, Ranked rank w := by
  classical
  have hends : ∀ n, ∃ k, w.hops n k = none := by
    intro n
    have hn := h n
    unfold Circling at hn
    push Not at hn
    exact hn
  refine ⟨fun n => Nat.find (hends n), fun n d hd => ?_⟩
  have hne : Nat.find (hends n) ≠ 0 := by
    intro hzero
    have hspec := Nat.find_spec (hends n)
    rw [hzero] at hspec
    cases hspec
  obtain ⟨k, hk⟩ := Nat.exists_eq_succ_of_ne_zero hne
  have hspec := Nat.find_spec (hends n)
  rw [hk, Nat.succ_eq_add_one, hops_succ hd] at hspec
  have hle := Nat.find_min' (hends d) hspec
  show Nat.find (hends d) < Nat.find (hends n)
  omega

/-- Brokers that are ranked do not circle. -/
theorem Ranked.not_circling {rank : Int → Nat} {w : World} (h : Ranked rank w) (n : Int) :
    ¬ w.Circling n := by
  induction hrank : rank n using Nat.strong_induction_on generalizing n with
  | _ r ih =>
    intro hcircling
    obtain ⟨d, hd, hnext⟩ := hcircling.next
    exact ih (rank d) (hrank ▸ h n d hd) d rfl hnext

/-! ### Calm -/

/-- No heartbeat round of a live broker is under way. -/
def Quiet (p : ClusterPool) : Prop :=
  ∀ (τ : Nat) (n : Int), p.world.tasks[τ]? = some ⟨n, .heartbeat⟩ →
    (p.world.nodes n).alive = true → ∃ b, p.progs[τ]? = some (.ret b)

/-- A state that has been reached, with no heartbeat round under way and ranked brokers. -/
structure Calm (setup : Setup) (rank : Int → Nat) (p : ClusterPool) : Prop where
  reached : Reachable clusterMachine anyStep setup.pool p
  quiet : Quiet p
  ranked : Ranked rank p.world

/-- Nobody begins a heartbeat round. -/
theorem Quiet.onward {B : Nat → Prop} {p p' : ClusterPool} (hp : Quiet p) (h : Onward B p p') :
    Quiet p' := by
  intro τ n htask halive
  have hold : p.world.tasks[τ]? = some ⟨n, .heartbeat⟩ := by
    refine Reachable.keep (P := fun w => w.tasks[τ]? = some ⟨n, .heartbeat⟩ →
      p.world.tasks[τ]? = some ⟨n, .heartbeat⟩) ?_ ?_ h id htask
    · intro τ' a c w r w' hw hexec ht
      rw [(World.exec_history (Machine.restrict_exec hexec).2).2] at ht
      exact hw ht
    · intro k e w w' started hw henv ht
      obtain ⟨htakes, henv⟩ := Machine.restrict_env henv
      rcases World.env_task henv ht with hold | ⟨-, -, hstarts, -⟩
      · exact hw hold
      · cases hstarts
        cases htakes
  rw [h.alive] at halive
  obtain ⟨b, hret⟩ := hp τ n hold halive
  exact ⟨b, Reachable.keep_ret h hret⟩

/-- Nobody holds an election. -/
theorem Quiet.no_election {setup : Setup} {p : ClusterPool} (hp : Quiet p)
    (h : Reachable clusterMachine anyStep setup.pool p) (hprog : p.progs[τ]? = some (.act a k))
    (hexec : World.exec τ a c p.world = some (r, w')) : a ≠ .node .maybeElectLeader := by
  rintro rfl
  obtain ⟨g, hL, hfollows⟩ := locks_invariant h
  obtain ⟨⟨n, source⟩, htask, rfl⟩ := hL.elects τ (hfollows τ _ hprog).1
  obtain ⟨b, hret⟩ := hp τ n htask (World.alive_of_exec hexec htask)
  rw [hprog, Option.some.injEq] at hret
  cases hret

/-- Roles and pointers stay as they are. -/
theorem Quiet.role {B : Nat → Prop} {setup : Setup} {p p' : ClusterPool} (hp : Quiet p)
    (hreach : Reachable clusterMachine anyStep setup.pool p) (h : Onward B p p') (n : Int) :
    (p.world.nodes n).SameRole (p'.world.nodes n) := by
  induction h with
  | start => exact ⟨rfl, rfl⟩
  | @step q q' l hto _ hstep ih =>
    have hto : Onward B p q := hto
    rcases Machine.step_cases hstep with ⟨τ, c, a, k, r, rfl, hprog, hexec, -⟩ |
      ⟨e, started, rfl, henv, -⟩
    · have hexec := (Machine.restrict_exec hexec).2
      have hne := (hp.onward hto).no_election (hto.reachable hreach) hprog hexec
      rcases World.exec_role hexec n with ⟨-, hsame⟩ | ⟨heq, -, -⟩
      · exact ⟨hsame.1.trans ih.1, hsame.2.trans ih.2⟩
      · exact absurd heq hne
    · have hsame := World.env_role (Machine.restrict_env henv).2 n
      exact ⟨hsame.1.trans ih.1, hsame.2.trans ih.2⟩

section Calm

variable {setup : Setup} {rank : Int → Nat} {p p' : ClusterPool} {B : Nat → Prop}

theorem Calm.isLeader (hp : Calm setup rank p) (h : Onward B p p') (n : Int) :
    (p'.world.nodes n).isLeader = (p.world.nodes n).isLeader := by
  unfold Node.isLeader
  rw [(hp.quiet.role hp.reached h n).1]

theorem Calm.onward (hp : Calm setup rank p) (h : Onward B p p') : Calm setup rank p' := by
  refine ⟨h.reachable hp.reached, hp.quiet.onward h, fun n d hd => hp.ranked n d ?_⟩
  rw [World.refersTo_eq_some] at hd ⊢
  rw [h.alive, h.alive, hp.isLeader h, (h.mono.nodes n).config,
    (hp.quiet.role hp.reached h n).2] at hd
  exact hd

/-! ### Those who wait -/

/-- The threads of `B` wait for something, and they hold no mutex. -/
structure Bystanders (B : Nat → Prop) (p : ClusterPool) : Prop where
  stuck : Stuck B p
  mutex : ∀ τ n, B τ → (p.world.nodes n).mutex ≠ some τ

theorem Bystanders.onward {B' : Nat → Prop} (hB : Bystanders B p) (h : Onward B' p p')
    (hsub : ∀ τ, B τ → B' τ) : Bystanders B p' :=
  ⟨hB.stuck.onward h hsub,
    fun τ n hτ hmutex => hB.mutex τ n hτ ((h.mutex (hsub τ hτ) n).mp hmutex)⟩

variable {id : Nat} {s : Waiting} {C : Int → Prop}

/-- A thread joins them that has just been sent to wait for an answer. -/
theorem Bystanders.insert (hB : Bystanders B p) {k : Option Bytes → Program (Option Response)}
    (hr : Underway p τ n (.act (.net (.receive id)) k) s) (hheld : s.held = false) :
    Bystanders (fun τ' => B τ' ∨ τ' = τ) p := by
  refine ⟨hB.stuck.insert hr.left, ?_⟩
  rintro τ' n' (hτ' | rfl) hmutex
  · exact hB.mutex τ' n' hτ' hmutex
  · exact absurd (hheld.symm.trans ((hr.mutex n').mp hmutex).2) Bool.false_ne_true

/-- Whoever holds the mutex that a thread needs gives it back. -/
theorem make_way (h : Reachable clusterMachine anyStep setup.pool p) (hB : Bystanders B p)
    (hr : Underway p τ n (.act a k) s) :
    ∃ p', Onward (fun τ' => B τ' ∨ τ' = τ) p p' ∧
      (p'.world.Full ∨ (a.Guarded → (p'.world.nodes n).mayLock τ)) := by
  by_cases hguarded : a.Guarded
  swap
  · exact ⟨p, .refl, .inr (fun h => absurd h hguarded)⟩
  cases hmutex : (p.world.nodes n).mutex with
  | none => exact ⟨p, .refl, .inr (fun _ => .inl hmutex)⟩
  | some holder =>
    by_cases hmine : holder = τ
    · exact ⟨p, .refl, .inr (fun _ => .inr (hmutex.trans (congrArg some hmine)))⟩
    obtain ⟨g, hL, -⟩ := locks_invariant h
    obtain ⟨hat, -⟩ := (hL.mutex n holder).mp hmutex
    obtain ⟨prog, s', hr'⟩ := exists_underway h hat hr.alive
    have hstuck : Stuck (fun τ' => B τ' ∨ τ' = τ) p := by
      rintro τ' (hτ' | rfl)
      · exact hB.stuck τ' hτ'
      · exact ⟨_, hr.left, fun hall => hguarded.not_free hall.1⟩
    have hholder : ¬ (B holder ∨ holder = τ) := by
      rintro (hin | heq)
      · exact hB.mutex holder n hin hmutex
      · exact hmine heq
    obtain ⟨p', hto, hend⟩ := release h hstuck hr' hholder (hr'.holds.mp hmutex)
    exact ⟨p', hto, hend.imp_right (fun hnone _ => .inl hnone)⟩

/-! ### One thread -/

/-- Connections to broker `d` that nobody has taken up can be answered. -/
def Answered (setup : Setup) (rank : Int → Nat) (d : Int) : Prop :=
  ∀ {p : ClusterPool} {B : Nat → Prop} {id : Nat} {c : Conn}, Calm setup rank p →
    Bystanders B p → p.world.conns[id]? = some c → c.accepted = false → c.dest = d →
    (p.world.nodes d).alive = true →
    ∃ p', Onward B p p' ∧ (p'.world.Full ∨ p'.world.over id = true)

/-- A thread of broker `n` asks only live brokers among `C`. -/
structure Asks (C : Int → Prop) (n : Int) (w : World) (s : Waiting) : Prop where
  follower : s.follower = true → (w.nodes n).isLeader = false ∨ ∀ d, C d
  named : ∀ d, s.follower = true → s.named = some d → (w.nodes d).alive = true → C d

theorem Asks.onward (hasks : Asks C n p.world s) (hp : Calm setup rank p) (h : Onward B p p') :
    Asks C n p'.world s := by
  refine ⟨fun hf => ?_, fun d hf hd hup => ?_⟩
  · rw [hp.isLeader h]
    exact hasks.follower hf
  · rw [h.alive] at hup
    exact hasks.named d hf hd hup

/-- The thread's own action: what it is told about the leader is true. -/
theorem Asks.act {w : World} (hasks : Asks C n w s) (hat : w.RunsAt τ n)
    (halive : (w.nodes n).alive = true) (hrefers : ∀ d, w.refersTo n = some d → C d)
    (h : World.exec τ a c w = some (r, w'))
    (hleader : (w'.nodes n).isLeader = (w.nodes n).isLeader) :
    Asks C n w' (waitWatch.next s a r) := by
  -- only two questions to the broker are about the leader
  have hsame : (waitWatch.next s a r).follower = s.follower →
      (waitWatch.next s a r).named = s.named → Asks C n w' (waitWatch.next s a r) := by
    intro hf hd
    refine ⟨fun h' => ?_, fun d h' hnamed hup => ?_⟩
    · rw [hleader]
      exact hasks.follower (hf ▸ h')
    · rw [World.exec_alive h] at hup
      exact hasks.named d (hf ▸ h') (hd ▸ hnamed) hup
  cases a with
  | node a =>
    cases a with
    | isLeader =>
      have hstep := World.exec_node_at h hat
      obtain ⟨hr, -⟩ := Prod.mk.inj (Option.some.inj hstep)
      refine ⟨fun hf => .inl ?_, fun d _ hd => by cases hd⟩
      have hf : (!r) = true := hf
      rw [hleader, hr]
      simpa using hf
    | getLeaderEndpoint =>
      have hstep := World.exec_node_at h hat
      obtain ⟨hr, -⟩ := Prod.mk.inj (Option.some.inj hstep)
      refine ⟨fun hf => ?_, fun d hf hd hup => ?_⟩
      · rw [hleader]
        exact hasks.follower hf
      · rw [World.exec_alive h] at hup
        obtain ⟨e, he, rfl⟩ := Option.map_eq_some_iff.mp hd
        rcases hasks.follower hf with hfollower | hall
        · exact hrefers _ (refersTo_eq_some.mpr ⟨⟨halive, hfollower⟩, hup, e, hr.trans he, rfl⟩)
        · exact hall _
    | _ => exact hsame rfl rfl
  | net a =>
    cases a with
    | send dest payload => cases r <;> exact hsame rfl rfl
    | receive id => exact hsame rfl rfl
    | sendAck conn ack => exact hsame rfl rfl
    | respond conn response => exact hsame rfl rfl

/-- A thread that waits for an answer gets it: a prompt one in any case, and `hanswer` is about
    the others. -/
theorem answer_receive (h : Reachable clusterMachine anyStep setup.pool p) (hB : Stuck B p)
    {k : Option Bytes → Program (Option Response)}
    (hr : Underway p τ n (.act (.net (.receive id)) k) s)
    (hanswer : ∀ payload, s.sent = some (id, payload) → s.held = false → ¬ Prompt payload →
      ∃ p', Onward (fun τ' => B τ' ∨ τ' = τ) p p' ∧ (p'.world.Full ∨ p'.world.over id = true)) :
    ∃ p', Onward (fun τ' => B τ' ∨ τ' = τ) p p' ∧ (p'.world.Full ∨ p'.world.over id = true) := by
  obtain ⟨payload, hsent, hheld⟩ := hr.follows.1
  by_cases hprompt : Prompt payload
  · obtain ⟨dest, hdid⟩ := hr.sent id payload hsent
    obtain ⟨hW, -⟩ := wired_invariant h
    obtain ⟨c, hc, -, rfl⟩ := hW.conn_of_opening (hW.sent τ dest payload id hdid)
    exact answer_prompt h (hB.insert hr.left) hc hprompt
  · refine hanswer payload hsent ?_ hprompt
    by_contra hnot
    exact hprompt (hheld (by simpa using hnot))

/-- A request that has just been forwarded is answered if the broker that was asked can. -/
theorem answer_forwarded (hCan : ∀ d, C d → Answered setup rank d) {payload : Bytes}
    {k' : Option Bytes → Program (Option Response)} (hp : Calm setup rank ⟨w', p.progs.set τ (k r)⟩)
    (hB : Bystanders B ⟨w', p.progs.set τ (k r)⟩) (hr : Underway p τ n (.act a k) s)
    (hasks : Asks C n p.world s) (hact : Onward B p ⟨w', p.progs.set τ (k r)⟩)
    (hsmooth : smooth p.world a c = true) (hexec : World.exec τ a c p.world = some (r, w'))
    (hk : k r = .act (.net (.receive id)) k')
    (hsent : (waitWatch.next s a r).sent = some (id, payload))
    (hheld : (waitWatch.next s a r).held = false) :
    ∃ p', Onward (fun τ' => B τ' ∨ τ' = τ) ⟨w', p.progs.set τ (k r)⟩ p' ∧
      (p'.world.Full ∨ p'.world.over id = true) := by
  have hr' := hr.act hexec
  rw [hk] at hr' hp hB hact ⊢
  have hB' := hB.insert hr' hheld
  obtain ⟨dest, hevent⟩ := Locks.sent_next (τ := τ) hsent
  cases hevent
  -- without the mutex only the broker that was named is asked
  have hnotheld : s.held = false := hheld
  obtain ⟨hf, hd⟩ := hr.follows.1.resolve_left
    (fun h => absurd (hnotheld.symm.trans h) Bool.false_ne_true)
  have hup := alive_of_sent hsmooth hexec
  have hcan := hasks.named dest hf hd hup
  have hconn : w'.conns[id]? = some { dest := dest, payload := payload } := by
    rcases exec_send hexec with ⟨hid, hconns⟩ | ⟨hnot, -⟩
    · cases hid
      rw [hconns]
      exact List.getElem?_concat_length
    · exact absurd rfl (hnot id)
  refine hCan dest hcan hp hB' hconn rfl rfl ?_
  show (w'.nodes dest).alive = true
  rw [World.exec_alive hexec]
  exact hup

/-- **A thread can finish** if those whom it asks can answer.  `hanswer` is about the request
    that it has just forwarded, if it waits for the answer. -/
theorem finish (hCan : ∀ d, C d → Answered setup rank d)
    (hrefers : ∀ q d, Calm setup rank q → q.world.refersTo n = some d → C d)
    (hp : Calm setup rank p) (hB : Bystanders B p) (hτ : ¬ B τ) {prog : Program (Option Response)}
    (hr : Underway p τ n prog s) (hasks : Asks C n p.world s)
    (hanswer : ∀ id payload k, prog = .act (.net (.receive id)) k →
      s.sent = some (id, payload) → s.held = false → ¬ Prompt payload →
      ∃ p', Onward (fun τ' => B τ' ∨ τ' = τ) p p' ∧ (p'.world.Full ∨ p'.world.over id = true)) :
    ∃ p', Onward B p p' ∧ (p'.world.Full ∨ ∃ b, p'.progs[τ]? = some (.ret b)) := by
  induction prog generalizing p s with
  | ret b => exact ⟨p, .refl, .inr ⟨b, hr.left⟩⟩
  | act a k ih =>
    -- first what the thread waits for: an answer, or the mutex
    have hready : ∃ p₁, Onward (fun τ' => B τ' ∨ τ' = τ) p p₁ ∧ (p₁.world.Full ∨
        ((a.Guarded → (p₁.world.nodes n).mayLock τ) ∧
          ∀ id, a = .net (.receive id) → p₁.world.over id = true)) := by
      by_cases hreceive : ∃ id, a = .net (.receive id)
      · obtain ⟨id, rfl⟩ := hreceive
        obtain ⟨p₁, hto, hend⟩ := answer_receive hp.reached hB.stuck hr (hanswer id · k rfl)
        refine ⟨p₁, hto, hend.imp_right (fun hover => ⟨fun hg => hg.elim, ?_⟩)⟩
        rintro id' heq
        cases heq
        exact hover
      · obtain ⟨p₁, hto, hend⟩ := make_way hp.reached hB hr
        exact ⟨p₁, hto, hend.imp_right (⟨·, fun id ha => absurd ⟨id, ha⟩ hreceive⟩)⟩
    obtain ⟨p₁, hto, hfull | ⟨hmay, hover⟩⟩ := hready
    · exact ⟨p₁, hto.less (fun _ => .inl), .inl hfull⟩
    have hto₁ : Onward B p p₁ := hto.less (fun _ => .inl)
    have hp₁ := hp.onward hto
    have hr₁ := hr.onward hto (.inr rfl)
    have hasks₁ := hasks.onward hp hto
    rcases hr₁.step (B := B) hτ hmay hover with hfull | ⟨c, r, w', hsmooth, hexec, hact, hr₂⟩
    · exact ⟨p₁, hto₁, .inl hfull⟩
    have hp₂ := hp₁.onward hact
    have hto₂ := hto₁.trans hact
    have hB₂ := hB.onward hto₂ (fun _ h => h)
    have hasks₂ := hasks₁.act hr₁.node hr₁.alive (fun d => hrefers p₁ d hp₁) hexec
      (hp₁.isLeader hact n)
    obtain ⟨p', hrest, hend⟩ := ih r hp₂ hB₂ hr₂ hasks₂
      (fun id payload k' hk hsent hheld _ =>
        answer_forwarded hCan hp₂ hB₂ hr₁ hasks₁ hact hsmooth hexec hk hsent hheld)
    exact ⟨p', hto₂.trans hrest, hend⟩

/-! ### New threads -/

/-- A thread that takes up a connection. -/
theorem accepted (hp : Reachable clusterMachine anyStep setup.pool p) {c : Conn}
    (hconn : p.world.conns[id]? = some c) (hfree : c.accepted = false)
    (halive : (p.world.nodes c.dest).alive = true) :
    ∃ p', Onward B p p' ∧ p'.world.ServesOn p.progs.length id ∧
      Underway p' p.progs.length c.dest
        (serve (p.world.nodes c.dest).config c.payload (some id)) {} := by
  have hlength := length_progs hp
  obtain ⟨p', hto, hserves, hat, hnodes, hprogs⟩ :=
    Onward.accept (B := B) hconn hfree halive hlength
  obtain ⟨g, hL, -⟩ := locks_invariant hp
  refine ⟨p', hto, hserves, hat, by rw [hto.alive]; exact halive, ?_, waits_serve _ _ rfl,
    fun n => ?_, fun _ _ hsent => by cases hsent⟩
  · rw [hprogs]
    exact List.getElem?_concat_length
  · -- a thread that has not been there has no mutex
    refine ⟨fun hmutex => ?_, fun hheld => absurd hheld.2 Bool.false_ne_true⟩
    rw [hnodes] at hmutex
    obtain ⟨task, htask, -⟩ := ((hL.mutex n _).mp hmutex).1
    rw [hlength] at htask
    exact absurd (List.getElem?_eq_some_iff.mp htask).1 (lt_irrefl _)

/-- **New requests are answered**, by induction on the rank of the broker: if it forwards the
    request, it is to a broker of lower rank. -/
theorem answered_of_rank (m : Nat) (d : Int) (hd : rank d < m) : Answered setup rank d := by
  induction m generalizing d with
  | zero => exact absurd hd (Nat.not_lt_zero _)
  | succ m ih =>
    rintro p B id c hp hB hconn hfree rfl halive
    obtain ⟨p₁, hto, hserves, hr⟩ := accepted (B := B) hp.reached hconn hfree halive
    have hp₁ := hp.onward hto
    have hB₁ := hB.onward hto (fun _ h => h)
    obtain ⟨p₂, hrest, hend⟩ := finish (C := fun e => rank e < rank c.dest)
      (fun e he => ih e (Nat.lt_of_lt_of_le he (Nat.le_of_lt_succ hd)))
      (fun q d hq => hq.ranked c.dest d) hp₁ hB₁ hB.stuck.not_new hr
      ⟨fun hf => (by cases hf), fun _ hf => by cases hf⟩
      (fun _ _ _ _ hsent => by cases hsent)
    have hall := hto.trans hrest
    refine ⟨p₂, hall, hend.imp_right (fun ⟨b, hret⟩ => ?_)⟩
    exact over_of_finished (hall.reachable hp.reached) (hrest.mono.servesOn hserves) hret

/-! ### Threads that are there already -/

/-- **Requests under way are answered**, by induction on the age of the thread: whoever serves
    what it has forwarded is younger. -/
theorem finish_old (hp : Calm setup rank p) (hB : Bystanders B p) (hat : p.world.RunsAt τ n)
    (halive : (p.world.nodes n).alive = true) (hyounger : ∀ τ', B τ' → τ' < τ) :
    ∃ p', Onward B p p' ∧ (p'.world.Full ∨ ∃ b, p'.progs[τ]? = some (.ret b)) := by
  induction hage : p.progs.length - τ using Nat.strong_induction_on generalizing τ n B with
  | _ age ih =>
    obtain ⟨prog, s, hr⟩ := exists_underway hp.reached hat halive
    refine finish (C := fun _ => True) (fun d _ => answered_of_rank (rank d + 1) d (by omega))
      (fun _ _ _ _ => trivial) hp hB (fun hτ => absurd (hyounger τ hτ) (lt_irrefl τ)) hr
      ⟨fun _ => .inr (fun _ => trivial), fun _ _ _ _ => trivial⟩ ?_
    rintro id payload k rfl hsent hheld -
    -- while it waits, the thread is barred from moving itself
    have hB' := hB.insert hr hheld
    obtain ⟨dest, hdid⟩ := hr.sent id payload hsent
    obtain ⟨hW, -⟩ := wired_invariant hp.reached
    have hopening := hW.sent τ dest payload id hdid
    obtain ⟨c, hc, rfl, -⟩ := hW.conn_of_opening hopening
    cases hup : (p.world.nodes c.dest).alive with
    | false => exact ⟨p, .refl, .inr (over_of_dead hc hup)⟩
    | true =>
      cases haccepted : c.accepted with
      | false =>
        exact answered_of_rank (rank c.dest + 1) c.dest (by omega) hp hB' hc haccepted rfl hup
      | true =>
        -- the connection has been taken up, and by a younger thread
        obtain ⟨server, hserves⟩ := hW.taken id c hc haccepted
        have hlater := hW.later ⟨_, hopening⟩ hserves
        obtain ⟨task, htask, hid⟩ := hserves
        obtain ⟨c', hc', -, htaskeq⟩ := hW.served server task id htask hid
        rw [hc, Option.some.injEq] at hc'
        have hlt : server < p.progs.length := by
          rw [length_progs hp.reached]
          exact (List.getElem?_eq_some_iff.mp htask).1
        obtain ⟨p', hto, hend⟩ := ih (p.progs.length - server) (by omega) hB'
          ⟨task, htask, by rw [htaskeq, ← hc']⟩ hup (by
            rintro τ' (hτ' | rfl)
            · exact (hyounger τ' hτ').trans hlater
            · exact hlater) rfl
        refine ⟨p', hto, hend.imp_right (fun ⟨b, hret⟩ => ?_)⟩
        exact over_of_finished (hto.reachable hp.reached)
          (hto.mono.servesOn ⟨task, htask, hid⟩) hret

/-- One after the other, all threads up to `m` finish. -/
theorem finish_below (hp : Calm setup rank p) (m : Nat) :
    ∃ p', Onward (fun _ => False) p p' ∧ (p'.world.Full ∨
      ∀ τ n, τ < m → p.world.RunsAt τ n → (p.world.nodes n).alive = true →
        ∃ b, p'.progs[τ]? = some (.ret b)) := by
  induction m with
  | zero => exact ⟨p, .refl, .inr (fun τ n hτ => absurd hτ (Nat.not_lt_zero τ))⟩
  | succ m ih =>
    obtain ⟨p₁, hto, hfull | hdone⟩ := ih
    · exact ⟨p₁, hto, .inl hfull⟩
    by_cases hm : ∃ n, p.world.RunsAt m n ∧ (p.world.nodes n).alive = true
    · obtain ⟨n, hat, halive⟩ := hm
      obtain ⟨p₂, hrest, hend⟩ := finish_old (hp.onward hto)
        (B := fun _ => False) ⟨fun _ h => h.elim, fun _ _ h => h.elim⟩ (hto.mono.runsAt hat)
        (by rw [hto.alive]; exact halive) (fun _ h => h.elim)
      refine ⟨p₂, hto.trans hrest, hend.imp_right (fun hm τ n' hτ hat' halive' => ?_)⟩
      rcases Nat.lt_succ_iff_lt_or_eq.mp hτ with hlt | rfl
      · obtain ⟨b, hret⟩ := hdone τ n' hlt hat' halive'
        exact ⟨b, Reachable.keep_ret hrest hret⟩
      · exact hm
    · refine ⟨p₁, hto, .inr (fun τ n' hτ hat' halive' => ?_)⟩
      rcases Nat.lt_succ_iff_lt_or_eq.mp hτ with hlt | rfl
      · exact hdone τ n' hlt hat' halive'
      · exact absurd ⟨n', hat', halive'⟩ hm

end Calm

/-- **No deadlock.**  Let no heartbeat round be under way at a live broker, and let no broker
    forward requests around in a circle.  Then smooth steps lead to a state in which every
    request that live brokers are serving now has been served, or in which a log is full. -/
theorem requests_finish {G : Guard Act World EnvStep} {setup : Setup} {p : ClusterPool}
    (h : Reachable clusterMachine G setup.pool p) (hquiet : Quiet p)
    (hends : ∀ n, ¬ p.world.Circling n) :
    ∃ p', Reachable smoothMachine anyStep p p' ∧ (p'.world.Full ∨
      ∀ τ n, p.world.RunsAt τ n → (p.world.nodes n).alive = true →
        ∃ b, p'.progs[τ]? = some (.ret b)) := by
  obtain ⟨rank, hranked⟩ := exists_ranked hends
  obtain ⟨p', hto, hend⟩ := finish_below ⟨reachable_anyStep h, hquiet, hranked⟩ p.world.tasks.length
  refine ⟨p', reachable_anyStep hto, hend.imp_right (fun hdone τ n hat halive => ?_)⟩
  obtain ⟨task, htask, hn⟩ := hat
  exact hdone τ n (List.getElem?_eq_some_iff.mp htask).1 ⟨task, htask, hn⟩ halive

/-- Broker 2 waits for the answer to a record that it has forwarded, broker 1 for the
    acknowledgement of broker 2, and a second record at broker 1 for the mutex. -/
theorem requests_finish_two :
    ∃ p : ClusterPool, Reachable clusterMachine brokerTraffic twoBrokers.pool p ∧
      nextAct? p 0 = some (.net (.receive 0)) ∧ nextAct? p 1 = some (.net (.receive 1)) ∧
      nextAct? p 2 = some (.node .lock) ∧
      ∃ p', Reachable smoothMachine anyStep p p' ∧ (p'.world.Full ∨
        ∀ τ < 3, ∃ b, p'.progs[τ]? = some (.ret b)) := by
  obtain ⟨p, h, hnext, hlock, htasks, hserves, hup, hleader, hpointer⟩ :=
    clusterMachine.exists_reachable clientTraffic_allows
      (fun p => (nextAct? p 0 = some (.net (.receive 0)) ∧
          nextAct? p 1 = some (.net (.receive 1))) ∧ nextAct? p 2 = some (.node .lock) ∧
        p.world.tasks.map Task.node = [2, 1, 1] ∧
        (∀ task ∈ p.world.tasks, task.source ≠ .heartbeat) ∧
        ((p.world.nodes 1).alive = true ∧ (p.world.nodes 2).alive = true) ∧
        (p.world.nodes 1).isLeader = true ∧
        ((p.world.nodes 2).config.getLeaderEndpoint (p.world.nodes 2).leaderBrokerId).map
          LeaderEndpoint.brokerId = some 1)
      twoBrokers.pool ([.env (.client 2 (produceOf [65]))] ++ go 0 3 ++ [.env (.accept 0)] ++
        go 1 9 ++ [.env (.client 1 (produceOf [66]))] ++ go 2 4) (by decide +kernel)
  have hquiet : Quiet p :=
    fun τ n htask => absurd rfl (hserves _ (List.mem_of_getElem? htask))
  have hranked : Ranked (fun n => if n = 1 then 0 else 1) p.world := by
    intro n d hd
    obtain ⟨⟨halive, hfollower⟩, -, e, hendpoint, rfl⟩ := refersTo_eq_some.mp hd
    obtain ⟨hb, hid⟩ := (cluster_sound h).1.alive n halive
    have hids : ∀ b ∈ twoBrokers.cluster.brokers, b.brokerId = 1 ∨ b.brokerId = 2 := by decide
    rcases hids _ hb with hone | htwo
    · rw [← hid, hone, hleader] at hfollower
      exact absurd hfollower (by decide)
    · obtain rfl : n = 2 := hid.symm.trans htwo
      rw [hendpoint, Option.map_some, Option.some.injEq] at hpointer
      rw [hpointer]
      decide
  obtain ⟨p', hto, hend⟩ := requests_finish h hquiet hranked.not_circling
  refine ⟨p, h, hnext.1, hnext.2, hlock, p', hto, hend.imp_right (fun hdone τ hτ => ?_)⟩
  have hlt : τ < p.world.tasks.length := by
    rw [← List.length_map Task.node, htasks]
    exact hτ
  have hat : p.world.RunsAt τ (p.world.tasks[τ]).node := ⟨_, List.getElem?_eq_getElem hlt, rfl⟩
  have hmem : (p.world.tasks[τ]).node ∈ p.world.tasks.map Task.node :=
    List.mem_map_of_mem (List.getElem_mem hlt)
  refine hdone τ _ hat ?_
  rw [htasks] at hmem
  generalize (p.world.tasks[τ]).node = n at hmem
  simp only [List.mem_cons, List.not_mem_nil, or_false] at hmem
  rcases hmem with rfl | rfl | rfl
  · exact hup.2
  · exact hup.1
  · exact hup.1

end StreamingPlatform
