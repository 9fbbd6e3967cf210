import StreamingPlatform.Broker.BatchWatch
import StreamingPlatform.Cluster.Runs
import StreamingPlatform.Cluster.Replicating

namespace StreamingPlatform

open ByteString Interleave World

/-!
# Cluster — batches among other appends

Every append of a batch is atomic, the batch is not: an append of another thread may come
in between, and then the records of the batch are not next to each other
(`batch_torn`).  As long as nobody appends to the log between two records of a batch
(`undisturbedBatches`), a batch is contiguous, and the offset that `replicate_batch`
computes for the last record is where that record is (`batch_contiguous`).
-/

/-! ### Who appended last -/

/-- The offset that an append of thread `τ` has returned. -/
def Event.offset? (τ : Nat) (e : Event) : Option Nat :=
  match e with
  | ⟨τ', .node (.append ..), offset⟩ => if τ' = τ then some offset else none
  | _ => none

/-- The thread and the offset of an append to a log of broker `n`. -/
def Event.appendTo? (w : World) (n : Int) (key : Bytes) (e : Event) : Option (Nat × Nat) :=
  match e with
  | ⟨τ, .node (.append topic partition _ _), offset⟩ =>
    if w.RunsAt τ n ∧ makeKey topic partition = key then some (τ, offset) else none
  | _ => none

variable {k : Nat} {e : EnvStep} {started : Option (Program (Option Response))}

namespace World

/-- The offsets that the appends of thread `τ` have returned, in order. -/
def offsetsOf (w : World) (τ : Nat) : List Nat := w.history.filterMap (Event.offset? τ)

/-- The last append to a log of broker `n`: its thread, and the offset it has returned. -/
def lastAppend (w : World) (n : Int) (key : Bytes) : Option (Nat × Nat) :=
  (w.history.filterMap (Event.appendTo? w n key)).getLast?

section Exec

variable {w w' : World} {τ : Nat} {a : Act} {c : Choice} {r : a.Result} {n : Int} {key : Bytes}

theorem runsAt_exec (h : exec τ a c w = some (r, w')) (τ' : Nat) (n : Int) :
    w'.RunsAt τ' n ↔ w.RunsAt τ' n := by
  unfold RunsAt
  rw [(exec_history h).2]

/-- No action changes what a thread serves. -/
theorem serves_exec (h : exec τ a c w = some (r, w')) (τ' : Nat) (n : Int) (request : Request) :
    w'.Serves τ' n request ↔ w.Serves τ' n request := by
  unfold Serves
  rw [(exec_history h).2]

/-- An append adds its offset to those of its thread. -/
theorem offsetsOf_exec (h : exec τ a c w = some (r, w')) (τ' : Nat) :
    w'.offsetsOf τ' = w.offsetsOf τ' ++ (Event.offset? τ' ⟨τ, a, r⟩).toList := by
  unfold offsetsOf
  rw [(exec_history h).1, List.filterMap_append]
  rfl

/-- It becomes the last append to its log. -/
theorem lastAppend_exec (h : exec τ a c w = some (r, w')) (n : Int) (key : Bytes) :
    w'.lastAppend n key
      = (Event.appendTo? w n key ⟨τ, a, r⟩).or (w.lastAppend n key) := by
  have hsame : Event.appendTo? w' n key = Event.appendTo? w n key := by
    funext e
    unfold Event.appendTo?
    split
    · simp only [runsAt_exec h]
    · rfl
  unfold lastAppend
  rw [(exec_history h).1, hsame, List.filterMap_append]
  cases hnew : Event.appendTo? w n key ⟨τ, a, r⟩ with
  | none => rw [List.filterMap_cons_none hnew, List.filterMap_nil, List.append_nil]; rfl
  | some last =>
    rw [List.filterMap_cons_some hnew, List.filterMap_nil, List.getLast?_concat]
    rfl

end Exec

/-- The environment appends nothing; threads of recorded events are not new. -/
theorem lastAppend_env {w w' : World} (h : env k e w = some (w', started))
    (hran : ∀ e ∈ w.history, e.thread < w.tasks.length) (n : Int) (key : Bytes) :
    w'.lastAppend n key = w.lastAppend n key := by
  unfold lastAppend
  rw [(env_cases h).1.history]
  congr 1
  refine List.filterMap_congr (fun event hevent => ?_)
  have htask : w'.tasks[event.thread]? = w.tasks[event.thread]? := by
    have hsome := List.getElem?_eq_getElem (hran event hevent)
    rw [hsome]
    exact (env_mono h).1.task hsome
  unfold Event.appendTo?
  split
  · next τ topic partition message origin offset =>
    have hruns : w'.RunsAt τ n ↔ w.RunsAt τ n := by
      unfold RunsAt
      rw [show w'.tasks[τ]? = w.tasks[τ]? from htask]
    simp only [hruns]
  · rfl

end World

/-- Runs in which a later record of a batch is appended at broker `n` only when the last
    append to the log was by the same thread: nobody came in between. -/
def undisturbedBatches (n : Int) : Guard Act World EnvStep where
  act w τ a := ∀ topic partition message expected,
    a = .node (.append topic partition message (.batch expected)) → w.RunsAt τ n →
    ∃ offset, w.lastAppend n (makeKey topic partition) = some (τ, offset)
  env _ _ := True

/-! ### The invariant -/

/-- The records that a thread has appended so far are next to each other in the log, in the
    order of the batch. -/
def BatchWatch.Placed (b : BatchWatch) (s : Node) : Prop :=
  ∃ first, b.offsets = List.range' first b.offsets.length ∧ ∀ i < b.offsets.length,
    first + i < 2 ^ 64 ∧ ∃ message, b.request.messages[i]? = some message ∧
      (s.contents (makeKey b.request.topic b.request.partition))[first + i]? = some message

/-- **The invariant of batches** at broker `n`. -/
structure InPlace (n : Int) (w : World) (g : Nat → Option BatchWatch) : Prop where
  ran : ∀ e ∈ w.history, e.thread < w.tasks.length
  watched : ∀ τ request, w.Serves τ n request → request.type = .batchProduce →
    ∃ b, g τ = some b ∧ b.request = request
  trace : ∀ τ b, g τ = some b → w.offsetsOf τ = b.offsets
  placed : ∀ τ b, g τ = some b → w.RunsAt τ n → b.Placed (w.nodes n)
  last : ∀ key τ offset, w.lastAppend n key = some (τ, offset) →
    ((w.nodes n).contents key).length = offset + 1
  own : ∀ τ b offset, g τ = some b → w.RunsAt τ n →
    w.lastAppend n (makeKey b.request.topic b.request.partition) = some (τ, offset) →
    b.offsets.getLast? = some offset
  opened : ∀ τ b topic partition offset, g τ = some b →
    w.Did τ (.node (.openAcks topic partition offset)) () →
    b.offsets ≠ [] ∧ b.offsets.length = b.request.messages.length ∧ offset = b.lastOffset
  expected : ∀ τ b topic partition message expected (offset : Nat), g τ = some b →
    w.RunsAt τ n → w.Did τ (.node (.append topic partition message (.batch expected))) offset →
    offset = expected

section InPlace

variable {n : Int} {w w' : World} {g : Nat → Option BatchWatch} {τ : Nat} {a : Act} {c : Choice}
  {r : a.Result} {b : BatchWatch}

/-- Records that are in place stay there. -/
theorem BatchWatch.Placed.mono {s s' : Node} (h : b.Placed s) (hmono : s.Mono s') :
    b.Placed s' := by
  obtain ⟨first, hoffsets, hheld⟩ := h
  refine ⟨first, hoffsets, fun i hi => ?_⟩
  obtain ⟨hlt, message, hmessage, hget⟩ := hheld i hi
  refine ⟨hlt, message, hmessage, ?_⟩
  obtain ⟨rest, hrest⟩ := hmono.contents (makeKey b.request.topic b.request.partition)
  rw [← hrest, List.getElem?_append_left (List.getElem?_eq_some_iff.mp hget).1]
  exact hget

/-- An action that is no append leaves the watches and the appends as they are. -/
theorem batchWatch_next_of_ne
    (hne : ∀ topic partition message origin, a ≠ .node (.append topic partition message origin))
    (s : Option BatchWatch) : batchWatch.next s a r = s := by
  cases s with
  | none => rfl
  | some b =>
    cases a with
    | net a => rfl
    | node a =>
      cases a with
      | append topic partition message origin => exact absurd rfl (hne _ _ _ _)
      | _ => rfl

variable {τ' : Nat} {topic message : Bytes} {partition : Int} {origin : AppendOrigin}

theorem Event.offset?_of_ne {τ' : Nat}
    (hne : ∀ topic partition message origin, a ≠ .node (.append topic partition message origin)) :
    Event.offset? τ' ⟨τ, a, r⟩ = none := by
  unfold Event.offset?
  split
  · next heq =>
    cases heq
    exact absurd rfl (hne _ _ _ _)
  · rfl

theorem Event.appendTo?_of_ne {key : Bytes}
    (hne : ∀ topic partition message origin, a ≠ .node (.append topic partition message origin)) :
    Event.appendTo? w n key ⟨τ, a, r⟩ = none := by
  unfold Event.appendTo?
  split
  · next heq =>
    cases heq
    exact absurd rfl (hne _ _ _ _)
  · rfl

/-- What the history says after an action. -/
theorem World.did_exec_iff {a' : Act} {r' : a'.Result} (h : World.exec τ a c w = some (r, w')) :
    w'.Did τ' a' r' ↔ w.Did τ' a' r' ∨ (⟨τ', a', r'⟩ : Event) = ⟨τ, a, r⟩ := by
  unfold World.Did
  rw [(World.exec_history h).1, List.mem_append, List.mem_singleton]

/-- Whatever happens is done by a thread. -/
theorem InPlace.ran_exec (h : InPlace n w g) (hexec : World.exec τ a c w = some (r, w')) :
    ∀ e ∈ w'.history, e.thread < w'.tasks.length := by
  obtain ⟨hhistory, htasks⟩ := World.exec_history hexec
  obtain ⟨task, -, htask, -⟩ := World.exec_cases hexec
  rw [hhistory, htasks]
  intro e he
  rcases List.mem_append.mp he with hold | hnew
  · exact h.ran e hold
  · rw [List.mem_singleton.mp hnew]
    exact (List.getElem?_eq_some_iff.mp htask).1

/-- **An action that is no append.** -/
theorem InPlace.exec_other (h : InPlace n w g) (hok : batchWatch.ok (g τ) a)
    (hne : ∀ topic partition message origin, a ≠ .node (.append topic partition message origin))
    (hexec : World.exec τ a c w = some (r, w')) : InPlace n w' g := by
  have hcontents : ∀ n key, (w'.nodes n).contents key = (w.nodes n).contents key := by
    rcases World.exec_contents hexec with hsame | ⟨topic, partition, message, origin, -, rfl, -⟩
    · exact hsame
    · exact absurd rfl (hne _ _ _ _)
  have hoffsets : ∀ τ', w'.offsetsOf τ' = w.offsetsOf τ' := by
    intro τ'
    rw [World.offsetsOf_exec hexec, Event.offset?_of_ne hne]
    exact List.append_nil _
  have hlast : ∀ key, w'.lastAppend n key = w.lastAppend n key := by
    intro key
    rw [World.lastAppend_exec hexec, Event.appendTo?_of_ne hne]
    rfl
  have hmono := (World.exec_mono hexec).1
  refine ⟨h.ran_exec hexec, fun τ' request hserves htype => ?_, fun τ' b hb => ?_,
    fun τ' b hb hat => ?_, fun key τ' offset hkey => ?_, fun τ' b offset hb hat hkey => ?_,
    fun τ' b topic partition offset hb hdid => ?_,
    fun τ' b topic partition message expected offset hb hat hdid => ?_⟩
  · exact h.watched τ' request ((World.serves_exec hexec τ' n request).mp hserves) htype
  · rw [hoffsets]
    exact h.trace τ' b hb
  · exact (h.placed τ' b hb ((World.runsAt_exec hexec τ' n).mp hat)).mono (hmono.nodes n)
  · rw [hlast] at hkey
    rw [hcontents]
    exact h.last key τ' offset hkey
  · rw [hlast] at hkey
    exact h.own τ' b offset hb ((World.runsAt_exec hexec τ' n).mp hat) hkey
  · rcases (World.did_exec_iff hexec).mp hdid with hold | hnew
    · exact h.opened τ' b topic partition offset hb hold
    · -- the acknowledgements just opened are those of the last record
      cases hnew
      exact (hok b hb).2.2
  · rcases (World.did_exec_iff hexec).mp hdid with hold | hnew
    · exact h.expected τ' b topic partition message expected offset hb
        ((World.runsAt_exec hexec τ' n).mp hat) hold
    · cases hnew
      exact absurd rfl (hne _ _ _ _)

/-- **The next record of a batch** is appended right after the one before. -/
theorem InPlace.append_offset {r : Nat} (h : InPlace n w g) (hb : g τ = some b) (hat : w.RunsAt τ n)
    (hok : b.Ok (.node (.append topic partition message origin)))
    (hG : (undisturbedBatches n).act w τ (.node (.append topic partition message origin)))
    (hexec : World.exec τ (.node (.append topic partition message origin)) c w = some (r, w')) :
    (∀ expected, origin = .batch expected → r = expected) ∧
      BatchWatch.Placed { b with offsets := b.offsets ++ [r] } (w'.nodes n) := by
  obtain ⟨rfl, rfl, hmessage, horigin⟩ := hok
  obtain ⟨hr, hroom, hcontents, -⟩ := append_step (World.exec_node_at hexec hat)
  obtain ⟨first, hoffsets, hheld⟩ := h.placed τ b hb hat
  have hsuffix : ((w'.nodes n).contents (makeKey b.request.topic b.request.partition))[r]?
      = some message := by
    rw [hcontents, hr, List.getElem?_append_right le_rfl, Nat.sub_self]
    rfl
  unfold BatchWatch.origin at horigin
  split at horigin
  · -- the first record of the batch
    next hnil =>
    subst horigin
    refine ⟨fun expected hexpected => absurd hexpected (by simp), r, ?_, fun i hi => ?_⟩
    · rw [hnil]
      rfl
    · dsimp only at hi ⊢
      rw [hnil, List.nil_append, List.length_singleton, Nat.lt_one_iff] at hi
      subst hi
      rw [hnil] at hmessage
      exact ⟨Nat.lt_of_succ_lt hroom, message, hmessage, hsuffix⟩
  · next o os hcons =>
    -- the last append to the log was that of the record before
    obtain ⟨offset, hlast⟩ := hG _ _ _ _ (by rw [horigin]) hat
    have hlength := h.last _ τ offset hlast
    have hown := h.own τ b offset hb hat hlast
    rw [hoffsets, List.getLast?_range', if_neg (by rw [hcons]; exact Nat.succ_ne_zero _),
      Option.some.injEq] at hown
    have hpos : 0 < b.offsets.length := by
      rw [hcons]
      exact Nat.succ_pos _
    have hnext : r = first + b.offsets.length := by
      rw [hr, hlength]
      omega
    have hfirst : o = first := by
      have hhead := congrArg List.head? hoffsets
      rw [List.head?_range', if_neg (by omega), hcons] at hhead
      exact Option.some.inj hhead
    refine ⟨fun expected hexpected => ?_, first, ?_, fun i hi => ?_⟩
    · rw [horigin] at hexpected
      rw [← AppendOrigin.batch.inj hexpected, hfirst, hnext]
    · dsimp only
      rw [List.length_append, List.length_singleton, List.range'_1_concat, ← hoffsets, hnext]
    · dsimp only at hi ⊢
      rw [List.length_append, List.length_singleton] at hi
      rcases Nat.lt_succ_iff_lt_or_eq.mp hi with hold | rfl
      · obtain ⟨hlt, m, hm, hget⟩ := hheld i hold
        refine ⟨hlt, m, hm, ?_⟩
        rw [hcontents, List.getElem?_append_left (List.getElem?_eq_some_iff.mp hget).1]
        exact hget
      · rw [← hnext]
        exact ⟨Nat.lt_of_succ_lt hroom, message, hmessage, hsuffix⟩

/-- The watch of thread `τ` grows by one offset, the others are as they were. -/
theorem batchWatch_append_cases {r : Nat} {b' : BatchWatch}
    (hb' : Function.update g τ (batchWatch.next (g τ)
      (.node (.append topic partition message origin)) r) τ' = some b') :
    (τ' = τ ∧ ∃ b, g τ = some b ∧ b' = { b with offsets := b.offsets ++ [r] }) ∨
      (τ' ≠ τ ∧ g τ' = some b') := by
  rw [Function.update_apply] at hb'
  split at hb'
  · next heq =>
    obtain ⟨b, hb, hnext⟩ := Option.map_eq_some_iff.mp hb'
    exact .inl ⟨heq, b, hb, hnext.symm⟩
  · next hne => exact .inr ⟨hne, hb'⟩

/-- The last append to a log is at its end. -/
theorem InPlace.last_append {r : Nat} (h : InPlace n w g)
    (hexec : World.exec τ (.node (.append topic partition message origin)) c w = some (r, w'))
    {key : Bytes} {offset : Nat} (hkey : w'.lastAppend n key = some (τ', offset)) :
    ((w'.nodes n).contents key).length = offset + 1 := by
  rw [World.lastAppend_exec hexec n, Event.appendTo?] at hkey
  split at hkey
  · next hhere =>
    obtain ⟨hat, rfl⟩ := hhere
    obtain ⟨-, rfl⟩ := Prod.mk.inj (Option.some.inj hkey)
    obtain ⟨hr, -, hcontents, -⟩ := append_step (World.exec_node_at hexec hat)
    rw [hcontents, List.length_append, hr]
    rfl
  · next helse =>
    rw [← h.last key τ' offset hkey]
    rcases World.exec_contents hexec with hsame | ⟨_, _, _, _, n₀, heq, hat, -, hother⟩
    · rw [hsame]
    · cases heq
      refine congrArg List.length (hother n key ?_)
      by_contra hboth
      obtain ⟨hn, hk⟩ := not_or.mp hboth
      exact helse ⟨not_not.mp hn ▸ hat, (not_not.mp hk).symm⟩

/-- **An append.** -/
theorem InPlace.exec_append {r : Nat} (h : InPlace n w g)
    (hok : batchWatch.ok (g τ) (.node (.append topic partition message origin)))
    (hG : (undisturbedBatches n).act w τ (.node (.append topic partition message origin)))
    (hexec : World.exec τ (.node (.append topic partition message origin)) c w = some (r, w')) :
    InPlace n w' (Function.update g τ
      (batchWatch.next (g τ) (.node (.append topic partition message origin)) r)) := by
  have hmono := (World.exec_mono hexec).1
  have hlast := World.lastAppend_exec hexec n
  have hruns := World.runsAt_exec hexec
  refine ⟨h.ran_exec hexec, fun τ' request hserves htype => ?_, fun τ' b' hb' => ?_,
    fun τ' b' hb' hat => ?_, fun key τ' offset hkey => ?_, fun τ' b' offset hb' hat hkey => ?_,
    fun τ' b' topic' partition' offset hb' hdid => ?_,
    fun τ' b' topic' partition' message' expected offset hb' hat hdid => ?_⟩
  · obtain ⟨b, hb, hrequest⟩ :=
      h.watched τ' request ((World.serves_exec hexec τ' n request).mp hserves) htype
    rw [Function.update_apply]
    split
    · next heq =>
      subst heq
      rw [hb]
      exact ⟨_, rfl, hrequest⟩
    · exact ⟨b, hb, hrequest⟩
  · rw [World.offsetsOf_exec hexec, Event.offset?]
    rcases batchWatch_append_cases hb' with ⟨rfl, b, hb, rfl⟩ | ⟨hne, hb⟩
    · rw [if_pos rfl, h.trace τ' b hb]
      rfl
    · rw [if_neg (Ne.symm hne), h.trace τ' b' hb]
      exact List.append_nil _
  · rcases batchWatch_append_cases hb' with ⟨rfl, b, hb, rfl⟩ | ⟨-, hb⟩
    · exact (h.append_offset hb ((hruns τ' n).mp hat) (hok b hb) hG hexec).2
    · exact (h.placed τ' b' hb ((hruns τ' n).mp hat)).mono (hmono.nodes n)
  · exact h.last_append hexec hkey
  · rw [hlast, Event.appendTo?] at hkey
    rcases batchWatch_append_cases hb' with ⟨rfl, b, hb, rfl⟩ | ⟨hne, hb⟩
    · obtain ⟨rfl, rfl, -, -⟩ := hok b hb
      rw [if_pos ⟨(hruns τ' n).mp hat, rfl⟩] at hkey
      obtain ⟨-, rfl⟩ := Prod.mk.inj (Option.some.inj hkey)
      exact List.getLast?_concat
    · split at hkey
      · exact absurd (Prod.mk.inj (Option.some.inj hkey)).1.symm hne
      · exact h.own τ' b' offset hb ((hruns τ' n).mp hat) hkey
  · rcases (World.did_exec_iff hexec).mp hdid with hold | hnew
    · rcases batchWatch_append_cases hb' with ⟨rfl, b, hb, rfl⟩ | ⟨-, hb⟩
      · -- nothing is appended once the acknowledgements are open
        have hcomplete := (h.opened τ' b topic' partition' offset hb hold).2.1
        have hmessage := (hok b hb).2.2.1
        rw [hcomplete, List.getElem?_eq_none le_rfl] at hmessage
        exact absurd hmessage (by simp)
      · exact h.opened τ' b' topic' partition' offset hb hold
    · cases hnew
  · rcases (World.did_exec_iff hexec).mp hdid with hold | hnew
    · rcases batchWatch_append_cases hb' with ⟨rfl, b, hb, rfl⟩ | ⟨-, hb⟩
      · exact h.expected τ' b _ _ _ _ _ hb ((hruns τ' n).mp hat) hold
      · exact h.expected τ' b' _ _ _ _ _ hb ((hruns τ' n).mp hat) hold
    · cases hnew
      rcases batchWatch_append_cases hb' with ⟨-, b, hb, rfl⟩ | ⟨hne, -⟩
      · exact (h.append_offset hb ((hruns τ n).mp hat) (hok b hb) hG hexec).1 expected rfl
      · exact absurd rfl hne

/-- **One action.** -/
theorem InPlace.exec (h : InPlace n w g) (hG : (undisturbedBatches n).act w τ a)
    (hok : batchWatch.ok (g τ) a) (hexec : World.exec τ a c w = some (r, w')) :
    InPlace n w' (Function.update g τ (batchWatch.next (g τ) a r)) := by
  by_cases happend : ∃ topic partition message origin,
      a = .node (.append topic partition message origin)
  · obtain ⟨topic, partition, message, origin, rfl⟩ := happend
    exact h.exec_append hok hG hexec
  · have hne : ∀ topic partition message origin,
        a ≠ .node (.append topic partition message origin) :=
      fun topic partition message origin heq => happend ⟨topic, partition, message, origin, heq⟩
    rw [batchWatch_next_of_ne hne, Function.update_eq_self]
    exact h.exec_other hok hne hexec

/-- The thread of the last append is in the history. -/
theorem World.exists_of_lastAppend {key : Bytes} {offset : Nat}
    (h : w.lastAppend n key = some (τ, offset)) : ∃ e ∈ w.history, e.thread = τ := by
  obtain ⟨e, he, hto⟩ := List.mem_filterMap.mp (List.mem_of_getLast? h)
  refine ⟨e, he, ?_⟩
  unfold Event.appendTo? at hto
  split at hto
  · obtain ⟨-, hto⟩ := Option.ite_none_right_eq_some.mp hto
    exact (Prod.mk.inj (Option.some.inj hto)).1
  · exact absurd hto (by simp)

/-- **The environment** gives a new thread a watch that has seen nothing. -/
theorem InPlace.env_update {s : Option BatchWatch} (h : InPlace n w g)
    (henv : World.env k e w = some (w', started))
    (hnew : ∀ b, s = some b → b.offsets = [] ∧ k = w.tasks.length)
    (hserved : ∀ request, w'.Serves k n request → request.type = .batchProduce →
      ∃ b, s = some b ∧ b.request = request) : InPlace n w' (Function.update g k s) := by
  have hmono := (World.env_mono henv).1
  have hhistory := (World.env_cases henv).1.history
  have hlast := World.lastAppend_env henv h.ran n
  have hdid : ∀ {τ : Nat} {a : Act} {r : a.Result}, w'.Did τ a r ↔ w.Did τ a r := by
    intro τ a r
    unfold World.Did
    rw [hhistory]
  -- a thread that is not the new one was there before
  have hold : ∀ {τ task}, τ ≠ k → w'.tasks[τ]? = some task → w.tasks[τ]? = some task := by
    intro τ task hne hτ
    rcases World.env_task henv hτ with hold | ⟨-, hk, -⟩
    · exact hold
    · exact absurd hk.symm hne
  have hat : ∀ {τ}, τ ≠ k → w'.RunsAt τ n → w.RunsAt τ n := by
    rintro τ hne ⟨task, htask, hnode⟩
    exact ⟨task, hold hne htask, hnode⟩
  have hcases : ∀ {τ b}, Function.update g k s τ = some b →
      (τ = k ∧ s = some b) ∨ (τ ≠ k ∧ g τ = some b) := by
    intro τ b hb
    rw [Function.update_apply] at hb
    split at hb
    · next heq => exact .inl ⟨heq, hb⟩
    · next hne => exact .inr ⟨hne, hb⟩
  -- the new thread is not in the history
  have hfresh : ∀ {b}, s = some b → ∀ e ∈ w.history, e.thread ≠ k := by
    intro b hb e he heq
    have hlt := h.ran e he
    rw [heq, (hnew b hb).2] at hlt
    exact Nat.lt_irrefl _ hlt
  refine ⟨fun e he => ?_, fun τ request hserves htype => ?_, fun τ b hb => ?_,
    fun τ b hb hruns => ?_, fun key τ offset hkey => ?_, fun τ b offset hb hruns hkey => ?_,
    fun τ b topic partition offset hb hopened => ?_,
    fun τ b topic partition message expected offset hb hruns happended => ?_⟩
  · rw [hhistory] at he
    have hsome := List.getElem?_eq_getElem (h.ran e he)
    exact (List.getElem?_eq_some_iff.mp (hmono.task hsome)).1
  · rw [Function.update_apply]
    split
    · next heq => exact hserved request (heq ▸ hserves) htype
    · next hne =>
      obtain ⟨task, htask, hnode, hrequest⟩ := hserves
      exact h.watched τ request ⟨task, hold hne htask, hnode, hrequest⟩ htype
  · unfold World.offsetsOf
    rw [hhistory]
    rcases hcases hb with ⟨rfl, hs⟩ | ⟨-, hb⟩
    · rw [(hnew b hs).1, List.filterMap_eq_nil_iff]
      intro e he
      unfold Event.offset?
      split
      · exact if_neg (hfresh hs _ he)
      · rfl
    · exact h.trace τ b hb
  · rcases hcases hb with ⟨-, hb⟩ | ⟨hne, hb⟩
    · refine ⟨0, ?_, fun i hi => ?_⟩
      · rw [(hnew b hb).1]
        rfl
      · rw [(hnew b hb).1] at hi
        exact absurd hi (Nat.not_lt_zero i)
    · exact (h.placed τ b hb (hat hne hruns)).mono (hmono.nodes n)
  · rw [hlast] at hkey
    rw [World.env_contents henv]
    exact h.last key τ offset hkey
  · rw [hlast] at hkey
    rcases hcases hb with ⟨rfl, hs⟩ | ⟨hne, hb⟩
    · obtain ⟨e, he, heq⟩ := World.exists_of_lastAppend hkey
      exact absurd heq (hfresh hs e he)
    · exact h.own τ b offset hb (hat hne hruns) hkey
  · rcases hcases hb with ⟨rfl, hs⟩ | ⟨-, hb⟩
    · exact absurd rfl (hfresh hs _ (hdid.mp hopened))
    · exact h.opened τ b topic partition offset hb (hdid.mp hopened)
  · rcases hcases hb with ⟨rfl, hs⟩ | ⟨hne, hb⟩
    · exact absurd rfl (hfresh hs _ (hdid.mp happended))
    · exact h.expected τ b _ _ _ _ _ hb (hat hne hruns) (hdid.mp happended)

/-- The watch of a new thread. -/
def Task.watch (task : Task) : Option BatchWatch :=
  match task.request? with
  | some request => if request.type = .batchProduce then some { request } else none
  | none => none

/-- Every program keeps to the order of a batch. -/
theorem follows_program (config : BrokerConfig) (task : Task) :
    Follows batchWatch (fun _ _ => True) (task.program config) task.watch := by
  obtain ⟨node, source⟩ := task
  unfold Task.watch Task.request?
  cases source with
  | client payload =>
    dsimp only
    split
    · next htype => exact follows_serve_batch payload none htype
    · exact follows_unwatched _
  | peer conn payload =>
    dsimp only
    split
    · next htype => exact follows_serve_batch payload (some conn) htype
    · exact follows_unwatched _
  | heartbeat => exact follows_unwatched _

/-- The environment appends nothing. -/
theorem InPlace.env (h : InPlace n w g) (hidle : g k = none)
    (henv : World.env k e w = some (w', started)) :
    ∃ s, InPlace n w' (Function.update g k s) ∧ (started = none → s = none) ∧
      ∀ program, started = some program → Follows batchWatch (fun _ _ => True) program s := by
  rcases (World.env_cases henv).2 with ⟨rfl, htasks⟩ | ⟨task, hk, -, -, htasks, rfl⟩
  · refine ⟨none, h.env_update henv (fun b hb => absurd hb (by simp)) ?_, fun _ => rfl,
      fun program hprogram => absurd hprogram (by simp)⟩
    -- no thread is new
    rintro request ⟨task, htask, hnode, hrequest⟩ htype
    rw [htasks] at htask
    obtain ⟨b, hb, -⟩ := h.watched k request ⟨task, htask, hnode, hrequest⟩ htype
    rw [hidle] at hb
    exact absurd hb (by simp)
  · refine ⟨task.watch, h.env_update henv (fun b hb => ⟨?_, hk⟩) ?_, fun hnone => ?_, ?_⟩
    · unfold Task.watch at hb
      split at hb
      · obtain ⟨-, hb⟩ := Option.ite_none_right_eq_some.mp hb
        rw [← Option.some.inj hb]
      · exact absurd hb (by simp)
    · rintro request ⟨task', htask', -, hrequest⟩ htype
      rw [htasks, hk, List.getElem?_append_right le_rfl, Nat.sub_self] at htask'
      obtain rfl : task = task' := Option.some.inj htask'
      refine ⟨{ request }, ?_, rfl⟩
      unfold Task.watch
      rw [hrequest]
      exact if_pos htype
    · exact absurd hnone (by simp)
    · rintro program hprogram
      rw [← Option.some.inj hprogram]
      exact follows_program _ task

end InPlace

theorem Setup.inPlace (setup : Setup) (n : Int) :
    InPlace n setup.pool.world (fun _ => none) := by
  refine ⟨fun e he => absurd he (by simp [Setup.pool]), ?_, fun _ b hb => absurd hb (by simp),
    fun _ b hb => absurd hb (by simp), fun key τ offset hkey => ?_,
    fun _ b _ hb => absurd hb (by simp), fun _ b _ _ _ hb => absurd hb (by simp),
    fun _ b _ _ _ _ _ hb => absurd hb (by simp)⟩
  · rintro τ request ⟨task, htask, -⟩
    exact absurd htask (by simp [Setup.pool])
  · exact absurd hkey (by simp [World.lastAppend, Setup.pool])

/-- The invariant in every state of a run in which batches are not disturbed. -/
theorem inPlace_of_reachable {G : Guard Act World EnvStep} {setup : Setup} {n : Int}
    {p : ClusterPool} (hG : ∀ {w τ a}, G.act w τ a → (undisturbedBatches n).act w τ a)
    (h : Reachable clusterMachine G setup.pool p) : ∃ g, InPlace n p.world g := by
  obtain ⟨g, hg, -⟩ := batchWatch.invariant_from none (J := InPlace n)
    (fun hJ hact hok hexec => hJ.exec (hG hact) hok hexec)
    (fun hJ _ hidle henv => hJ.env hidle henv) rfl (setup.inPlace n) h
  exact ⟨g, hg⟩

/-! ### Contiguous batches -/

/-- **Contiguous batches.**  Where nobody comes in between, the records that a
    BATCH_PRODUCE has appended are the first ones of its batch, at offsets `first`,
    `first + 1` and so on; and when `replicate_batch` begins, all of them are appended and
    the last offset that it has computed is that of the last record. -/
theorem batch_contiguous {setup : Setup} {n : Int} {p : ClusterPool}
    (h : Reachable clusterMachine (undisturbedBatches n) setup.pool p) {τ : Nat}
    {request : Request} (hserves : p.world.Serves τ n request)
    (htype : request.type = .batchProduce) :
    ∃ first, p.world.offsetsOf τ = List.range' first (p.world.offsetsOf τ).length ∧
      (∀ i < (p.world.offsetsOf τ).length, ∃ message, request.messages[i]? = some message ∧
        p.world.Holds n request.topic request.partition (first + i) message) ∧
      ∀ topic partition lastOffset,
        p.world.Did τ (.node (.openAcks topic partition lastOffset)) () →
        (p.world.offsetsOf τ).length = request.messages.length ∧
          (p.world.offsetsOf τ).getLast? = some lastOffset := by
  obtain ⟨g, hg⟩ := inPlace_of_reachable (fun h => h) h
  obtain ⟨b, hb, rfl⟩ := hg.watched τ request hserves htype
  obtain ⟨first, hoffsets, hheld⟩ := hg.placed τ b hb hserves.runsAt
  rw [hg.trace τ b hb]
  refine ⟨first, hoffsets, fun i hi => ?_, fun topic partition lastOffset hdid => ?_⟩
  · obtain ⟨-, message, hmessage, hget⟩ := hheld i hi
    exact ⟨message, hmessage, hget⟩
  · obtain ⟨hne, hcomplete, rfl⟩ := hg.opened τ b topic partition lastOffset hb hdid
    have hpos : 0 < b.offsets.length := List.length_pos_of_ne_nil hne
    have hsmall := (hheld (b.offsets.length - 1) (by omega)).1
    have hhead : b.offsets.headD 0 = first := by
      rw [hoffsets, List.headD_eq_head?_getD, List.head?_range', if_neg (by omega)]
      rfl
    refine ⟨hcomplete, ?_⟩
    unfold BatchWatch.lastOffset
    rw [hhead, ← hcomplete, Nat.mod_eq_of_lt (by omega), hoffsets, List.getLast?_range',
      List.length_range', if_neg (by omega)]

/-- The check for `undisturbedBatches`. -/
def undisturbedBatches? (n : Int) (p : ClusterPool) : Label Choice EnvStep → Bool
  | .run τ _ =>
    match nextAct? p τ with
    | some (.node (.append topic partition _ (.batch _))) =>
      (p.world.lastAppend n (makeKey topic partition)).any (fun last => decide (last.1 = τ))
    | _ => true
  | .env _ => true

/-- The check decides the guard. -/
theorem undisturbedBatches_allows (n : Int) (p : ClusterPool) (l : Label Choice EnvStep)
    (h : undisturbedBatches? n p l = true) : (undisturbedBatches n).Allows p l := by
  cases l with
  | run τ c =>
    rintro a k hprog topic partition message expected rfl _
    rw [undisturbedBatches?, nextAct?_eq hprog] at h
    obtain ⟨⟨τ', offset⟩, hlast, hτ⟩ := (Option.any_eq_true _ _).mp h
    obtain rfl := of_decide_eq_true hτ
    exact ⟨offset, hlast⟩
  | env e => trivial

/-- Produce the records `B` and `C` to partition 0 of topic `t` in a batch. -/
def batchOfTwo : Bytes :=
  encodeRequest { type := .batchProduce, topic := ofString "t", messages := [[66], [67]] }

/-- The batch arrives as it was sent. -/
theorem parse_batchOfTwo : parseRequest batchOfTwo
    = { type := .batchProduce, topic := ofString "t", messages := [[66], [67]] } := by
  decide +kernel

theorem serves_batchOfTwo {w : World} {τ : Nat}
    (h : w.tasks[τ]? = some ⟨1, .client batchOfTwo⟩) :
    w.Serves τ 1 { type := .batchProduce, topic := ofString "t", messages := [[66], [67]] } :=
  ⟨_, h, rfl, congrArg some parse_batchOfTwo⟩

/-- A batch of two records on one broker. -/
theorem batch_contiguous_two : ∃ p,
    Reachable clusterMachine (undisturbedBatches 1) oneBroker.pool p ∧ ∃ first,
      p.world.offsetsOf 0 = List.range' first 2 ∧
      p.world.Holds 1 (ofString "t") 0 first [66] ∧
      p.world.Holds 1 (ofString "t") 0 (first + 1) [67] := by
  obtain ⟨p, hreach, htask, hlength⟩ := clusterMachine.exists_reachable
    (undisturbedBatches_allows 1)
    (fun p => p.world.tasks[0]? = some ⟨1, .client batchOfTwo⟩ ∧
      (p.world.offsetsOf 0).length = 2)
    oneBroker.pool ([.env (.client 1 batchOfTwo)] ++ go 0 3) (by decide +kernel)
  obtain ⟨first, hoffsets, hheld, -⟩ := batch_contiguous hreach (serves_batchOfTwo htask) rfl
  rw [hlength] at hoffsets hheld
  obtain ⟨m₀, h₀, hm₀⟩ := hheld 0 (by decide)
  obtain ⟨m₁, h₁, hm₁⟩ := hheld 1 (by decide)
  obtain rfl := Option.some.inj h₀
  obtain rfl := Option.some.inj h₁
  exact ⟨p, hreach, first, hoffsets, hm₀, hm₁⟩

/-- A produce between the two appends of a batch: the second record of the batch is at
    offset 2, `replicate_batch` waits for acknowledgements of offset 1. -/
theorem batch_torn : ∃ p, Reachable clusterMachine (staysLeader 1) oneBroker.pool p ∧
    p.world.offsetsOf 0 = [0, 2] ∧
    (nextAct? p 0) = some (.node (.openAcks (ofString "t") 0 1)) ∧
    (p.world.nodes 1).contents (makeKey (ofString "t") 0) = [[66], [65], [67]] :=
  clusterMachine.exists_reachable (staysLeader_allows 1)
    (fun p => p.world.offsetsOf 0 = [0, 2] ∧
      (nextAct? p 0) = some (.node (.openAcks (ofString "t") 0 1)) ∧
      (p.world.nodes 1).contents (makeKey (ofString "t") 0) = [[66], [65], [67]])
    oneBroker.pool
    ([.env (.client 1 batchOfTwo)] ++ go 0 2 ++ [.env (.client 1 (produceOf [65]))] ++ go 1 2 ++
      go 0 5)
    (by decide +kernel)

end StreamingPlatform
