import StreamingPlatform.Broker.Connection
import Mathlib.Logic.Relation
import Mathlib.Data.List.Perm.Basic
import Mathlib.Data.List.Range

namespace StreamingPlatform

open ByteString

/-!
# Network — the worker pool (`tcp_server.cpp`)

One thread accepts connections and puts them into a queue, a fixed number of workers take them
from there and serve them, and `stop` ends all of that.  The queue is guarded by a mutex, and
workers sleep on a condition variable while it is empty; `running` is an atomic that is read and
written without the mutex.

Every thread is given by the place that it has reached in its function, and a `Move` is what one
of them does next.  What other threads could see in between is a move of its own: the mutex is
not held over more than one move but between the test of a worker and its sleep, where `stop` can
come in between (`Worker.wait`).  Accepted connections are numbered; the numbers of descriptors,
which the system uses again, play no role.

In every reachable state every accepted connection is in exactly one place
(`connections_once`): it is in the queue, in the hands of one thread, or closed, once.
Connections are served in the order in which they were accepted, and on each of them the workers
answer the requests that `handleClient` processes (`answered_eq_processed`).  How long
`process_request` takes over a request is open, and whether it returns.
-/

/-! ### The threads -/

/-- Where a worker is in `worker_loop` and `handle_client`. -/
inductive Worker where
  /-- It needs the mutex, at the top of the loop or after it has been woken. -/
  | lock
  /-- It has the mutex and evaluates the condition of `wait`. -/
  | test
  /-- It has found the condition false and is about to sleep; it still has the mutex. -/
  | wait
  | asleep
  /-- It has found the condition true and looks into the queue. -/
  | pick
  /-- At `while (running)`. -/
  | serve (id : Nat)
  | read (id : Nat)
  /-- In `process_request`, or writing the response. -/
  | answer (id : Nat) (payload : Bytes)
  | close (id : Nat)
  | returned
  deriving DecidableEq, Repr

/-- Where the accepting thread is in `accept_loop`. -/
inductive Acceptor where
  /-- At `while (running)`. -/
  | test
  | poll
  | accept
  /-- `accept` has failed. -/
  | failed
  | push (id : Nat)
  | notify
  | returned
  deriving DecidableEq, Repr

/-- Where the thread that calls `stop` is. -/
inductive Stopper where
  /-- It has not been called. -/
  | idle
  | notify
  | shutdown
  | joinAcceptor
  /-- So many workers have been joined. -/
  | joinWorkers (joined : Nat)
  | lock
  | drain
  | returned
  deriving DecidableEq, Repr

/-- Who can hold the mutex from one move to the next. -/
inductive Holder where
  | worker (i : Nat)
  | stopper
  deriving DecidableEq, Repr

/-- `TCPServer`, after `start`. -/
structure TCPServer where
  workers : List Worker
  acceptor : Acceptor := .test
  stopper : Stopper := .idle
  running : Bool := true
  /-- The listening socket is open. -/
  listening : Bool := true
  pendingClients : List Nat := []
  pendingMutex : Option Holder := none
  /-- How many connections have been accepted. -/
  accepted : Nat := 0
  /-- The connections that workers have taken from the queue, in this order. -/
  taken : List Nat := []
  /-- The connections that have been closed, in this order. -/
  closed : List Nat := []
  /-- What workers have read, and from which connection, in this order. -/
  received : List (Nat × Bytes) := []
  /-- The requests that have been answered, in this order. -/
  answered : List (Nat × Bytes) := []
  deriving DecidableEq, Repr

/-- What a thread does next, and what is open about it. -/
inductive Move where
  | worker (i : Nat)
  /-- `read_request` of worker `i` returns; the empty payload stands for the end. -/
  | read (i : Nat) (payload : Bytes)
  /-- `process_request` of worker `i` returns, and its response is written. -/
  | answered (i : Nat)
  /-- Worker `i` wakes up without having been notified. -/
  | wake (i : Nat)
  | acceptor
  | poll (ready : Bool)
  | accept (ok : Bool)
  /-- `notify_one` wakes a worker. -/
  | notify (i : Nat)
  | stopper
  deriving DecidableEq, Repr

/-! ### The moves -/

/-- The move of a worker that `notify_all` reaches. -/
def Worker.notified : Worker → Worker
  | .asleep => .lock
  | place => place

variable {allowed : Move → Prop} {m : Move} {id workerCount : Nat} {rest : List Nat} {w : Worker}

namespace TCPServer

/-- `start` with so many workers. -/
def start (workerCount : Nat) : TCPServer := { workers := List.replicate workerCount .lock }

/-- Worker `i` gets to another place. -/
def goTo (s : TCPServer) (i : Nat) (place : Worker) : TCPServer :=
  { s with workers := s.workers.set i place }

/-- `worker_loop` and `handle_client`. -/
def workerLoop (s : TCPServer) (i : Nat) : Worker → Option TCPServer
  | .lock =>
    if s.pendingMutex = none then
      some { s.goTo i .test with pendingMutex := some (.worker i) }
    else none
  | .test =>
    some (s.goTo i (if s.running = false ∨ s.pendingClients ≠ [] then .pick else .wait))
  -- the mutex is given back and sleep begins in one step
  | .wait => some { s.goTo i .asleep with pendingMutex := none }
  | .asleep => none
  | .pick =>
    match s.pendingClients with
    | [] => some { s.goTo i (if s.running then .lock else .returned) with pendingMutex := none }
    | id :: rest =>
      some { s.goTo i (.serve id) with
        pendingMutex := none, pendingClients := rest, taken := s.taken ++ [id] }
  | .serve id => some (s.goTo i (if s.running then .read id else .close id))
  | .read _ | .answer _ _ => none
  | .close id => some { s.goTo i .lock with closed := s.closed ++ [id] }
  | .returned => none

/-- The loop of `handle_client` after `read_request`. -/
def requestRead (s : TCPServer) (i : Nat) (payload : Bytes) : Worker → Option TCPServer
  | .read id =>
    some { s.goTo i (if payload = [] then .close id else .answer id payload) with
      received := s.received ++ [(id, payload)] }
  | _ => none

/-- The loop of `handle_client` after `send_response`: requests between brokers are the last
    ones on their connection. -/
def requestAnswered (s : TCPServer) (i : Nat) : Worker → Option TCPServer
  | .answer id payload =>
    some { s.goTo i (if (parseRequest payload).type.isInterBroker then .close id else .serve id)
      with answered := s.answered ++ [(id, payload)] }
  | _ => none

/-- `accept_loop`, where nothing is open about it. -/
def acceptLoop (s : TCPServer) : Option TCPServer :=
  match s.acceptor with
  | .test => some { s with acceptor := if s.running then .poll else .returned }
  | .failed => some { s with acceptor := if s.running then .test else .returned }
  | .push id =>
    if s.pendingMutex = none then
      some { s with acceptor := .notify, pendingClients := s.pendingClients ++ [id] }
    else none
  -- nobody is there to be notified
  | .notify => if .asleep ∈ s.workers then none else some { s with acceptor := .test }
  | _ => none

/-- `stop`. -/
def stop (s : TCPServer) : Option TCPServer :=
  match s.stopper with
  | .idle => some { s with stopper := .notify, running := false }
  | .notify => some { s with stopper := .shutdown, workers := s.workers.map Worker.notified }
  | .shutdown => some { s with stopper := .joinAcceptor, listening := false }
  | .joinAcceptor =>
    if s.acceptor = .returned then some { s with stopper := .joinWorkers 0 } else none
  | .joinWorkers joined =>
    if joined < s.workers.length then
      if s.workers[joined]? = some .returned then
        some { s with stopper := .joinWorkers (joined + 1) }
      else none
    else some { s with stopper := .lock }
  | .lock =>
    if s.pendingMutex = none then
      some { s with stopper := .drain, pendingMutex := some .stopper }
    else none
  | .drain =>
    match s.pendingClients with
    | [] => some { s with stopper := .returned, pendingMutex := none }
    | id :: rest => some { s with pendingClients := rest, closed := s.closed ++ [id] }
  | .returned => none

/-- One move; `none` when it is not possible now. -/
def move (s : TCPServer) : Move → Option TCPServer
  | .worker i => (s.workers[i]?).bind (s.workerLoop i)
  | .read i payload => (s.workers[i]?).bind (s.requestRead i payload)
  | .answered i => (s.workers[i]?).bind (s.requestAnswered i)
  | .wake i => if s.workers[i]? = some .asleep then some (s.goTo i .lock) else none
  | .acceptor => s.acceptLoop
  -- a listener that is closed is never ready, and nothing can be accepted on it
  | .poll ready =>
    if s.acceptor = .poll ∧ (ready = true → s.listening = true) then
      some { s with acceptor := if ready then .accept else .test }
    else none
  | .accept ok =>
    if s.acceptor = .accept ∧ (ok = true → s.listening = true) then
      some (if ok then { s with acceptor := .push s.accepted, accepted := s.accepted + 1 }
        else { s with acceptor := .failed })
    else none
  | .notify i =>
    if s.acceptor = .notify ∧ s.workers[i]? = some .asleep then
      some { s.goTo i .lock with acceptor := .test }
    else none
  | .stopper => s.stop

/-- The states that moves lead to, of those that `allowed` admits. -/
def Reaches (allowed : Move → Prop) : TCPServer → TCPServer → Prop :=
  Relation.ReflTransGen (fun s s' => ∃ m, allowed m ∧ s.move m = some s')

/-- Moves, one after another. -/
def run (s : TCPServer) (ms : List Move) : Option TCPServer := ms.foldlM move s

theorem reaches_of_run {ms : List Move} {s s' : TCPServer} (hallowed : ∀ m ∈ ms, allowed m)
    (h : s.run ms = some s') : Reaches allowed s s' := by
  induction ms generalizing s with
  | nil =>
    obtain rfl := Option.some.inj h
    exact .refl
  | cons m ms ih =>
    obtain ⟨s₁, hfirst, hrest⟩ := Option.bind_eq_some_iff.mp h
    exact .head ⟨m, hallowed m List.mem_cons_self, hfirst⟩
      (ih (fun m' hm' => hallowed m' (List.mem_cons_of_mem _ hm')) hrest)

/-- Moves that are possible lead to a state, and what is seen to be true there is true of it. -/
theorem exists_reaches (allowed : Move → Prop) (P : TCPServer → Prop) [DecidablePred P]
    (s : TCPServer) (ms : List Move) (hallowed : ∀ m ∈ ms, allowed m)
    (h : (s.run ms).any (fun s' => decide (P s')) = true) : ∃ s', Reaches allowed s s' ∧ P s' := by
  obtain ⟨s', hrun, hP⟩ := (Option.any_eq_true _ _).mp h
  exact ⟨s', reaches_of_run hallowed hrun, of_decide_eq_true hP⟩

/-- An invariant of all moves. -/
theorem Reaches.invariant {P : TCPServer → Prop}
    (hmove : ∀ {s m s'}, P s → allowed m → s.move m = some s' → P s') {s s' : TCPServer}
    (h : Reaches allowed s s') (hs : P s) : P s' := by
  induction h with
  | refl => exact hs
  | tail _ hstep ih =>
    obtain ⟨m, hm, hmove'⟩ := hstep
    exact hmove ih hm hmove'

end TCPServer

/-! ### What moves do -/

/-- The connection that a worker has in its hands. -/
def Worker.held : Worker → List Nat
  | .serve id | .read id | .answer id _ | .close id => [id]
  | _ => []

/-- It is in `process_request`. -/
def Worker.answering : Worker → Bool
  | .answer _ _ => true
  | _ => false

/-- It sleeps, or is about to. -/
def Worker.sleepy : Worker → Bool
  | .wait | .asleep => true
  | _ => false

/-- It has the mutex. -/
def Worker.locks : Worker → Bool
  | .test | .wait | .pick => true
  | _ => false

/-- The connection that the accepting thread has in its hands. -/
def Acceptor.held : Acceptor → List Nat
  | .push id => [id]
  | _ => []

namespace TCPServer

/-- How many workers have been joined, and before them the accepting thread. -/
def joined? (s : TCPServer) : Option Nat :=
  match s.stopper with
  | .joinWorkers joined => some joined
  | .lock | .drain | .returned => some s.workers.length
  | _ => none

/-- The accepting thread and the first `n` workers have returned. -/
def Joined (s : TCPServer) (n : Nat) : Prop :=
  s.acceptor = .returned ∧ ∀ i < n, ∀ w, s.workers[i]? = some w → w = .returned

/-- `stop` has notified all workers. -/
def Notified (s : TCPServer) : Prop := s.stopper ≠ .idle ∧ s.stopper ≠ .notify

/-- What a move changes, and what is known of the places that it leads from and to.  The
    invariants below go by these cases. -/
inductive Effect (s : TCPServer) : Move → TCPServer → Prop where
  /-- A worker without a connection gets to another place. -/
  | place {i : Nat} {old new : Worker} {mutex : Option Holder} (hi : s.workers[i]? = some old)
      (hold : old.held = []) (hnew : new.held = []) (hbusy : old ≠ .returned)
      (hmutex : mutex = none ∨ mutex = some (.worker i) ∧ new.locks = true ∨
        mutex = s.pendingMutex ∧ new.locks = true)
      (hsleepy : old.sleepy = true → new.sleepy = true)
      (hawake : s.running = false → old.sleepy = false → new.sleepy = false) :
      Effect s (.worker i) { s.goTo i new with pendingMutex := mutex }
  | take {i id : Nat} {rest : List Nat} (hi : s.workers[i]? = some .pick)
      (hpending : s.pendingClients = id :: rest) :
      Effect s (.worker i) { s.goTo i (.serve id) with
        pendingMutex := none, pendingClients := rest, taken := s.taken ++ [id] }
  | serve {i id : Nat} (hi : s.workers[i]? = some (.serve id)) :
      Effect s (.worker i) (s.goTo i (if s.running then .read id else .close id))
  | close {i id : Nat} (hi : s.workers[i]? = some (.close id)) :
      Effect s (.worker i) { s.goTo i .lock with closed := s.closed ++ [id] }
  | read {i id : Nat} {payload : Bytes} (hi : s.workers[i]? = some (.read id)) :
      Effect s (.read i payload)
        { s.goTo i (if payload = [] then .close id else .answer id payload) with
          received := s.received ++ [(id, payload)] }
  | answered {i id : Nat} {payload : Bytes} (hi : s.workers[i]? = some (.answer id payload)) :
      Effect s (.answered i)
        { s.goTo i (if (parseRequest payload).type.isInterBroker then .close id else .serve id)
          with answered := s.answered ++ [(id, payload)] }
  | wake {i : Nat} (hi : s.workers[i]? = some .asleep) : Effect s (.wake i) (s.goTo i .lock)
  /-- The accepting thread gets to another place with the same in its hands. -/
  | accepting {m : Move} {place : Acceptor} (hbusy : s.acceptor ≠ .returned)
      (hheld : place.held = s.acceptor.held) : Effect s m { s with acceptor := place }
  | accept {m : Move} (hat : s.acceptor = .accept) :
      Effect s m { s with acceptor := .push s.accepted, accepted := s.accepted + 1 }
  | push {m : Move} {id : Nat} (hat : s.acceptor = .push id) :
      Effect s m { s with acceptor := .notify, pendingClients := s.pendingClients ++ [id] }
  | notify {i : Nat} (hat : s.acceptor = .notify) (hi : s.workers[i]? = some .asleep) :
      Effect s (.notify i) { s.goTo i .lock with acceptor := .test }
  /-- `stop` gets on, past threads that have returned. -/
  | stopping {place : Stopper} {running listening : Bool} {mutex : Option Holder}
      (hjoined : (∀ n, s.joined? = some n → s.Joined n) →
        ∀ n, ({ s with stopper := place }).joined? = some n → s.Joined n)
      (hempty : place = .returned → s.pendingClients = [])
      (hmutex : mutex = none ∨ mutex = some .stopper ∧ place = .drain ∨
        mutex = s.pendingMutex ∧ s.stopper ≠ .drain)
      (hrunning : running = false ∨ s.stopper ≠ .idle ∧ running = s.running)
      (hnotified : s.Notified → running = s.running ∧ place ≠ .idle ∧ place ≠ .notify) :
      Effect s .stopper { s with
        stopper := place, running := running, listening := listening, pendingMutex := mutex }
  | notifyAll (hat : s.stopper = .notify) : Effect s .stopper { s with
      stopper := .shutdown, workers := s.workers.map Worker.notified }
  | drain {id : Nat} {rest : List Nat} (hat : s.stopper = .drain)
      (hpending : s.pendingClients = id :: rest) :
      Effect s .stopper { s with pendingClients := rest, closed := s.closed ++ [id] }

namespace Effect

variable {s s' : TCPServer} {i : Nat}

/-- One step of `worker_loop`. -/
theorem of_workerLoop {place : Worker} (hi : s.workers[i]? = some place)
    (h : s.workerLoop i place = some s') : Effect s (.worker i) s' := by
  cases place with
  | lock =>
    obtain ⟨-, hs'⟩ := Option.ite_none_right_eq_some.mp h
    rw [← Option.some.inj hs']
    exact .place hi rfl rfl Worker.noConfusion (.inr (.inl ⟨rfl, rfl⟩))
      (fun hsleepy => by cases hsleepy) (fun _ _ => rfl)
  | test =>
    rw [← Option.some.inj h]
    refine .place hi rfl (by split <;> rfl) Worker.noConfusion
      (.inr (.inr ⟨rfl, by split <;> rfl⟩)) (fun hsleepy => by cases hsleepy) (fun hrunning _ => ?_)
    -- it does not sleep when `running` is false
    rw [if_pos (.inl hrunning)]
    rfl
  | wait =>
    rw [← Option.some.inj h]
    exact .place hi rfl rfl Worker.noConfusion (.inl rfl) (fun _ => rfl)
      (fun _ hsleepy => by cases hsleepy)
  | pick =>
    cases hpending : s.pendingClients with
    | nil =>
      simp only [workerLoop, hpending] at h
      rw [← Option.some.inj h]
      exact .place hi rfl (by split <;> rfl) Worker.noConfusion (.inl rfl)
        (fun hsleepy => by cases hsleepy) (fun _ _ => by split <;> rfl)
    | cons id rest =>
      simp only [workerLoop, hpending] at h
      rw [← Option.some.inj h]
      exact .take hi hpending
  | serve id =>
    rw [← Option.some.inj h]
    exact .serve hi
  | close id =>
    rw [← Option.some.inj h]
    exact .close hi
  | asleep | read | answer | returned => cases h

/-- One step of `accept_loop`. -/
theorem of_acceptLoop (h : s.acceptLoop = some s') : Effect s m s' := by
  have hbusy : ∀ {place : Acceptor}, s.acceptor = place → place ≠ .returned →
      s.acceptor ≠ .returned := fun hat hne => hat ▸ hne
  unfold acceptLoop at h
  split at h
  · next hat =>
    rw [← Option.some.inj h]
    exact .accepting (hbusy hat Acceptor.noConfusion) (by rw [hat]; split <;> rfl)
  · next hat =>
    rw [← Option.some.inj h]
    exact .accepting (hbusy hat Acceptor.noConfusion) (by rw [hat]; split <;> rfl)
  · next hat =>
    obtain ⟨-, hs'⟩ := Option.ite_none_right_eq_some.mp h
    rw [← Option.some.inj hs']
    exact .push hat
  · next hat =>
    obtain ⟨-, hs'⟩ := Option.ite_none_left_eq_some.mp h
    rw [← Option.some.inj hs']
    exact .accepting (hbusy hat Acceptor.noConfusion) (by rw [hat]; rfl)
  · cases h

/-- A step of `stop` that leaves the mutex alone, before the workers have been joined. -/
theorem of_step {place : Stopper} {listening : Bool} (hidle : s.stopper ≠ .idle)
    (hdrain : s.stopper ≠ .drain) (hplace : place ≠ .idle ∧ place ≠ .notify ∧ place ≠ .returned)
    (hjoined : (∀ n, s.joined? = some n → s.Joined n) →
      ∀ n, ({ s with stopper := place }).joined? = some n → s.Joined n) :
    Effect s .stopper { s with stopper := place, listening := listening } :=
  .stopping hjoined (fun hreturned => absurd hreturned hplace.2.2) (.inr (.inr ⟨rfl, hdrain⟩))
    (.inr ⟨hidle, rfl⟩) (fun _ => ⟨rfl, hplace.1, hplace.2.1⟩)

/-- One step of `stop`. -/
theorem of_stop (h : s.stop = some s') : Effect s .stopper s' := by
  -- before the joins begin there is nothing to say about joined threads
  have hnever : ∀ {place : Stopper}, ({ s with stopper := place }).joined? = none →
      (∀ n, s.joined? = some n → s.Joined n) →
        ∀ n, ({ s with stopper := place }).joined? = some n → s.Joined n :=
    fun hnone _ n hn => by cases hnone.symm.trans hn
  unfold stop at h
  split at h
  · next hat =>
    rw [← Option.some.inj h]
    exact .stopping (hnever rfl) Stopper.noConfusion
      (.inr (.inr ⟨rfl, by rw [hat]; exact Stopper.noConfusion⟩)) (.inl rfl)
      (fun hnotified => absurd hat hnotified.1)
  · next hat =>
    rw [← Option.some.inj h]
    exact .notifyAll hat
  · next hat =>
    rw [← Option.some.inj h]
    exact of_step (by rw [hat]; exact Stopper.noConfusion) (by rw [hat]; exact Stopper.noConfusion)
      (by decide) (hnever rfl)
  · next hat =>
    obtain ⟨hreturned, hs'⟩ := Option.ite_none_right_eq_some.mp h
    rw [← Option.some.inj hs']
    -- the accept thread has returned, and no worker is joined yet
    refine of_step (by rw [hat]; exact Stopper.noConfusion)
      (by rw [hat]; exact Stopper.noConfusion) (by decide)
      (fun _ n hn => ⟨hreturned, fun i hi => ?_⟩)
    rw [← Option.some.inj hn] at hi
    exact absurd hi (Nat.not_lt_zero i)
  · next joined hat =>
    have hbefore : s.joined? = some joined := by
      unfold joined?
      rw [hat]
    have hidle : s.stopper ≠ .idle := by rw [hat]; exact Stopper.noConfusion
    have hdrain : s.stopper ≠ .drain := by rw [hat]; exact Stopper.noConfusion
    split at h
    -- one more worker has returned
    · obtain ⟨hnext, hs'⟩ := Option.ite_none_right_eq_some.mp h
      rw [← Option.some.inj hs']
      refine of_step hidle hdrain ⟨Stopper.noConfusion, Stopper.noConfusion, Stopper.noConfusion⟩
        (fun hold n hn => ?_)
      obtain ⟨hreturned, hworkers⟩ := hold joined hbefore
      refine ⟨hreturned, fun i hi w hw => ?_⟩
      rw [← Option.some.inj hn] at hi
      rcases Nat.lt_succ_iff_lt_or_eq.mp hi with hlt | rfl
      · exact hworkers i hlt w hw
      · rw [hnext] at hw
        exact (Option.some.inj hw).symm
    · next hall =>
      rw [← Option.some.inj h]
      -- all workers are joined
      refine of_step hidle hdrain (by decide) (fun hold n hn => ?_)
      obtain ⟨hreturned, hworkers⟩ := hold joined hbefore
      refine ⟨hreturned, fun i hi w hw => hworkers i ?_ w hw⟩
      have hn : s.workers.length = n := Option.some.inj hn
      omega
  · next hat =>
    obtain ⟨-, hs'⟩ := Option.ite_none_right_eq_some.mp h
    rw [← Option.some.inj hs']
    refine .stopping (fun hold n hn => hold n ?_) Stopper.noConfusion (.inr (.inl ⟨rfl, rfl⟩))
      (.inr ⟨by rw [hat]; exact Stopper.noConfusion, rfl⟩)
      (fun _ => ⟨rfl, Stopper.noConfusion, Stopper.noConfusion⟩)
    unfold joined?
    rw [hat]
    exact hn
  · next hat =>
    split at h
    · next hnone =>
      rw [← Option.some.inj h]
      refine .stopping (fun hold n hn => hold n ?_) (fun _ => hnone) (.inl rfl)
        (.inr ⟨by rw [hat]; exact Stopper.noConfusion, rfl⟩)
        (fun _ => ⟨rfl, Stopper.noConfusion, Stopper.noConfusion⟩)
      unfold joined?
      rw [hat]
      exact hn
    · next hpending =>
      rw [← Option.some.inj h]
      -- a connection that no worker has taken is closed
      exact .drain hat hpending
  · cases h

end Effect

variable {s s' : TCPServer}

/-- **Every move** has one of these effects. -/
theorem move_effect (h : s.move m = some s') : Effect s m s' := by
  cases m with
  | worker i =>
    obtain ⟨place, hi, hloop⟩ := Option.bind_eq_some_iff.mp h
    exact .of_workerLoop hi hloop
  | read i payload =>
    obtain ⟨place, hi, hread⟩ := Option.bind_eq_some_iff.mp h
    unfold requestRead at hread
    split at hread
    · rw [← Option.some.inj hread]
      exact .read hi
    · cases hread
  | answered i =>
    obtain ⟨place, hi, hanswered⟩ := Option.bind_eq_some_iff.mp h
    unfold requestAnswered at hanswered
    split at hanswered
    · rw [← Option.some.inj hanswered]
      exact .answered hi
    · cases hanswered
  | wake i =>
    obtain ⟨hi, hs'⟩ := Option.ite_none_right_eq_some.mp h
    rw [← Option.some.inj hs']
    exact .wake hi
  | acceptor => exact .of_acceptLoop h
  | poll ready =>
    obtain ⟨⟨hat, -⟩, hs'⟩ := Option.ite_none_right_eq_some.mp h
    rw [← Option.some.inj hs']
    exact .accepting (by rw [hat]; exact Acceptor.noConfusion) (by rw [hat]; split <;> rfl)
  | accept ok =>
    obtain ⟨⟨hat, -⟩, hs'⟩ := Option.ite_none_right_eq_some.mp h
    rw [← Option.some.inj hs']
    split
    · exact .accept hat
    · exact .accepting (by rw [hat]; exact Acceptor.noConfusion) (by rw [hat]; rfl)
  | notify i =>
    obtain ⟨⟨hat, hi⟩, hs'⟩ := Option.ite_none_right_eq_some.mp h
    rw [← Option.some.inj hs']
    exact .notify hat hi
  | stopper => exact .of_stop h

/-- No worker is added and none is lost. -/
theorem length_move (h : s.move m = some s') : s'.workers.length = s.workers.length := by
  cases move_effect h with
  | place | take | serve | close | read | answered | wake | notify => exact List.length_set
  | notifyAll => exact List.length_map _
  | accepting | accept | push | stopping | drain => rfl

end TCPServer

/-! ### Where a connection is -/

theorem Worker.held_notified (place : Worker) : place.notified.held = place.held := by
  cases place <;> rfl

/-- Replacing an entry of a list, seen through `flatMap`. -/
theorem perm_flatMap_set {α β : Type} (f : α → List β) {l : List α} {i : Nat} {old : α}
    (h : l[i]? = some old) (new : α) :
    ((l.set i new).flatMap f ++ f old).Perm (l.flatMap f ++ f new) := by
  induction l generalizing i with
  | nil => cases h
  | cons a l ih =>
    cases i with
    | zero =>
      obtain rfl : a = old := Option.some.inj h
      rw [List.set_cons_zero, List.flatMap_cons, List.flatMap_cons, List.append_assoc,
        List.append_assoc]
      refine (List.perm_append_comm_assoc _ _ _).trans ?_
      rw [← List.append_assoc, ← List.append_assoc]
      exact List.perm_append_comm.trans (by rw [List.append_assoc])
    | succ i =>
      rw [List.set_cons_succ, List.flatMap_cons, List.flatMap_cons, List.append_assoc,
        List.append_assoc]
      exact (ih h).append_left _

/-- Replacing an entry of a list, when entries are counted. -/
theorem countP_set {α : Type} (p : α → Bool) {l : List α} {i : Nat} {old : α}
    (h : l[i]? = some old) (new : α) :
    (l.set i new).countP p + (if p old then 1 else 0)
      = l.countP p + if p new then 1 else 0 := by
  obtain ⟨hi, rfl⟩ := List.getElem?_eq_some_iff.mp h
  have hpos : p l[i] = true → 0 < l.countP p := fun hold =>
    List.countP_pos_iff.mpr ⟨_, List.getElem_mem hi, hold⟩
  rw [List.countP_set hi]
  cases hold : p l[i] with
  | false => simp
  | true =>
    have := hpos hold
    simp only [if_true]
    omega

namespace TCPServer

/-- The connections in the hands of workers. -/
def inHands (s : TCPServer) : List Nat := s.workers.flatMap Worker.held

/-- What holds whatever the threads do. -/
structure Sound (s : TCPServer) : Prop where
  /-- Every connection is in one place. -/
  custody : (s.closed ++ s.inHands ++ s.pendingClients ++ s.acceptor.held).Perm
    (List.range s.accepted)
  /-- Connections are taken in their order; those that `stop` closes come after all of them. -/
  order : ∃ drained, s.taken ++ drained ++ s.pendingClients ++ s.acceptor.held
    = List.range s.accepted ∧ (drained ≠ [] → ∀ w ∈ s.workers, w = .returned)
  /-- Threads that have been joined have returned. -/
  joined : ∀ n, s.joined? = some n → s.Joined n
  /-- When `stop` has returned, nothing is left in the queue. -/
  empty : s.stopper = .returned → s.pendingClients = []

namespace Sound

variable {s s' : TCPServer} {i : Nat} {old new : Worker}

/-! ### Moves of workers -/

/-- While a worker is at work, `stop` has closed nothing. -/
theorem order_of_busy (hs : s.Sound) (hi : s.workers[i]? = some old) (hbusy : old ≠ .returned) :
    s.taken ++ s.pendingClients ++ s.acceptor.held = List.range s.accepted := by
  obtain ⟨drained, hrange, hdone⟩ := hs.order
  by_cases hnone : drained = []
  · rw [hnone, List.append_nil] at hrange
    exact hrange
  · exact absurd (hdone hnone old (List.mem_of_getElem? hi)) hbusy

/-- A worker that is at work has not been joined. -/
theorem joined_goTo (hs : s.Sound) (hi : s.workers[i]? = some old) (hbusy : old ≠ .returned)
    (n : Nat) (hn : (s.goTo i new).joined? = some n) :
    s.acceptor = .returned ∧
      ∀ j < n, ∀ w, (s.workers.set i new)[j]? = some w → w = .returned := by
  have hsame : (s.goTo i new).joined? = s.joined? := by
    unfold joined? goTo
    dsimp only
    rw [List.length_set]
  rw [hsame] at hn
  obtain ⟨hacceptor, hworkers⟩ := hs.joined n hn
  refine ⟨hacceptor, fun j hj w hw => ?_⟩
  by_cases hij : i = j
  · subst hij
    exact absurd (hworkers i hj old hi) hbusy
  · rw [List.getElem?_set_ne hij] at hw
    exact hworkers j hj w hw

/-- It gets to another place with the same in its hands. -/
theorem place (hs : s.Sound) (hi : s.workers[i]? = some old) (hbusy : old ≠ .returned)
    (new : Worker) (hheld : new.held = old.held) (mutex : Option Holder) :
    ({ s.goTo i new with pendingMutex := mutex }).Sound := by
  refine ⟨?_, ⟨[], ?_, fun h => absurd rfl h⟩, hs.joined_goTo hi hbusy, hs.empty⟩
  · have hperm := perm_flatMap_set Worker.held hi new
    rw [hheld, List.perm_append_right_iff] at hperm
    exact (((hperm.append_left _).append_right _).append_right _).trans hs.custody
  · rw [List.append_nil]
    exact hs.order_of_busy hi hbusy

/-- It takes a connection from the queue. -/
theorem take (hs : s.Sound) (hi : s.workers[i]? = some .pick)
    (hpending : s.pendingClients = id :: rest) :
    ({ s.goTo i (.serve id) with
      pendingMutex := none, pendingClients := rest, taken := s.taken ++ [id] }).Sound := by
  have hbusy : Worker.pick ≠ .returned := Worker.noConfusion
  refine ⟨?_, ⟨[], ?_, fun h => absurd rfl h⟩, hs.joined_goTo hi hbusy, fun hreturned => ?_⟩
  · have hperm : ((s.workers.set i (.serve id)).flatMap Worker.held).Perm (s.inHands ++ [id]) := by
      simpa [Worker.held, inHands] using perm_flatMap_set Worker.held hi (.serve id)
    refine (((hperm.append_left _).append_right _).append_right _).trans ?_
    have hcustody := hs.custody
    rw [hpending] at hcustody
    simpa [goTo] using hcustody
  · have horder := hs.order_of_busy hi hbusy
    rw [hpending] at horder
    simpa [goTo] using horder
  · cases hpending.symm.trans (hs.empty hreturned)

/-- It closes the connection that it has served. -/
theorem close (hs : s.Sound) (hi : s.workers[i]? = some (.close id)) :
    ({ s.goTo i .lock with closed := s.closed ++ [id] }).Sound := by
  have hbusy : Worker.close id ≠ .returned := Worker.noConfusion
  refine ⟨?_, ⟨[], ?_, fun h => absurd rfl h⟩, hs.joined_goTo hi hbusy, hs.empty⟩
  · have hperm : ([id] ++ (s.workers.set i .lock).flatMap Worker.held).Perm s.inHands := by
      refine List.perm_append_comm.trans ?_
      simpa [Worker.held, inHands] using perm_flatMap_set Worker.held hi .lock
    show (s.closed ++ [id] ++ (s.workers.set i .lock).flatMap Worker.held ++ _ ++ _).Perm _
    rw [List.append_assoc s.closed]
    exact (((hperm.append_left _).append_right _).append_right _).trans hs.custody
  · rw [List.append_nil]
    exact hs.order_of_busy hi hbusy

/-! ### Moves of the accepting thread -/

/-- While it is at work, nobody has been joined. -/
theorem joined?_of_accepting (hs : s.Sound) (hbusy : s.acceptor ≠ .returned) :
    s.joined? = none := by
  cases hjoined : s.joined? with
  | none => rfl
  | some n => exact absurd (hs.joined n hjoined).1 hbusy

/-- It gets to another place with the same in its hands. -/
theorem accepting (hs : s.Sound) (hbusy : s.acceptor ≠ .returned) {place : Acceptor}
    (hheld : place.held = s.acceptor.held) : ({ s with acceptor := place }).Sound := by
  refine ⟨?_, ?_, fun n hn => ?_, hs.empty⟩
  · show (s.closed ++ s.inHands ++ s.pendingClients ++ place.held).Perm _
    rw [hheld]
    exact hs.custody
  · obtain ⟨drained, hrange, hdone⟩ := hs.order
    refine ⟨drained, ?_, hdone⟩
    show s.taken ++ drained ++ s.pendingClients ++ place.held = _
    rw [hheld]
    exact hrange
  · have hnone : s.joined? = some n := hn
    rw [hs.joined?_of_accepting hbusy] at hnone
    cases hnone

/-- It accepts a connection. -/
theorem accept (hs : s.Sound) (hat : s.acceptor = .accept) :
    ({ s with acceptor := .push s.accepted, accepted := s.accepted + 1 }).Sound := by
  have hbusy : s.acceptor ≠ .returned := by
    rw [hat]
    exact Acceptor.noConfusion
  refine ⟨?_, ?_, fun n hn => ?_, hs.empty⟩
  · have hcustody := hs.custody
    rw [hat, show Acceptor.accept.held = [] from rfl, List.append_nil] at hcustody
    show (s.closed ++ s.inHands ++ s.pendingClients ++ [s.accepted]).Perm _
    rw [List.range_succ]
    exact hcustody.append_right _
  · obtain ⟨drained, hrange, hdone⟩ := hs.order
    rw [hat, show Acceptor.accept.held = [] from rfl, List.append_nil] at hrange
    refine ⟨drained, ?_, hdone⟩
    show s.taken ++ drained ++ s.pendingClients ++ [s.accepted] = _
    rw [hrange, List.range_succ]
  · have hnone : s.joined? = some n := hn
    rw [hs.joined?_of_accepting hbusy] at hnone
    cases hnone

/-- It puts a connection into the queue. -/
theorem push (hs : s.Sound) (hat : s.acceptor = .push id) :
    ({ s with acceptor := .notify, pendingClients := s.pendingClients ++ [id] }).Sound := by
  have hbusy : s.acceptor ≠ .returned := by
    rw [hat]
    exact Acceptor.noConfusion
  refine ⟨?_, ?_, fun n hn => ?_, fun hreturned => ?_⟩
  · have hcustody := hs.custody
    rw [hat] at hcustody
    simpa [Acceptor.held, inHands] using hcustody
  · obtain ⟨drained, hrange, hdone⟩ := hs.order
    rw [hat] at hrange
    exact ⟨drained, by simpa [Acceptor.held] using hrange, hdone⟩
  · have hnone : s.joined? = some n := hn
    rw [hs.joined?_of_accepting hbusy] at hnone
    cases hnone
  · -- nobody pushes after having been joined
    have hnone := hs.joined?_of_accepting hbusy
    have hreturned : s.stopper = .returned := hreturned
    unfold joined? at hnone
    rw [hreturned] at hnone
    cases hnone

/-! ### Moves of `stop` -/

/-- It wakes all workers. -/
theorem notifyAll (hs : s.Sound) :
    ({ s with stopper := .shutdown, workers := s.workers.map Worker.notified }).Sound := by
  have hhands : (s.workers.map Worker.notified).flatMap Worker.held = s.inHands := by
    rw [List.flatMap_map]
    exact congrArg (List.flatMap · s.workers) (funext Worker.held_notified)
  refine ⟨?_, ?_, fun n hn => (by cases hn), fun hreturned => by cases hreturned⟩
  · show (s.closed ++ (s.workers.map Worker.notified).flatMap Worker.held ++ _ ++ _).Perm _
    rw [hhands]
    exact hs.custody
  · obtain ⟨drained, hrange, hdone⟩ := hs.order
    refine ⟨drained, hrange, fun hne w hw => ?_⟩
    obtain ⟨w', hw', rfl⟩ := List.mem_map.mp hw
    rw [hdone hne w' hw']
    rfl

/-- It closes what nobody has taken. -/
theorem drain (hs : s.Sound) (hat : s.stopper = .drain) (hpending : s.pendingClients = id :: rest) :
    ({ s with pendingClients := rest, closed := s.closed ++ [id] }).Sound := by
  have hall : ∀ w ∈ s.workers, w = .returned := by
    have hn : s.joined? = some s.workers.length := by
      unfold joined?
      rw [hat]
    intro w hw
    obtain ⟨j, hj, hget⟩ := List.mem_iff_getElem.mp hw
    exact (hs.joined _ hn).2 j hj w (hget ▸ List.getElem?_eq_getElem hj)
  refine ⟨?_, ?_, hs.joined, fun hreturned => ?_⟩
  · have hcustody := hs.custody
    rw [hpending] at hcustody
    refine List.Perm.trans ?_ hcustody
    show (s.closed ++ [id] ++ s.inHands ++ rest ++ _).Perm _
    refine List.Perm.append_right _ ?_
    rw [List.append_assoc s.closed, List.append_assoc s.closed, List.append_assoc s.closed]
    refine List.Perm.append_left _ ?_
    exact List.perm_middle.symm
  · obtain ⟨drained, hrange, -⟩ := hs.order
    rw [hpending] at hrange
    exact ⟨drained ++ [id], by simpa using hrange, fun _ => hall⟩
  · cases hat.symm.trans hreturned

/-- **One move** keeps every connection in one place. -/
theorem move (hs : s.Sound) (h : s.move m = some s') : s'.Sound := by
  have hon : ∀ {t : TCPServer} {received answered : List (Nat × Bytes)}, t.Sound →
      ({ t with received := received, answered := answered }).Sound :=
    fun ht => ⟨ht.custody, ht.order, ht.joined, ht.empty⟩
  cases move_effect h with
  | place hi hold hnew hbusy => exact hs.place hi hbusy _ (hnew.trans hold.symm) _
  | take hi hpending => exact hs.take hi hpending
  | serve hi => exact hs.place hi Worker.noConfusion _ (by split <;> rfl) s.pendingMutex
  | close hi => exact hs.close hi
  | read hi | answered hi =>
    exact hon (hs.place hi Worker.noConfusion _ (by split <;> rfl) s.pendingMutex)
  | wake hi => exact hs.place hi Worker.noConfusion .lock rfl s.pendingMutex
  | accepting hbusy hheld => exact hs.accepting hbusy hheld
  | accept hat => exact hs.accept hat
  | push hat => exact hs.push hat
  | notify hat hi =>
    have hbusy : s.acceptor ≠ .returned := by
      rw [hat]
      exact Acceptor.noConfusion
    refine (hs.place hi Worker.noConfusion .lock rfl s.pendingMutex).accepting hbusy ?_
    show _ = s.acceptor.held
    rw [hat]
    rfl
  | stopping hjoined hempty => exact ⟨hs.custody, hs.order, hjoined hs.joined, hempty⟩
  | notifyAll => exact hs.notifyAll
  | drain hat hpending => exact hs.drain hat hpending

/-- When `stop` has returned, no thread has anything in its hands. -/
theorem nothing_left (hs : s.Sound) (hreturned : s.stopper = .returned) :
    s.acceptor.held = [] ∧ s.inHands = [] := by
  have hn : s.joined? = some s.workers.length := by
    unfold joined?
    rw [hreturned]
  obtain ⟨hacceptor, hworkers⟩ := hs.joined _ hn
  refine ⟨by rw [hacceptor]; rfl, List.flatMap_eq_nil_iff.mpr (fun w hw => ?_)⟩
  obtain ⟨j, hj, hget⟩ := List.mem_iff_getElem.mp hw
  rw [hworkers j hj w (hget ▸ List.getElem?_eq_getElem hj)]
  rfl

theorem start (workerCount : Nat) : (TCPServer.start workerCount).Sound := by
  have hhands : (List.replicate workerCount Worker.lock).flatMap Worker.held = [] := by
    induction workerCount with
    | zero => rfl
    | succ n ih => rw [List.replicate_succ, List.flatMap_cons, ih]; rfl
  refine ⟨?_, ⟨[], rfl, fun h => absurd rfl h⟩, fun n hn => (by cases hn), fun _ => rfl⟩
  show ([] ++ (List.replicate workerCount Worker.lock).flatMap Worker.held ++ [] ++ []).Perm []
  rw [hhands]
  exact List.Perm.refl []

end Sound

/-- **Every run** keeps the accounts of the connections. -/
theorem sound_of_reaches {s : TCPServer} (h : Reaches allowed (start workerCount) s) : s.Sound :=
  h.invariant (fun hs _ hmove => hs.move hmove) (Sound.start workerCount)

/-- **Every connection is served once at most and closed once.**  In every reachable state each
    accepted connection is closed, in the hands of one worker, in the queue, or in the hands of
    the accepting thread, and in one of these places only; workers take connections in the order
    in which they were accepted; and when `stop` has returned, all of them are closed. -/
theorem connections_once {workerCount : Nat} {s : TCPServer}
    (h : Reaches (fun _ => True) (start workerCount) s) :
    (s.closed ++ s.inHands ++ s.pendingClients ++ s.acceptor.held).Perm (List.range s.accepted) ∧
      s.taken <+: List.range s.accepted ∧
      (s.stopper = .returned → s.closed.Perm (List.range s.accepted)) := by
  have hs := sound_of_reaches h
  refine ⟨hs.custody, ?_, fun hreturned => ?_⟩
  · obtain ⟨drained, hrange, -⟩ := hs.order
    rw [← hrange, List.append_assoc, List.append_assoc]
    exact List.prefix_append _ _
  · obtain ⟨haccepting, hhands⟩ := hs.nothing_left hreturned
    have hcustody := hs.custody
    rw [hs.empty hreturned, haccepting, hhands] at hcustody
    simpa using hcustody

/-! ### What is answered on a connection -/

/-- The payloads of one connection. -/
def on (id : Nat) (l : List (Nat × Bytes)) : List Bytes :=
  (l.filter (fun e => e.1 = id)).map Prod.snd

theorem on_concat (id : Nat) (l : List (Nat × Bytes)) (id' : Nat) (payload : Bytes) :
    on id (l ++ [(id', payload)]) = on id l ++ if id' = id then [payload] else [] := by
  unfold on
  rw [List.filter_append, List.map_append]
  by_cases h : id' = id <;> simp [h]

end TCPServer

/-- What has been read from the connection of a worker and what has been answered on it. -/
def Worker.Keeps (received answered : List (Nat × Bytes)) : Worker → Prop
  | .serve id | .read id => TCPServer.on id received = TCPServer.on id answered ∧
      ∀ payload ∈ TCPServer.on id answered, GoesOn payload
  | .answer id payload => TCPServer.on id received = TCPServer.on id answered ++ [payload] ∧
      payload ≠ [] ∧ ∀ payload ∈ TCPServer.on id answered, GoesOn payload
  | .close id => processed (TCPServer.on id received) = TCPServer.on id answered
  | _ => True

/-- Only the worker's own connection matters. -/
theorem Worker.Keeps.congr {received answered received' answered' : List (Nat × Bytes)}
    (h : w.Keeps received answered)
    (hsame : ∀ id ∈ w.held, TCPServer.on id received' = TCPServer.on id received ∧
      TCPServer.on id answered' = TCPServer.on id answered) : w.Keeps received' answered' := by
  cases w with
  | serve id | read id | answer id payload | close id =>
    obtain ⟨hreceived, hanswered⟩ := hsame id List.mem_cons_self
    unfold Keeps at h ⊢
    dsimp only
    rw [hreceived, hanswered]
    exact h
  | _ => trivial

/-- Without a connection there is nothing to keep. -/
theorem Worker.keeps_of_held {received answered : List (Nat × Bytes)} (h : w.held = []) :
    w.Keeps received answered := by
  cases w with
  | serve | read | answer | close => cases h
  | _ => trivial

namespace TCPServer

/-- Every connection is served as `handleClient` serves it. -/
structure Faithful (s : TCPServer) : Prop where
  worker : ∀ w ∈ s.workers, w.Keeps s.received s.answered
  other : ∀ id ∉ s.inHands, processed (on id s.received) = on id s.answered
  taken : ∀ id ∈ s.inHands, id ∈ s.taken
  fresh : ∀ id ∉ s.taken, on id s.received = [] ∧ on id s.answered = []

namespace Faithful

variable {s s' : TCPServer} {i : Nat} {old new : Worker}

theorem mem_inHands (hw : w ∈ s.workers) (hid : id ∈ w.held) : id ∈ s.inHands :=
  List.mem_flatMap.mpr ⟨w, hw, hid⟩

/-- A worker gets to another place with the same in its hands. -/
theorem place (hs : s.Faithful) (hi : s.workers[i]? = some old) {t : TCPServer}
    (hworkers : t.workers = s.workers.set i new) (htaken : t.taken = s.taken)
    (hreceived : t.received = s.received) (hanswered : t.answered = s.answered)
    (hheld : new.held = old.held) (hkeeps : new.Keeps s.received s.answered) : t.Faithful := by
  have hhands : ∀ id, id ∈ t.inHands ↔ id ∈ s.inHands := by
    have hperm := perm_flatMap_set Worker.held hi new
    rw [hheld, List.perm_append_right_iff] at hperm
    intro id
    unfold inHands
    rw [hworkers]
    exact hperm.mem_iff
  refine ⟨fun w hw => ?_, fun id hid => ?_, fun id hid => ?_, fun id hid => ?_⟩
  · rw [hreceived, hanswered]
    rw [hworkers] at hw
    rcases List.mem_or_eq_of_mem_set hw with hold | rfl
    · exact hs.worker w hold
    · exact hkeeps
  · rw [hreceived, hanswered]
    exact hs.other id (fun h => hid ((hhands id).mpr h))
  · rw [htaken]
    exact hs.taken id ((hhands id).mp hid)
  · rw [hreceived, hanswered]
    exact hs.fresh id (htaken ▸ hid)

/-- Two workers have different connections in their hands. -/
theorem held_ne (hsound : s.Sound) {j : Nat} (hi : s.workers[i]? = some old)
    (hj : s.workers[j]? = some w) (hij : i ≠ j) (hid : id ∈ old.held) : id ∉ w.held := by
  have hnodup : s.inHands.Nodup := by
    have hall := hsound.custody.nodup_iff.mpr List.nodup_range
    rw [List.append_assoc, List.append_assoc, List.nodup_append] at hall
    exact (List.nodup_append.mp hall.2.1).1
  obtain ⟨-, hdisjoint⟩ := List.nodup_flatMap.mp hnodup
  obtain ⟨hlti, rfl⟩ := List.getElem?_eq_some_iff.mp hi
  obtain ⟨hltj, rfl⟩ := List.getElem?_eq_some_iff.mp hj
  intro hid'
  rcases Nat.lt_or_gt_of_ne hij with hlt | hlt
  · exact List.pairwise_iff_getElem.mp hdisjoint i j hlti hltj hlt hid hid'
  · exact List.pairwise_iff_getElem.mp hdisjoint j i hltj hlti hlt hid' hid

/-- Something is read from the connection of a worker, or answered on it. -/
theorem record (hs : s.Faithful) (hsound : s.Sound) (hi : s.workers[i]? = some old)
    (hold : old.held = [id]) (hnew : new.held = [id]) {t : TCPServer}
    (hworkers : t.workers = s.workers.set i new) (htaken : t.taken = s.taken)
    (hreceived : ∀ id' ≠ id, on id' t.received = on id' s.received)
    (hanswered : ∀ id' ≠ id, on id' t.answered = on id' s.answered)
    (hkeeps : new.Keeps t.received t.answered) : t.Faithful := by
  have hmem : id ∈ s.inHands :=
    mem_inHands (List.mem_of_getElem? hi) (by rw [hold]; exact List.mem_singleton_self id)
  have hhands : ∀ id', id' ∈ t.inHands ↔ id' ∈ s.inHands := by
    have hperm := perm_flatMap_set Worker.held hi new
    rw [hnew, ← hold, List.perm_append_right_iff] at hperm
    intro id'
    unfold inHands
    rw [hworkers]
    exact hperm.mem_iff
  refine ⟨fun w hw => ?_, fun id' hid => ?_, fun id' hid => ?_, fun id' hid => ?_⟩
  · rw [hworkers] at hw
    obtain ⟨j, hj⟩ := List.mem_iff_getElem?.mp hw
    by_cases hij : i = j
    · rw [← hij, List.getElem?_set_self (List.getElem?_eq_some_iff.mp hi).1] at hj
      rw [← Option.some.inj hj]
      exact hkeeps
    · rw [List.getElem?_set_ne hij] at hj
      refine (hs.worker w (List.mem_of_getElem? hj)).congr (fun id' hid' => ?_)
      -- the others have other connections
      have hne : id' ≠ id := by
        rintro rfl
        exact held_ne hsound hi hj hij (by rw [hold]; exact List.mem_singleton_self _) hid'
      exact ⟨hreceived id' hne, hanswered id' hne⟩
  · have hne : id' ≠ id := by
      rintro rfl
      exact hid ((hhands id').mpr hmem)
    rw [hreceived id' hne, hanswered id' hne]
    exact hs.other id' (fun h => hid ((hhands id').mpr h))
  · rw [htaken]
    exact hs.taken id' ((hhands id').mp hid)
  · rw [htaken] at hid
    have hne : id' ≠ id := by
      rintro rfl
      exact hid (hs.taken id' hmem)
    rw [hreceived id' hne, hanswered id' hne]
    exact hs.fresh id' hid

/-- A worker takes a connection, of which nothing has been read. -/
theorem take (hs : s.Faithful) (hsound : s.Sound) (hi : s.workers[i]? = some .pick)
    (hpending : s.pendingClients = id :: rest) :
    ({ s.goTo i (.serve id) with
      pendingMutex := none, pendingClients := rest, taken := s.taken ++ [id] }).Faithful := by
  have hnew : id ∉ s.taken := by
    have horder := hsound.order_of_busy hi Worker.noConfusion
    have hnodup : (s.taken ++ s.pendingClients ++ s.acceptor.held).Nodup :=
      horder ▸ List.nodup_range
    rw [hpending, List.append_assoc] at hnodup
    exact fun hmem => (List.nodup_append.mp hnodup).2.2 id hmem id (by simp) rfl
  have hhands : ((s.workers.set i (.serve id)).flatMap Worker.held).Perm (s.inHands ++ [id]) := by
    simpa [Worker.held, inHands] using perm_flatMap_set Worker.held hi (.serve id)
  refine ⟨fun w hw => ?_, fun id' hid => ?_, fun id' hid => ?_, fun id' hid => ?_⟩
  · rcases List.mem_or_eq_of_mem_set hw with hold | rfl
    · exact hs.worker w hold
    · obtain ⟨hreceived, hanswered⟩ := hs.fresh id hnew
      refine ⟨hreceived.trans hanswered.symm, fun payload hp => ?_⟩
      have hp : payload ∈ on id s.answered := hp
      rw [hanswered] at hp
      cases hp
  · exact hs.other id' (fun h => hid (hhands.mem_iff.mpr (List.mem_append_left _ h)))
  · rcases List.mem_append.mp (hhands.mem_iff.mp hid) with h | h
    · exact List.mem_append_left _ (hs.taken id' h)
    · exact List.mem_append_right _ h
  · exact hs.fresh id' (fun h => hid (List.mem_append_left _ h))

/-- A worker closes its connection. -/
theorem close (hs : s.Faithful) (hi : s.workers[i]? = some (.close id)) :
    ({ s.goTo i .lock with closed := s.closed ++ [id] }).Faithful := by
  have hhands : ((s.workers.set i .lock).flatMap Worker.held ++ [id]).Perm s.inHands := by
    simpa [Worker.held, inHands] using perm_flatMap_set Worker.held hi .lock
  refine ⟨fun w hw => ?_, fun id' hid => ?_, fun id' hid => ?_, hs.fresh⟩
  · rcases List.mem_or_eq_of_mem_set hw with hold | rfl
    · exact hs.worker w hold
    · trivial
  · by_cases hsame : id' = id
    · rw [hsame]
      exact hs.worker _ (List.mem_of_getElem? hi)
    · refine hs.other id' (fun h => ?_)
      rcases List.mem_append.mp (hhands.mem_iff.mpr h) with h | h
      · exact hid h
      · exact hsame (List.mem_singleton.mp h)
  · exact hs.taken id' (hhands.mem_iff.mp (List.mem_append_left _ hid))

/-- It goes on to read, or closes the connection before it reads anything else. -/
theorem serve (hs : s.Faithful) (hi : s.workers[i]? = some (.serve id)) :
    (s.goTo i (if s.running then .read id else .close id)).Faithful := by
  refine hs.place hi rfl rfl rfl rfl (by split <;> rfl) ?_
  have hkeeps : (Worker.serve id).Keeps s.received s.answered :=
    hs.worker _ (List.mem_of_getElem? hi)
  split
  · exact hkeeps
  · show processed (on id s.received) = on id s.answered
    rw [hkeeps.1]
    exact processed_of_goesOn hkeeps.2

/-- It has read a request, or the end. -/
theorem read (hs : s.Faithful) (hsound : s.Sound) (hi : s.workers[i]? = some (.read id))
    (payload : Bytes) :
    ({ s.goTo i (if payload = [] then .close id else .answer id payload) with
      received := s.received ++ [(id, payload)] }).Faithful := by
  have hkeeps : (Worker.read id).Keeps s.received s.answered :=
    hs.worker _ (List.mem_of_getElem? hi)
  have hreceived : on id (s.received ++ [(id, payload)]) = on id s.answered ++ [payload] := by
    rw [on_concat, if_pos rfl, hkeeps.1]
  refine hs.record hsound hi rfl (by split <;> rfl) rfl rfl (fun id' hne => ?_)
    (fun _ _ => rfl) ?_
  · rw [on_concat, if_neg (Ne.symm hne), List.append_nil]
  · split
    · next hend =>
      show processed (on id (s.received ++ [(id, payload)])) = on id s.answered
      rw [hreceived, processed_concat hkeeps.2, if_pos hend, List.append_nil]
    · next hne => exact ⟨hreceived, hne, hkeeps.2⟩

/-- It has answered a request, which may be the last of its connection. -/
theorem answered (hs : s.Faithful) (hsound : s.Sound) {payload : Bytes}
    (hi : s.workers[i]? = some (.answer id payload)) :
    ({ s.goTo i (if (parseRequest payload).type.isInterBroker then .close id else .serve id) with
      answered := s.answered ++ [(id, payload)] }).Faithful := by
  obtain ⟨hreceived, hne, hopen⟩ : (Worker.answer id payload).Keeps s.received s.answered :=
    hs.worker _ (List.mem_of_getElem? hi)
  have hanswered : on id (s.answered ++ [(id, payload)]) = on id s.answered ++ [payload] := by
    rw [on_concat, if_pos rfl]
  refine hs.record hsound hi rfl (by split <;> rfl) rfl rfl (fun _ _ => rfl)
    (fun id' hne => ?_) ?_
  · rw [on_concat, if_neg (Ne.symm hne), List.append_nil]
  · split
    · show processed (on id s.received) = on id (s.answered ++ [(id, payload)])
      rw [hreceived, hanswered, processed_concat hopen, if_neg hne]
    · next hclient =>
      refine ⟨hreceived.trans hanswered.symm, fun payload' hp => ?_⟩
      have hp : payload' ∈ on id (s.answered ++ [(id, payload)]) := hp
      rw [hanswered] at hp
      rcases List.mem_append.mp hp with hp | hp
      · exact hopen payload' hp
      · rw [List.mem_singleton.mp hp]
        exact ⟨hne, Bool.not_eq_true _ ▸ hclient⟩

/-- `notify_all` leaves every worker what it has in its hands. -/
theorem notifyAll (hs : s.Faithful) :
    ({ s with stopper := .shutdown, workers := s.workers.map Worker.notified }).Faithful := by
  have hhands : (s.workers.map Worker.notified).flatMap Worker.held = s.inHands := by
    rw [List.flatMap_map]
    exact congrArg (List.flatMap · s.workers) (funext Worker.held_notified)
  refine ⟨fun w hw => ?_, fun id hid => hs.other id (hhands ▸ hid),
    fun id hid => hs.taken id (hhands ▸ hid), hs.fresh⟩
  obtain ⟨w', hw', rfl⟩ := List.mem_map.mp hw
  cases w' with
  | asleep => trivial
  | _ => exact hs.worker _ hw'

/-- **One move** keeps to `handleClient`. -/
theorem move (hs : s.Faithful) (hsound : s.Sound) (h : s.move m = some s') : s'.Faithful := by
  cases move_effect h with
  | place hi hold hnew =>
    exact hs.place hi rfl rfl rfl rfl (hnew.trans hold.symm) (Worker.keeps_of_held hnew)
  | take hi hpending => exact hs.take hsound hi hpending
  | serve hi => exact hs.serve hi
  | close hi => exact hs.close hi
  | read hi => exact hs.read hsound hi _
  | answered hi => exact hs.answered hsound hi
  | wake hi => exact hs.place hi rfl rfl rfl rfl rfl trivial
  | notify _ hi => exact hs.place hi rfl rfl rfl rfl rfl trivial
  | notifyAll => exact hs.notifyAll
  | accepting | accept | push | stopping | drain =>
    exact ⟨hs.worker, hs.other, hs.taken, hs.fresh⟩

theorem start (workerCount : Nat) : (TCPServer.start workerCount).Faithful := by
  refine ⟨fun w hw => ?_, fun id _ => rfl, fun id hid => ?_, fun id _ => ⟨rfl, rfl⟩⟩
  · rw [List.eq_of_mem_replicate hw]
    trivial
  · obtain ⟨w, hw, hid⟩ := List.mem_flatMap.mp hid
    rw [List.eq_of_mem_replicate hw] at hid
    cases hid

end Faithful

/-- **Workers serve a connection as `handleClient` does.**  Whatever the other threads do, the
    requests that have been answered on a connection, with the one that a worker is answering,
    are those that `handleClient` processes of what has been read. -/
theorem answered_eq_processed {s : TCPServer} (h : Reaches (fun _ => True) (start workerCount) s)
    (id : Nat) :
    processed (on id s.received) = on id s.answered ∨
      ∃ payload, .answer id payload ∈ s.workers ∧
        processed (on id s.received) = on id s.answered ++ [payload] := by
  obtain ⟨-, hs⟩ := h.invariant (P := fun s => s.Sound ∧ s.Faithful)
    (fun hs _ hmove => ⟨hs.1.move hmove, hs.2.move hs.1 hmove⟩)
    ⟨Sound.start workerCount, Faithful.start workerCount⟩
  by_cases hid : id ∈ s.inHands
  · obtain ⟨w, hw, hheld⟩ := List.mem_flatMap.mp hid
    have hkeeps := hs.worker w hw
    cases w with
    | serve | read =>
      obtain rfl := List.mem_singleton.mp hheld
      refine .inl ?_
      rw [hkeeps.1]
      exact processed_of_goesOn hkeeps.2
    | answer id' payload =>
      obtain rfl := List.mem_singleton.mp hheld
      obtain ⟨hreceived, hne, hopen⟩ := hkeeps
      refine .inr ⟨payload, hw, ?_⟩
      rw [hreceived, processed_concat hopen, if_neg hne]
    | close =>
      obtain rfl := List.mem_singleton.mp hheld
      exact .inl hkeeps
    | _ => cases hheld
  · exact .inl (hs.other id hid)

/-! ### How many requests are under way -/

/-- How many workers are in `process_request`. -/
def underway (s : TCPServer) : Nat := s.workers.countP Worker.answering

/-- No worker is added or lost. -/
theorem length_workers {s : TCPServer} (h : Reaches (fun _ => True) (start workerCount) s) :
    s.workers.length = workerCount :=
  h.invariant (P := fun s => s.workers.length = workerCount)
    (fun hs _ hmove => (length_move hmove).trans hs) List.length_replicate

/-- **A request is taken up by a worker that had none**, so there are never more of them under way
    than there are workers. -/
theorem underway_read {s s' : TCPServer} (h : Reaches (fun _ => True) (start workerCount) s)
    {i : Nat} {payload : Bytes} (hne : payload ≠ []) (hmove : s.move (.read i payload) = some s') :
    s.underway < workerCount ∧ s'.underway = s.underway + 1 := by
  obtain ⟨place, hi, hread⟩ := Option.bind_eq_some_iff.mp hmove
  unfold requestRead at hread
  split at hread
  · next id =>
    rw [← Option.some.inj hread, if_neg hne]
    have hcount := countP_set Worker.answering hi (.answer id payload)
    have hlength := length_workers h
    have hle := List.countP_le_length (p := Worker.answering)
      (l := s.workers.set i (.answer id payload))
    rw [List.length_set] at hle
    simp only [Worker.answering, if_true, if_false, Bool.false_eq_true] at hcount
    unfold underway
    show _ ∧ (s.workers.set i (.answer id payload)).countP Worker.answering = _
    omega
  · cases hread

/-- It is under way until it has been answered. -/
theorem underway_answered {s s' : TCPServer} {i : Nat} (hmove : s.move (.answered i) = some s') :
    s'.underway + 1 = s.underway := by
  obtain ⟨place, hi, hanswered⟩ := Option.bind_eq_some_iff.mp hmove
  unfold requestAnswered at hanswered
  split at hanswered
  · next id payload =>
    rw [← Option.some.inj hanswered]
    have hcount := countP_set Worker.answering hi
      (if (parseRequest payload).type.isInterBroker then .close id else .serve id)
    have hdone : (if (parseRequest payload).type.isInterBroker then Worker.close id
        else .serve id).answering = false := by
      split <;> rfl
    rw [hdone] at hcount
    simp only [Worker.answering, if_true, if_false, Bool.false_eq_true] at hcount
    exact hcount
  · cases hanswered

/-- A client connects while no worker is asleep. -/
def connect : List Move := [.acceptor, .poll true, .accept true, .acceptor, .acceptor]

/-- Two workers and three connections.  The first two are being served when `stop` is called,
    the third is still in the queue then; a worker takes it before it returns. -/
theorem connections_once_three :
    ∃ s : TCPServer, Reaches (fun _ => True) (start 2) s ∧ s.accepted = 3 ∧
      s.stopper = .returned ∧
      s.taken <+: List.range s.accepted ∧ s.closed.Perm (List.range s.accepted) := by
  obtain ⟨s, h, haccepted, hreturned⟩ := exists_reaches (fun _ => True)
    (fun s => s.accepted = 3 ∧ s.stopper = .returned) (start 2)
    (connect ++ connect ++ connect ++ List.replicate 3 (.worker 0) ++ List.replicate 3 (.worker 1)
      ++ List.replicate 3 .stopper ++ [.acceptor] ++ List.replicate 10 (.worker 0)
      ++ List.replicate 5 (.worker 1) ++ List.replicate 6 .stopper)
    (fun _ _ => trivial) (by decide +kernel)
  obtain ⟨-, htaken, hclosed⟩ := connections_once h
  exact ⟨s, h, haccepted, hreturned, htaken, hclosed hreturned⟩

end TCPServer

end StreamingPlatform
