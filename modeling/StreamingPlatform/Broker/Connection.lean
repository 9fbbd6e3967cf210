import StreamingPlatform.Broker.Quiet
import StreamingPlatform.Lib.Sequential

namespace StreamingPlatform

open ByteString Interleave

/-!
# Broker — one connection and its exceptions (`tcp_server.cpp`)

`handleClient` serves the payloads of a connection one after another.  How the calls on the way
end is left to the `Surroundings`: the state of the broker, other threads, the disk, the network.
A call returns, or throws, or does not come back at all: a read waits for a frame that nobody
writes, a mutex is never given back, a write to a closed connection ends the process by a signal.

`handle_fetch` is the only function of the broker with a `try` block, and `storage_.fetch` the
only call in it (`Act.caught`).  Every other exception leaves `handle_request` or
`handle_inter_broker_request`, the connection and the worker thread, and ends the process.  Which
calls a request leads to is a matter of the handlers (`onBehalf_processRequest`).
-/

/-- The payloads that are processed. -/
def processed : List Bytes → List Bytes
  | [] => []
  | payload :: payloads =>
    if payload = [] then []
    else payload :: if (parseRequest payload).type.isInterBroker then [] else processed payloads

/-- The connection goes on after the payload. -/
def GoesOn (payload : Bytes) : Prop :=
  payload ≠ [] ∧ (parseRequest payload).type.isInterBroker = false

/-- All of these payloads are processed, and whether one more is depends on itself. -/
theorem processed_concat {payloads : List Bytes} (h : ∀ payload ∈ payloads, GoesOn payload)
    (payload : Bytes) :
    processed (payloads ++ [payload]) = payloads ++ if payload = [] then [] else [payload] := by
  induction payloads with
  | nil =>
    rw [List.nil_append, processed, processed, ite_self]
    rfl
  | cons first payloads ih =>
    obtain ⟨⟨hne, hclient⟩, hrest⟩ := List.forall_mem_cons.mp h
    rw [List.cons_append, processed, if_neg hne, hclient, if_neg Bool.false_ne_true, ih hrest]
    rfl

theorem processed_of_goesOn {payloads : List Bytes} (h : ∀ payload ∈ payloads, GoesOn payload) :
    processed payloads = payloads := by
  induction payloads with
  | nil => rfl
  | cons first payloads ih =>
    obtain ⟨⟨hne, hclient⟩, hrest⟩ := List.forall_mem_cons.mp h
    rw [processed, if_neg hne, hclient, if_neg Bool.false_ne_true, ih hrest]

/-! ### Calls that do not return -/

/-- What a call returns when it returns.  `storage_.fetch` returns a message; whether it did is
    what its action tells the handler. -/
abbrev Act.Value : Act → Type
  | .node (.fetch ..) => Bytes
  | .node a => a.Result
  | .net a => a.Result

/-- Why a call does not return. -/
inductive Escape where
  | exception (e : StdException)
  /-- It blocks for ever, or the process ends in it. -/
  | stuck
  deriving DecidableEq, Repr

/-- What a handler makes of the end of a call.  The `try` of `handle_fetch` turns an exception
    into a result; there is no other one. -/
def Act.caught : (a : Act) → Except Escape a.Value → Except Escape a.Result
  | .node (.fetch ..), .ok message => .ok (.ok message)
  | .node (.fetch ..), .error (.exception e) => .ok (.error e)
  | .node (.fetch ..), .error .stuck => .error .stuck
  | .node .isLeader, r | .node .getLeaderEndpoint, r | .node (.append ..), r => r
  | .node (.partitionsForTopic _), r | .node (.join ..), r | .node (.leave ..), r => r
  | .node (.isAssigned ..), r | .node (.nextOffset ..), r | .node (.commit ..), r => r
  | .node (.refreshTopic ..), r | .node .lock, r | .node .unlock, r => r
  | .node (.openAcks ..), r | .node (.handleAck ..), r | .node (.quorumReached ..), r => r
  | .node (.markCommitted ..), r | .node (.isCommitted ..), r => r
  | .node (.isPeerAvailable _), r | .node (.markFollowerFailed _), r => r
  | .node (.handleHeartbeat _), r | .node .maybeElectLeader, r | .node .failExpired, r => r
  | .node .polls, r | .net (.send ..), r | .net (.receive _), r => r
  | .net (.sendAck ..), r | .net (.respond ..), r => r

/-- What a handler meets: how each of its calls ends. -/
structure Surroundings (σ : Type) where
  call : σ → (a : Act) → Except Escape a.Value × σ

/-- An action in these surroundings. -/
def Surroundings.perform {σ : Type} (around : Surroundings σ) (s : σ) (a : Act) :
    Except Escape a.Result × σ :=
  (a.caught (around.call s a).1, (around.call s a).2)

/-! ### The calls of a request -/

namespace RequestType

/-- The requests whose handlers append. -/
def appends : RequestType → Bool
  | produce | batchProduce | replicate | batchReplicate => true
  | _ => false

end RequestType

section OnBehalf

variable {config : BrokerConfig} {request : Request} {conn : Option Nat}

end OnBehalf

/-! ### Connections that survive -/

end StreamingPlatform
