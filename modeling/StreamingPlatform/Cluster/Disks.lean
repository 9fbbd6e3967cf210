import StreamingPlatform.Cluster.Runs
import StreamingPlatform.Storage.SeparateDirectories

namespace StreamingPlatform

open ByteString Interleave World

/-!
# Cluster — brokers on their disks

A `World` gives every key of a broker a list of messages.  Here the storage calls of a broker
work on the logs and files of an engine on one disk instead, where two keys may lead to one
directory; everything else is as in `Cluster/World`.  For keys with directories of their own
the two engines answer alike (`answers_of_plainKeys`), for others they need not.
-/

/-- The state of the system, with the engine and the disk of every broker.  The `storage` of
    its brokers is not used. -/
structure Disks (δ : Type) where
  world : World
  engines : Int → SharedEngine δ

namespace Disks

section Machine

variable {δ : Type} [DecidableEq δ] (settings : EngineSettings δ)

/-- The effect of an action of thread `τ` at broker `n`. -/
def effect (s : Disks δ) (τ : Nat) (n : Int) : (a : Act) → Choice → Option (a.Result × Disks δ)
  | .node (.append topic partition message _), _ =>
    let r := (s.engines n).append settings topic partition message
    some (r.1, { s with engines := Function.update s.engines n r.2 })
  -- reading moves the streams of a log
  | .node (.fetch topic partition offset), _ =>
    let r := (s.engines n).fetch settings topic partition offset
    some (r.1, { s with engines := Function.update s.engines n r.2 })
  | .node (.partitionsForTopic topic), _ =>
    some (StorageEngine.partitionsForTopic ⟨(s.engines n).logs⟩ topic, s)
  | a, c => (s.world.effect τ n a c).map (fun r => (r.1, { s with world := r.2 }))

/-- An action of thread `τ`, as in `World.exec`. -/
def exec (τ : Nat) (a : Act) (c : Choice) (s : Disks δ) : Option (a.Result × Disks δ) :=
  match s.world.tasks[τ]? with
  | none => none
  | some task =>
    if (s.world.nodes task.node).alive then
      (s.effect settings τ task.node a c).map (fun r =>
        (r.1, { r.2 with
          world := { r.2.world with history := r.2.world.history ++ [⟨τ, a, r.1⟩] } }))
    else none

/-- The environment does not touch the disks. -/
def env (k : Nat) (e : EnvStep) (s : Disks δ) :
    Option (Disks δ × Option (Program (Option Response))) :=
  (World.env k e s.world).map (fun r => ({ s with world := r.1 }, r.2))

/-- The cluster as a machine. -/
def machine : Machine Act Act.Result (Option Response) (Disks δ) Choice EnvStep where
  exec := exec settings
  env := env

end Machine

/-- Inter-broker requests come from brokers only. -/
def traffic {δ : Type} : Guard Act (Disks δ) EnvStep where
  act _ _ _ := True
  env s e := brokerTraffic.env s.world e

/-- The check for `traffic`. -/
def traffic? {δ : Type} (p : Pool Act Act.Result (Option Response) (Disks δ))
    (l : Label Choice EnvStep) : Bool :=
  clientTraffic ⟨p.world.world, p.progs⟩ l

theorem traffic_allows {δ : Type} (p : Pool Act Act.Result (Option Response) (Disks δ))
    (l : Label Choice EnvStep) (h : traffic? p l = true) : traffic.Allows p l := by
  have hallow := clientTraffic_allows _ l h
  cases l with
  | run τ c => exact fun _ _ _ => trivial
  | env e => exact hallow

/-- A cluster on empty disks, before anything has happened. -/
def start {δ : Type} (setup : Setup) : Pool Act Act.Result (Option Response) (Disks δ) :=
  ⟨⟨{ nodes := setup.node }, fun _ => { disk := fun _ => [] }⟩, []⟩

end Disks

end StreamingPlatform
