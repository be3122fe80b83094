import ElasticJob.History.Event
import ElasticJob.Manager.Basic
import ElasticJob.Manager.Event
import ElasticJob.Plan
import ElasticJob.Reconfiguration

/-!
The state of a running job. Every vertex that may still change has a worker, which owns its
lifecycle, its manager and a queue of events; the other vertices are settled from the start.
Readers see a vertex through its handle, and a decision only once it is published as an outcome.
-/

namespace ElasticJob

inductive Outcome where
  | finalized (decision : Reconfiguration)
  | aborted (reason : String)
  deriving DecidableEq

structure Worker (σ : Type) where
  context : Context
  lifecycle : Lifecycle
  manager : σ
  /-- Workers that are told the final parallelism, by index. -/
  downstream : List Nat
  queue : List ManagerEvent := []
  outcome : Option Outcome := none

inductive Standing where
  | settled (decision : Reconfiguration)
  | managed (worker : Nat)
  deriving DecidableEq

structure Handle where
  standing : Standing
  downstream : List String
  deriving DecidableEq

/-- An initializer at work for an input of a worker's vertex. Once it completed, `stream` holds
the events that are still to be delivered. -/
structure InitializerTask (ι : Type) where
  worker : Nat
  context : InitializerContext
  initializer : ι
  stream : Option (List ManagerEvent) := none

structure Scheduler (σ ι : Type) where
  plan : Plan
  workers : List (Worker σ) := []
  handles : SortedMap String Handle := .empty
  tasks : List (InitializerTask ι) := []
  isAborted : Bool := false
  reported : List HistoryFact := []

namespace Scheduler

variable {σ ι : Type}

def report (scheduler : Scheduler σ ι) (fact : HistoryFact) : Scheduler σ ι :=
  { scheduler with reported := scheduler.reported ++ [fact] }

def putWorker (scheduler : Scheduler σ ι) (index : Nat) (worker : Worker σ) : Scheduler σ ι :=
  { scheduler with workers := scheduler.workers.set index worker }

def handle (scheduler : Scheduler σ ι) (vertex : String) : Except JobError Handle :=
  match scheduler.handles.get? vertex with
  | some handle => .ok handle
  | none => .error (.vertexNotFound vertex)

def phaseOf (scheduler : Scheduler σ ι) : Standing → Phase
  | .settled _ => .finalized
  | .managed index =>
      match scheduler.workers[index]? with
      | some worker => worker.lifecycle.phase
      | none => .uninitialized

def outcomeOf (scheduler : Scheduler σ ι) : Standing → Option Outcome
  | .settled decision => some (.finalized decision)
  | .managed index => (scheduler.workers[index]?).bind (·.outcome)

def phase (scheduler : Scheduler σ ι) (vertex : String) : Except JobError Phase :=
  (scheduler.handle vertex).map fun handle => scheduler.phaseOf handle.standing

def outcome? (scheduler : Scheduler σ ι) (vertex : String) : Option Outcome :=
  (scheduler.handles.get? vertex).bind fun handle => scheduler.outcomeOf handle.standing

def resolvedParallelism? (scheduler : Scheduler σ ι) (vertex : String) : Option UInt32 :=
  match scheduler.outcome? vertex with
  | some (.finalized decision) => some decision.parallelism
  | _ => none

def enqueue (worker : Worker σ) (event : ManagerEvent) : Worker σ :=
  if worker.outcome.isSome then worker else { worker with queue := worker.queue ++ [event] }

def deliver (scheduler : Scheduler σ ι) (index : Nat) (event : ManagerEvent) : Scheduler σ ι :=
  match scheduler.workers[index]? with
  | some worker => scheduler.putWorker index (enqueue worker event)
  | none => scheduler

/-- The decision of a vertex, nothing while it is open, or why there will be none. -/
def awaited (scheduler : Scheduler σ ι) (vertex : String) :
    Except JobError (Option Reconfiguration) :=
  match scheduler.handle vertex with
  | .error error => .error error
  | .ok handle =>
      match scheduler.outcomeOf handle.standing with
      | some (.finalized decision) => .ok (some decision)
      | some (.aborted reason) => .error (.aborted s!"vertex `{vertex}` aborted. {reason}")
      | none => .ok none

def applyDecision (plan : Plan) (entry : String × Reconfiguration) : Except JobError Plan :=
  match plan.applyReconfiguration entry.1 entry.2 with
  | (next, .ok ()) => .ok next
  | (_, .error error) => .error error

def awaitedInOrder (scheduler : Scheduler σ ι) :
    List String → Except JobError (Option (List Reconfiguration))
  | [] => .ok (some [])
  | vertex :: rest =>
      match scheduler.awaited vertex with
      | .error error => .error error
      | .ok none => .ok none
      | .ok (some decision) => do
          return (← scheduler.awaitedInOrder rest).map (decision :: ·)

/-- The decisions of the vertices, waited for all at once. A vertex that was aborted fails the
whole even while others are open, the first in order. -/
def awaitedTogether (scheduler : Scheduler σ ι) (vertices : List String) :
    Except JobError (Option (List Reconfiguration)) := do
  return (← vertices.mapM scheduler.awaited).mapM id

/-- So many vertices at most are waited for all at once. -/
def jointWait : Nat := 30

def finalizedPlan (scheduler : Scheduler σ ι) : Except JobError (Option Plan) := do
  let names := scheduler.plan.vertices.map (·.name)
  let awaited :=
    if names.length ≤ jointWait then scheduler.awaitedTogether names
    else scheduler.awaitedInOrder names
  match ← awaited with
  | none => return none
  | some decisions => return some (← (names.zip decisions).foldlM applyDecision scheduler.plan)

end Scheduler

end ElasticJob
