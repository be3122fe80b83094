import ElasticJob.Scheduler.Step
import ElasticJob.Simulation.Script

/-!
Trial runs of a job on one thread and a virtual clock. Activities that can run do so in the order
in which they became ready; time passes only when none can, and then jumps to the next timer. A
client that waits looks at the job after a number of activities, and when none is ready.
-/

namespace ElasticJob

inductive Activity where
  | worker (index : Nat)
  | initializer (index : Nat)
  | historian
  deriving DecidableEq

structure Simulation (σ : Type) where
  scheduler : Scheduler σ ScriptedInitializer
  keepsHistory : Bool := true
  now : Nat := 0
  ready : List Activity := []
  /-- Due times and initializers, in the order of their start. -/
  timers : List (Nat × Nat) := []
  /-- What started initializers were told, in order. -/
  calls : List InitializerContext := []
  begun : List Nat := []

namespace Simulation

variable {σ : Type}

/-- The activities of the workers and initializers, each worker after the initializers of its
vertex. -/
def spawned (scheduler : Scheduler σ ScriptedInitializer) : List Activity :=
  let initializersOf (worker : Nat) :=
    (List.range scheduler.tasks.length).filter fun index =>
      (scheduler.tasks[index]?.map (·.worker)) = some worker
  (List.range scheduler.workers.length).flatMap fun worker =>
    (initializersOf worker).map .initializer ++ [.worker worker]

def start (keepsHistory : Bool) (scheduler : Scheduler σ ScriptedInitializer) : Simulation σ :=
  { scheduler, keepsHistory
    ready := (if keepsHistory then [.historian] else []) ++ spawned scheduler }

def hasEnded (simulation : Simulation σ) : Activity → Bool
  | .worker index =>
      match simulation.scheduler.workers[index]? with
      | some worker => worker.outcome.isSome
      | none => true
  | .initializer index =>
      match simulation.scheduler.tasks[index]? with
      | some task => task.stream.isSome
      | none => true
  | .historian => !simulation.keepsHistory

def wake (simulation : Simulation σ) (activity : Activity) : Simulation σ :=
  if activity ∈ simulation.ready ∨ simulation.hasEnded activity then simulation
  else { simulation with ready := simulation.ready ++ [activity] }

def wakeAll (simulation : Simulation σ) (activities : List Activity) : Simulation σ :=
  activities.foldl wake simulation

def withScheduler (simulation : Simulation σ) (scheduler : Scheduler σ ScriptedInitializer) :
    Simulation σ :=
  let moved := { simulation with scheduler }
  if simulation.scheduler.reported.length < scheduler.reported.length then moved.wake .historian
  else moved

def listeners (simulation : Simulation σ) (index : Nat) : List Activity :=
  match simulation.scheduler.workers[index]? with
  | some worker =>
      match worker.outcome with
      | some (.finalized _) => worker.downstream.map .worker
      | _ => []
  | none => []

/-- How many events a worker takes before the others get their turn. -/
def turnLength : Nat := 128

def workAll (behaviour : Behaviour σ) (index : Nat) (scheduler : Scheduler σ ScriptedInitializer) :
    Nat → Scheduler σ ScriptedInitializer
  | 0 => scheduler
  | count + 1 => workAll behaviour index (scheduler.work behaviour index) count

def startWorker (behaviour : Behaviour σ) (index : Nat)
    (scheduler : Scheduler σ ScriptedInitializer) : Scheduler σ ScriptedInitializer :=
  match scheduler.workers[index]? with
  | some worker =>
      if worker.lifecycle.phase = .uninitialized then scheduler.work behaviour index else scheduler
  | none => scheduler

def queueLength (scheduler : Scheduler σ ScriptedInitializer) (index : Nat) : Nat :=
  (scheduler.workers[index]?).elim 0 (·.queue.length)

/-- A worker runs until its queue is empty or its turn is over; after a full turn it lines up
again. -/
def runWorker (behaviour : Behaviour σ) (simulation : Simulation σ) (index : Nat) :
    Simulation σ :=
  if simulation.hasEnded (.worker index) then simulation
  else
    let started := startWorker behaviour index simulation.scheduler
    let waiting := queueLength started index
    let worked := workAll behaviour index started (min turnLength (waiting + 1))
    let next := simulation.withScheduler worked
    let woken := if turnLength ≤ waiting then next.wake (.worker index) else next
    woken.wakeAll (woken.listeners index)

def deliverAll (index : Nat) (scheduler : Scheduler σ ScriptedInitializer) :
    Nat → Scheduler σ ScriptedInitializer
  | 0 => scheduler
  | count + 1 => deliverAll index (scheduler.deliverNext index) count

def completeInitializer (simulation : Simulation σ) (index : Nat)
    (task : InitializerTask ScriptedInitializer) : Simulation σ :=
  let outcome := task.initializer.outcome task.context
  let completed := simulation.scheduler.complete index outcome
  let count := (toManagerEvents task.context.input outcome).length
  { simulation with scheduler := deliverAll index completed count }.wake (.worker task.worker)

def beginInitializer (simulation : Simulation σ) (index : Nat)
    (task : InitializerTask ScriptedInitializer) : Simulation σ :=
  let called := { simulation with
    calls := simulation.calls ++ [task.context]
    begun := simulation.begun ++ [index] }
  if task.initializer.hangs then called
  else if task.initializer.delay = 0 then called.completeInitializer index task
  else { called with timers := called.timers ++ [(called.now + task.initializer.delay, index)] }

def runInitializer (simulation : Simulation σ) (index : Nat) : Simulation σ :=
  match simulation.scheduler.tasks[index]? with
  | none => simulation
  | some task =>
      if task.stream.isSome || simulation.scheduler.isAborted then simulation
      else if index ∈ simulation.begun then simulation.completeInitializer index task
      else simulation.beginInitializer index task

def runActivity (behaviour : Behaviour σ) (simulation : Simulation σ) : Activity → Simulation σ
  | .worker index => simulation.runWorker behaviour index
  | .initializer index => simulation.runInitializer index
  | .historian => simulation

def runReady (behaviour : Behaviour σ) (simulation : Simulation σ) : Nat → Simulation σ
  | 0 => simulation
  | count + 1 =>
      match simulation.ready with
      | [] => simulation
      | activity :: rest =>
          let next := { simulation with ready := rest }.runActivity behaviour activity
          runReady behaviour next count

def eventCount (simulation : Simulation σ) : Nat :=
  let queued := simulation.scheduler.workers.foldl (fun count worker =>
    count + worker.queue.length) 0
  simulation.scheduler.tasks.foldl (fun count task =>
    count + (toManagerEvents task.context.input (task.initializer.outcome task.context)).length)
    queued

/-- Every activity becomes ready at most once for each worker that ends, each initializer, and the
step before; workers line up again for their events at most, and the historian follows a worker. -/
def readyBound (simulation : Simulation σ) : Nat :=
  let size := simulation.scheduler.workers.length + simulation.scheduler.tasks.length + 2
  2 * (simulation.ready.length + size * size + simulation.eventCount)

def settle (behaviour : Behaviour σ) (simulation : Simulation σ) : Simulation σ :=
  simulation.runReady behaviour simulation.readyBound

def nextDue? (simulation : Simulation σ) : Option Nat :=
  (simulation.timers.map Prod.fst).min?

/-- Time jumps to an instant, and the timers due then fire in the order of their start. -/
def jump (simulation : Simulation σ) (instant : Nat) : Simulation σ :=
  let due := simulation.timers.filter (·.1 = instant)
  { simulation with
    now := instant
    timers := simulation.timers.filter (·.1 ≠ instant) }.wakeAll
    (due.map fun (timer : Nat × Nat) => Activity.initializer timer.2)

def runUntil (behaviour : Behaviour σ) (instant : Nat) (simulation : Simulation σ) :
    Nat → Simulation σ
  | 0 => simulation
  | count + 1 =>
      let settled := simulation.settle behaviour
      match settled.nextDue? with
      | some due =>
          if due ≤ instant then runUntil behaviour instant (settled.jump due) count else settled
      | none => settled

/-- Lets time pass; every initializer has one timer at most. -/
def advance (behaviour : Behaviour σ) (simulation : Simulation σ) (milliseconds : Nat) :
    Simulation σ :=
  let instant := simulation.now + milliseconds
  let passed := simulation.runUntil behaviour instant (simulation.scheduler.tasks.length + 1)
  { passed with now := instant }

/-- How many activities run before a waiting client looks again. -/
def lookInterval : Nat := 61

def waitFor (behaviour : Behaviour σ) (isDone : Scheduler σ ScriptedInitializer → Bool)
    (simulation : Simulation σ) : Nat → Simulation σ
  | 0 => simulation
  | count + 1 =>
      if isDone simulation.scheduler then simulation
      else if !simulation.ready.isEmpty then
        waitFor behaviour isDone (simulation.runReady behaviour lookInterval) count
      else
        -- time stands still while the condition can come true without it
        match simulation.nextDue? with
        | some due => waitFor behaviour isDone (simulation.jump due) count
        | none => simulation

def await (behaviour : Behaviour σ) (isDone : Scheduler σ ScriptedInitializer → Bool)
    (simulation : Simulation σ) : Simulation σ :=
  let jumps := simulation.scheduler.tasks.length + 1
  simulation.waitFor behaviour isDone ((jumps + 1) * (simulation.readyBound + 2))

def awaitVertex (behaviour : Behaviour σ) (simulation : Simulation σ) (vertex : String) :
    Simulation σ × Except JobError (Option Reconfiguration) :=
  let waited := simulation.await behaviour fun scheduler =>
    match scheduler.awaited vertex with
    | .ok none => false
    | _ => true
  (waited, waited.scheduler.awaited vertex)

def awaitPlan (behaviour : Behaviour σ) (simulation : Simulation σ) :
    Simulation σ × Except JobError (Option Plan) :=
  let waited := simulation.await behaviour fun scheduler =>
    match scheduler.finalizedPlan with
    | .ok none => false
    | _ => true
  (waited, waited.scheduler.finalizedPlan)

def everyActivity (simulation : Simulation σ) : List Activity :=
  (List.range simulation.scheduler.workers.length).map .worker ++
    (List.range simulation.scheduler.tasks.length).map .initializer

def workersOf (simulation : Simulation σ) (vertices : List String) : List Activity :=
  vertices.filterMap fun vertex =>
    match (simulation.scheduler.handles.get? vertex).map Handle.standing with
    | some (.managed index) => some (Activity.worker index)
    | _ => none

def send (simulation : Simulation σ) (vertex : String) (event : ManagerEvent) :
    Simulation σ × Except JobError Unit :=
  let (scheduler, result) := simulation.scheduler.send vertex event
  ({ simulation with scheduler := scheduler }.wakeAll (simulation.workersOf [vertex]), result)

def taskCompleted (simulation : Simulation σ) (source : String) (task : UInt32) (size : UInt64) :
    Simulation σ × Except JobError Unit :=
  let (scheduler, result) := simulation.scheduler.taskCompleted source task size
  let fed := match simulation.scheduler.handles.get? source with
    | some handle => simulation.workersOf handle.downstream
    | none => []
  ({ simulation with scheduler := scheduler }.wakeAll fed, result)

def abort (simulation : Simulation σ) (reason : String) : Simulation σ :=
  let cancelled := { simulation with timers := [] }.wakeAll simulation.everyActivity
  cancelled.withScheduler (simulation.scheduler.abort reason)

def told (simulation : Simulation σ) : List HistoryFact :=
  if simulation.keepsHistory then simulation.scheduler.reported else []

def journals (simulation : Simulation (BuiltIn ⊕ ScriptedManager)) :
    SortedMap String (List JournalEntry) :=
  .group (simulation.scheduler.workers.flatMap fun worker =>
    match worker.manager with
    | .inl _ => []
    | .inr manager => manager.journal.map fun entry => (worker.context.vertex, entry))

def callsByVertex (simulation : Simulation σ) : SortedMap String (List InitializerContext) :=
  .group (simulation.calls.map fun call => (call.vertex, call))

end Simulation

end ElasticJob
