import ElasticJob.Scheduler.Basic

/-!
Everything that can happen to a running job, one step at a time: calls of clients, the completion
of an initializer and the delivery of its events, and the steps of workers. Steps come in any
order. A worker first starts its manager, whether or not the job was aborted; after that an abort
comes before any queued event.
-/

namespace ElasticJob.Scheduler

variable {σ ι : Type}

def send (scheduler : Scheduler σ ι) (vertex : String) (event : ManagerEvent) :
    Scheduler σ ι × Except JobError Unit :=
  match scheduler.handle vertex with
  | .error error => (scheduler, .error error)
  | .ok handle =>
      let phase := scheduler.phaseOf handle.standing
      if phase.isTerminated then
        (scheduler, .error (.invalidState
          s!"vertex `{vertex}` is {phase.name}, reconfiguration events are rejected"))
      else
        match handle.standing with
        | .managed index => (scheduler.deliver index event, .ok ())
        -- not reached: a settled vertex is in a terminal phase
        | .settled _ =>
            (scheduler, .error (.invalidState s!"vertex `{vertex}` stopped consuming events"))

/-- Passes an event to the vertices of these names that are not terminal yet. -/
def notify (event : ManagerEvent) (scheduler : Scheduler σ ι) :
    List String → Scheduler σ ι × Except JobError Unit
  | [] => (scheduler, .ok ())
  | vertex :: rest =>
      match scheduler.handle vertex with
      | .error error => (scheduler, .error error)
      | .ok handle =>
          match handle.standing with
          | .settled _ => notify event scheduler rest
          | .managed index =>
              if (scheduler.phaseOf handle.standing).isTerminated then notify event scheduler rest
              else notify event (scheduler.deliver index event) rest

def taskCompleted (scheduler : Scheduler σ ι) (source : String) (task : UInt32) (size : UInt64) :
    Scheduler σ ι × Except JobError Unit :=
  match scheduler.handle source with
  | .error error => (scheduler, .error error)
  | .ok handle => notify (.taskCompleted source task size) scheduler handle.downstream

def abort (scheduler : Scheduler σ ι) (reason : String) : Scheduler σ ι :=
  if scheduler.isAborted then scheduler
  else { scheduler with isAborted := true }.report (.jobAborted reason)

/-- The outcome is published last; what is still queued is dropped. -/
def endWorker (worker : Worker σ) (outcome : Outcome) : Worker σ :=
  { worker with outcome := some outcome, queue := [] }

def abortWorker (scheduler : Scheduler σ ι) (index : Nat) (worker : Worker σ) (reason : String) :
    Scheduler σ ι :=
  match worker.lifecycle.abort with
  | (life, true) =>
      scheduler.putWorker index (endWorker { worker with lifecycle := life } (.aborted reason))
  | (_, false) => scheduler.putWorker index worker

def tellParallelism (event : ManagerEvent) (scheduler : Scheduler σ ι) (index : Nat) :
    Scheduler σ ι :=
  scheduler.deliver index event

/-- Managers downstream hear of the parallelism before any reader does. -/
def finalizeWorker (scheduler : Scheduler σ ι) (index : Nat) (worker : Worker σ)
    (decision : Reconfiguration) : Scheduler σ ι :=
  match worker.lifecycle.finalize decision with
  | (_, .error _) => scheduler.putWorker index worker
  | (life, .ok _) =>
      let vertex := worker.lifecycle.vertex
      let ended := { worker with lifecycle := life }
      let told := (scheduler.putWorker index ended).report
        (.vertexReconfigured vertex decision.parallelism)
      -- queued before the outcome is published, so no reader is ahead of a manager
      let heard := worker.downstream.foldl
        (tellParallelism (.sourceConfigured vertex decision.parallelism)) told
      heard.putWorker index (endWorker ended (.finalized decision))

def settle (scheduler : Scheduler σ ι) (index : Nat) (worker : Worker σ) :
    Except ManagerError Decision → Scheduler σ ι
  | .ok .pending =>
      scheduler.putWorker index { worker with lifecycle := worker.lifecycle.endEvent }
  | .ok (.finalize decision) => scheduler.finalizeWorker index worker decision
  | .error error => scheduler.abortWorker index worker error.message

def startWorker (behaviour : Behaviour σ) (scheduler : Scheduler σ ι) (index : Nat)
    (worker : Worker σ) : Scheduler σ ι :=
  match worker.lifecycle.awaitEvents with
  | (_, .error error) => scheduler.abortWorker index worker error.message
  | (life, .ok ()) =>
      -- no look at an abort: the manager of a fresh worker is always asked
      let (manager, answer) := behaviour.start worker.context worker.manager
      (scheduler.report (.vertexStarted worker.lifecycle.vertex)).settle index
        { worker with lifecycle := life, manager := manager } answer

def learn (context : Context) : ManagerEvent → Context
  | .sourceConfigured source parallelism => context.setSource source parallelism
  | _ => context

def consume (behaviour : Behaviour σ) (scheduler : Scheduler σ ι) (index : Nat)
    (worker : Worker σ) (event : ManagerEvent) : Scheduler σ ι :=
  let context := learn worker.context event
  let informed := { worker with context := context }
  match worker.lifecycle.beginEvent with
  | (_, .error _) => scheduler.putWorker index informed
  | (life, .ok ()) =>
      let (manager, answer) := behaviour.onEvent context event worker.manager
      scheduler.settle index { informed with lifecycle := life, manager := manager } answer

/-- One step of a worker; nothing happens where it has ended or has nothing to do. -/
def work (behaviour : Behaviour σ) (scheduler : Scheduler σ ι) (index : Nat) : Scheduler σ ι :=
  match scheduler.workers[index]? with
  | none => scheduler
  | some worker =>
      if worker.outcome.isSome then scheduler
      else if worker.lifecycle.phase = .uninitialized then
        scheduler.startWorker behaviour index worker
      else if scheduler.isAborted then scheduler.abortWorker index worker "job aborted"
      else
        match worker.queue with
        | [] => scheduler
        | event :: rest => scheduler.consume behaviour index { worker with queue := rest } event

def putTask (scheduler : Scheduler σ ι) (index : Nat) (task : InitializerTask ι) :
    Scheduler σ ι :=
  { scheduler with tasks := scheduler.tasks.set index task }

def complete (scheduler : Scheduler σ ι) (index : Nat) (outcome : InitializerOutcome) :
    Scheduler σ ι :=
  match scheduler.tasks[index]? with
  | none => scheduler
  | some task =>
      if task.stream.isSome then scheduler
      else
        scheduler.putTask index
          { task with stream := some (toManagerEvents task.context.input outcome) }

def deliverNext (scheduler : Scheduler σ ι) (index : Nat) : Scheduler σ ι :=
  match scheduler.tasks[index]? with
  | none => scheduler
  | some task =>
      match task.stream with
      | some (event :: rest) =>
          (scheduler.putTask index { task with stream := some rest }).deliver task.worker event
      | _ => scheduler

inductive Action where
  | send (vertex : String) (event : ManagerEvent)
  | taskCompleted (source : String) (task : UInt32) (size : UInt64)
  | abort (reason : String)
  | complete (initializer : Nat) (outcome : InitializerOutcome)
  | deliverNext (initializer : Nat)
  | work (worker : Nat)

def perform (behaviour : Behaviour σ) (scheduler : Scheduler σ ι) : Action → Scheduler σ ι
  | .send vertex event => (scheduler.send vertex event).1
  | .taskCompleted source task size => (scheduler.taskCompleted source task size).1
  | .abort reason => scheduler.abort reason
  | .complete initializer outcome => scheduler.complete initializer outcome
  | .deliverNext initializer => scheduler.deliverNext initializer
  | .work worker => scheduler.work behaviour worker

def run (behaviour : Behaviour σ) (scheduler : Scheduler σ ι) (actions : List Action) :
    Scheduler σ ι :=
  actions.foldl (perform behaviour) scheduler

end ElasticJob.Scheduler
