import ElasticJob.Manager.Registry
import ElasticJob.Scheduler.Basic

/-!
Submission of a plan. First every manager and initializer is created, so that an unknown class
refuses the plan before anything starts. Then the vertices are taken in plan order: a vertex with
a manager gets a worker and starts its initializers, any other is settled by its fixed parallelism.
-/

namespace ElasticJob

structure Staff (σ ι : Type) where
  vertex : String
  manager : Option σ
  initializers : List (InitializerContext × ι)

structure Submission (σ ι : Type) where
  scheduler : Scheduler σ ι
  result : Except JobError Unit

namespace Submission

variable {σ ι : Type}

def createInitializer (initializers : Registry ι) (vertex : Vertex) (input : RootInput) :
    Except JobError (InitializerContext × ι) := do
  let className := (input.initializer.map (·.className)).getD ""
  return (.ofInput vertex input, ← initializers.createInitializer className)

def createStaff (managers : Registry σ) (initializers : Registry ι) (vertex : Vertex) :
    Except JobError (Staff σ ι) := do
  let manager ← managers.managerFor? vertex
  let created ← vertex.initializedInputs.mapM (createInitializer initializers vertex)
  return ⟨vertex.name, manager, created⟩

/-- Names of the vertices that get a worker, in plan order. Where a name comes twice, only its
first vertex can have one. -/
def managedNames (seen : List String) : List (Staff σ ι) → List String
  | [] => []
  | staff :: rest =>
      let later := managedNames (staff.vertex :: seen) rest
      if staff.manager.isSome ∧ staff.vertex ∉ seen then staff.vertex :: later else later

def workerIndex? (managed : List String) (name : String) : Option Nat :=
  if name ∈ managed then some (managed.idxOf name) else none

def putHandle (scheduler : Scheduler σ ι) (vertex : String) (standing : Standing) :
    Scheduler σ ι :=
  { scheduler with
    handles := scheduler.handles.insert vertex ⟨standing, scheduler.plan.destinationsOf vertex⟩ }

/-- Settles a vertex that nothing will change. -/
def settleVertex (scheduler : Scheduler σ ι) (vertex : Vertex) :
    Scheduler σ ι × Except JobError Unit :=
  match vertex.parallelism with
  | .deferred =>
      (scheduler, .error (.invalidState
        s!"vertex `{vertex.name}` has parallelism -1 and nothing to decide it"))
  | .fixed tasks =>
      (putHandle (scheduler.report (.vertexFinalized vertex.name tasks)) vertex.name
        (.settled { parallelism := tasks }), .ok ())

def staffVertex (managed : List String) (scheduler : Scheduler σ ι) (vertex : Vertex) (manager : σ)
    (initializers : List (InitializerContext × ι)) : Scheduler σ ι :=
  let index := scheduler.workers.length
  let worker : Worker σ := {
    context := .ofPlan scheduler.plan vertex
    lifecycle := .create vertex.name
    manager := manager
    downstream := (scheduler.plan.destinationsOf vertex.name).filterMap (workerIndex? managed) }
  let tasks := initializers.map fun entry =>
    { worker := index, context := entry.1, initializer := entry.2 : InitializerTask ι }
  putHandle { scheduler with
    workers := scheduler.workers ++ [worker]
    tasks := scheduler.tasks ++ tasks } vertex.name (.managed index)

def startAll (managed seen : List String) (scheduler : Scheduler σ ι) :
    List (Staff σ ι) → Submission σ ι
  | [] => ⟨scheduler, .ok ()⟩
  | staff :: rest =>
      match scheduler.plan.vertex? staff.vertex with
      | none => ⟨scheduler, .error (.vertexNotFound staff.vertex)⟩
      | some vertex =>
          match staff.manager, decide (staff.vertex ∈ seen) with
          | some manager, false =>
              startAll managed (staff.vertex :: seen)
                (staffVertex managed scheduler vertex manager staff.initializers) rest
          | _, _ =>
              -- also the second vertex of a name: the first one took the worker
              match settleVertex scheduler vertex with
              | (settled, .ok ()) => startAll managed (staff.vertex :: seen) settled rest
              | (settled, .error error) => ⟨settled, .error error⟩

theorem startAll_cases (managed seen : List String) (first : Staff σ ι) (rest : List (Staff σ ι))
    (scheduler : Scheduler σ ι) (vertex : Vertex)
    (found : scheduler.plan.vertex? first.vertex = some vertex) :
    (∃ manager, first.manager = some manager ∧ first.vertex ∉ seen ∧
      startAll managed seen scheduler (first :: rest) = startAll managed (first.vertex :: seen)
        (staffVertex managed scheduler vertex manager first.initializers) rest) ∨
    (first.manager = none ∨ first.vertex ∈ seen) ∧
      ((∃ tasks, vertex.parallelism = .fixed tasks ∧
        startAll managed seen scheduler (first :: rest) = startAll managed (first.vertex :: seen)
          (putHandle (scheduler.report (.vertexFinalized vertex.name tasks)) vertex.name
            (.settled { parallelism := tasks })) rest) ∨
      vertex.parallelism = .deferred ∧
        startAll managed seen scheduler (first :: rest) = ⟨scheduler, .error (.invalidState
          s!"vertex `{vertex.name}` has parallelism -1 and nothing to decide it")⟩) := by
  rw [startAll]
  simp only [found]
  cases chosen : first.manager with
  | some manager =>
      by_cases again : first.vertex ∈ seen
      · right
        refine ⟨.inr again, ?_⟩
        cases fixed : vertex.parallelism <;> simp [again, settleVertex, fixed]
      · exact .inl ⟨manager, rfl, again, by simp [again]⟩
  | none =>
      right
      refine ⟨.inl rfl, ?_⟩
      cases fixed : vertex.parallelism <;> simp [settleVertex, fixed]

/-- What staffing and settling a vertex keep, a start keeps, also one that stops. -/
theorem startAll_keeps (property : Scheduler σ ι → Prop) (managed seen : List String)
    (staff : List (Staff σ ι)) (scheduler : Scheduler σ ι)
    (staffed : ∀ before vertex manager initializers, property before →
      property (staffVertex managed before vertex manager initializers))
    (settled : ∀ before vertex tasks, property before →
      property (putHandle (before.report (.vertexFinalized vertex tasks)) vertex
        (.settled { parallelism := tasks })))
    (holds : property scheduler) :
    property (startAll managed seen scheduler staff).scheduler := by
  induction staff generalizing seen scheduler with
  | nil => exact holds
  | cons first rest ih =>
      cases found : scheduler.plan.vertex? first.vertex with
      | none => simpa [startAll, found] using holds
      | some vertex =>
          rcases startAll_cases managed seen first rest scheduler vertex found with
            ⟨manager, _, _, same⟩ | ⟨_, ⟨tasks, _, same⟩ | ⟨_, stopped⟩⟩
          · rw [same]
            exact ih _ _ (staffed scheduler vertex manager first.initializers holds)
          · rw [same]
            exact ih _ _ (settled scheduler vertex.name tasks holds)
          · rw [stopped]
            exact holds

end Submission

namespace Scheduler

variable {σ ι : Type}

def submit (plan : Plan) (managers : Registry σ) (initializers : Registry ι) : Submission σ ι :=
  match plan.vertices.mapM (Submission.createStaff managers initializers) with
  | .error error => ⟨{ plan := plan }, .error error⟩
  | .ok staff =>
      let count := UInt64.ofNat plan.vertices.length
      Submission.startAll (Submission.managedNames [] staff) []
        ({ plan := plan : Scheduler σ ι }.report (.submitted count)) staff

end Scheduler

end ElasticJob
