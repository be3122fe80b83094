import ElasticJob.Manager.Event
import ElasticJob.Manager.ShuffleSettings
import ElasticJob.Plan

/-!
The interface of vertex managers. What a manager sees of its vertex is its parallelism, the edges
that feed it, its initialized root inputs, and the final parallelism of its sources as far as it is
known. It keeps a state of its own; it is asked once when its vertex starts and once for every event,
and answers with a decision or a failure. The scheduler works with any manager, so everything about
it is stated over the state's type.
-/

namespace ElasticJob

structure InputEdge where
  id : EdgeId
  source : String
  movement : Movement
  outputClass : String
  outputPayload : Option Bytes
  deriving DecidableEq

structure Context where
  vertex : String
  parallelism : Parallelism
  payload : Option Bytes := none
  edges : List InputEdge := []
  inputs : List String := []
  sources : SortedMap String UInt32 := .empty
  deriving DecidableEq

namespace InputEdge

def ofEdge (id : EdgeId) (edge : Edge) : InputEdge :=
  { id := id
    source := edge.source
    movement := edge.property.movement
    outputClass := edge.property.output.className
    outputPayload := edge.property.output.payload }

end InputEdge

namespace Context

def setSource (context : Context) (source : String) (parallelism : UInt32) : Context :=
  { context with sources := context.sources.insert source parallelism }

def settledSource? (plan : Plan) (source : String) : Option (String × UInt32) :=
  match plan.vertex? source with
  | none => none
  | some vertex =>
      if vertex.needsReconfiguration then none
      else vertex.parallelism.fixed?.map fun tasks => (vertex.name, tasks)

def addEdge (plan : Plan) (context : Context) (id : EdgeId) : Context :=
  match plan.edge? id with
  | none => context
  | some edge =>
      let extended := { context with edges := context.edges ++ [InputEdge.ofEdge id edge] }
      match settledSource? plan edge.source with
      | some (source, tasks) => extended.setSource source tasks
      | none => extended

def ofPlan (plan : Plan) (vertex : Vertex) : Context :=
  vertex.inputEdges.foldl (addEdge plan)
    { vertex := vertex.name
      parallelism := vertex.parallelism
      payload := vertex.manager.bind (·.payload)
      inputs := vertex.initializedInputs.map (·.name) }

end Context

inductive ManagerError where
  | nothingToStartWith (vertex : String)
  | noInitializedInput (vertex : String)
  | splitsWithoutTasks (vertex input : String) (splits : Nat)
  | conflictingParallelism (vertex first second : String) (one other : UInt32)
  | inputFailed (vertex input detail : String)
  | noInitialParallelism (vertex : String)
  | settings (error : ShuffleSettingsError)
  | payload (error : JobError)
  | reported (detail : String)
  deriving DecidableEq

def ManagerError.message : ManagerError → String
  | nothingToStartWith vertex => s!"vertex `{vertex}` has no parallelism to start with"
  | noInitializedInput vertex => s!"vertex `{vertex}` is deferred but has no initialized root input"
  | splitsWithoutTasks vertex input splits =>
      s!"vertex `{vertex}` input `{input}` has {splits} splits but parallelism 0"
  | conflictingParallelism vertex first second one other =>
      s!"vertex `{vertex}` inputs `{first}` and `{second}` set conflicting parallelism " ++
        s!"{one.toNat} and {other.toNat}"
  | inputFailed vertex input detail =>
      s!"vertex `{vertex}` input `{input}` initializer failed. {detail}"
  | noInitialParallelism vertex =>
      s!"vertex `{vertex}` needs an initial parallelism for auto-reduce"
  | settings error => error.message
  | payload error => error.message
  | reported detail => detail

structure Behaviour (σ : Type) where
  start : Context → σ → σ × Except ManagerError Decision
  onEvent : Context → ManagerEvent → σ → σ × Except ManagerError Decision

namespace Behaviour

def onLeft {α β : Type} (result : α × Except ManagerError Decision) :
    (α ⊕ β) × Except ManagerError Decision :=
  (.inl result.1, result.2)

def onRight {α β : Type} (result : β × Except ManagerError Decision) :
    (α ⊕ β) × Except ManagerError Decision :=
  (.inr result.1, result.2)

def either {α β : Type} (left : Behaviour α) (right : Behaviour β) : Behaviour (α ⊕ β) where
  start context state :=
    match state with
    | .inl state => onLeft (left.start context state)
    | .inr state => onRight (right.start context state)
  onEvent context event state :=
    match state with
    | .inl state => onLeft (left.onEvent context event state)
    | .inr state => onRight (right.onEvent context event state)

end Behaviour

end ElasticJob
