import ElasticJob.Manager.Basic
import ElasticJob.Manager.RootInput
import ElasticJob.Manager.Shuffle

/-!
Pluggable classes by name, and the managers that every registry of managers starts with, among them
the one that decides at once for the parallelism its vertex was made with. What is registered is the
state that a new manager starts in.
-/

namespace ElasticJob

namespace Immediate

def start (context : Context) : Except ManagerError Decision :=
  match context.parallelism with
  | .fixed tasks => .ok (.finalize { parallelism := tasks })
  | .deferred => .error (.nothingToStartWith context.vertex)

def behaviour : Behaviour Unit where
  start context state := (state, start context)
  onEvent _ _ state := (state, .ok .pending)

end Immediate

structure Registry (α : Type) where
  classes : SortedMap String α

namespace Registry

variable {α : Type}

def empty : Registry α := ⟨.empty⟩

def register (registry : Registry α) (className : String) (value : α) : Registry α :=
  ⟨registry.classes.insert className value⟩

def contains (registry : Registry α) (className : String) : Bool :=
  registry.classes.contains className

def create (registry : Registry α) (kind className : String) : Except JobError α :=
  match registry.classes.get? className with
  | some value => .ok value
  | none => .error (.invalidArgument s!"{kind} `{className}` not registered")

def createManager (registry : Registry α) (className : String) : Except JobError α :=
  registry.create "vertex manager plugin" className

def createInitializer (registry : Registry α) (className : String) : Except JobError α :=
  registry.create "root input initializer" className

end Registry

inductive BuiltIn where
  | immediate
  | rootInput (manager : RootInputManager)
  | shuffle (manager : ShuffleManager)
  deriving DecidableEq

namespace BuiltIn

def immediateClass : String := "dagflow.manager.ImmediateStartVertexManager"

def rootInputClass : String := "dagflow.manager.RootInputVertexManager"

def shuffleClass : String := "dagflow.manager.ShuffleVertexManager"

def start (context : Context) : BuiltIn → BuiltIn × Except ManagerError Decision
  | immediate => (immediate, Immediate.start context)
  | rootInput manager =>
      let (next, result) := manager.start context
      (rootInput next, result)
  | shuffle manager =>
      let (next, result) := manager.start context
      (shuffle next, result)

def onEvent (context : Context) (event : ManagerEvent) :
    BuiltIn → BuiltIn × Except ManagerError Decision
  | immediate => (immediate, .ok .pending)
  | rootInput manager =>
      let (next, result) := manager.onEvent context event
      (rootInput next, result)
  | shuffle manager =>
      let (next, result) := manager.onEvent context event
      (shuffle next, result)

def behaviour : Behaviour BuiltIn := ⟨start, onEvent⟩

def registry : Registry BuiltIn :=
  ((Registry.empty.register immediateClass immediate).register rootInputClass
    (rootInput {})).register shuffleClass (shuffle {})

end BuiltIn

/-- The manager of a vertex: the one it names, else the root input manager where an input has an
initializer, else none. -/
def Registry.managerFor? {σ : Type} (registry : Registry σ) (vertex : Vertex) :
    Except JobError (Option σ) :=
  match vertex.manager with
  | some descriptor => (registry.createManager descriptor.className).map some
  | none =>
      if vertex.initializedInputs.isEmpty then .ok none
      else (registry.createManager BuiltIn.rootInputClass).map some

end ElasticJob
