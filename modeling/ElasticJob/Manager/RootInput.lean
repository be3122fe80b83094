import ElasticJob.Manager.Basic

/-!
A manager that waits for every initialized root input of its vertex. The parallelism is the one
that an initializer set, else the fixed one, else the largest number of splits of one input; the
splits of every input go round the tasks in turn.
-/

namespace ElasticJob

structure RootInputManager where
  /-- Inputs whose initializer has not completed, each once. -/
  waiting : List String := []
  /-- The first parallelism that was set, and the input that set it. -/
  directive : Option (String × UInt32) := none
  /-- How many splits of each input were seen. -/
  splits : SortedMap String Nat := .empty
  deriving DecidableEq

namespace RootInputManager

def addSplit (manager : RootInputManager) (input : String) : RootInputManager :=
  { manager with
    splits := manager.splits.insert input ((manager.splits.get? input).getD 0 + 1) }

def mostSplits (splits : SortedMap String Nat) : Nat :=
  splits.values.foldl max 0

def parallelism (manager : RootInputManager) (context : Context) : UInt32 :=
  match manager.directive, context.parallelism with
  | some (_, tasks), _ => tasks
  | none, .fixed tasks => tasks
  | none, .deferred => UInt32.ofNat (mostSplits manager.splits)

def roundRobin (tasks : UInt32) (splits : Nat) : Routing :=
  (List.range splits).map fun split => UInt32.ofNat (split % tasks.toNat)

def addRouting (vertex : String) (decision : Reconfiguration) (entry : String × Nat) :
    Except ManagerError Reconfiguration :=
  if entry.2 = 0 then .ok decision
  else if decision.parallelism = 0 then
    .error (.splitsWithoutTasks vertex entry.1 entry.2)
  else .ok (decision.withRouting entry.1 (roundRobin decision.parallelism entry.2))

def decide (manager : RootInputManager) (context : Context) : Except ManagerError Decision :=
  (manager.splits.entries.foldlM (addRouting context.vertex)
    { parallelism := manager.parallelism context }).map .finalize

def start (context : Context) (manager : RootInputManager) :
    RootInputManager × Except ManagerError Decision :=
  let started := { manager with waiting := context.inputs.eraseDups }
  if started.waiting.isEmpty then
    match context.parallelism with
    | .fixed _ => (started, started.decide context)
    | .deferred => (started, .error (.noInitializedInput context.vertex))
  else (started, .ok .pending)

def setParallelism (manager : RootInputManager) (vertex input : String) (tasks : UInt32) :
    RootInputManager × Except ManagerError Decision :=
  match manager.directive with
  | none => ({ manager with directive := some (input, tasks) }, .ok .pending)
  | some (first, other) =>
      if other = tasks then (manager, .ok .pending)
      else (manager, .error (.conflictingParallelism vertex first input other tasks))

def complete (manager : RootInputManager) (context : Context) (input : String) :
    RootInputManager × Except ManagerError Decision :=
  let next := { manager with waiting := manager.waiting.filter (· ≠ input) }
  if next.waiting.isEmpty then (next, next.decide context) else (next, .ok .pending)

def onEvent (context : Context) (event : ManagerEvent) (manager : RootInputManager) :
    RootInputManager × Except ManagerError Decision :=
  match event with
  | .dataInformation input _ _ => (manager.addSplit input, .ok .pending)
  | .setParallelism input tasks => manager.setParallelism context.vertex input tasks
  | .inputInitialized input => manager.complete context input
  | .inputFailed input detail => (manager, .error (.inputFailed context.vertex input detail))
  | .sourceConfigured _ _ | .taskCompleted _ _ _ => (manager, .ok .pending)

def behaviour : Behaviour RootInputManager := ⟨start, onEvent⟩

end RootInputManager

end ElasticJob
