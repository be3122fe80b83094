import ElasticJob.Manager.Basic
import ElasticJob.Settings.Output

/-!
A manager that reduces the parallelism of a vertex fed by scattered edges. Once enough source
tasks completed, their output is extrapolated to all source tasks, and the wanted parallelism is
the estimate divided by the size that one task should read. Every task then reads the same number
of adjacent partitions, the last one maybe fewer. Where that number is one, nothing changes.
-/

namespace ElasticJob

structure SourceTask where
  source : String
  index : UInt32
  deriving DecidableEq

namespace SourceTask

instance : Ord SourceTask :=
  ⟨compareLex (compareOn source) (compareOn index)⟩

instance : Std.TransOrd SourceTask :=
  inferInstanceAs (Std.TransCmp (compareLex (compareOn source) (compareOn index)))

instance : Std.LawfulEqOrd SourceTask where
  eq_of_compare {a b} same := by
    have both : (compare a.source b.source).then (compare a.index b.index) = .eq := same
    rw [Ordering.then_eq_eq] at both
    cases a
    cases b
    simp only [SourceTask.mk.injEq]
    exact ⟨Std.LawfulEqCmp.eq_of_compare both.1, Std.LawfulEqCmp.eq_of_compare both.2⟩

instance : KeyOrder SourceTask where

end SourceTask

structure ShuffleManager where
  settings : ShuffleSettings := {}
  initial : UInt32 := 0
  /-- Sources of scattered edges, each once. -/
  sources : List String := []
  completed : SortedMap SourceTask UInt64 := .empty
  deriving DecidableEq

namespace ShuffleManager

def total : List Nat → Nat
  | [] => 0
  | value :: rest => value + total rest

/-- The number of tasks of all sources; unknown while one of them is. -/
def totalTasks? (manager : ShuffleManager) (context : Context) : Option Nat :=
  (manager.sources.mapM context.sources.get?).map fun tasks => total (tasks.map UInt32.toNat)

def completedSize (manager : ShuffleManager) : Nat :=
  total (manager.completed.values.map UInt64.toNat)

/-- The output of all tasks, extrapolated from the completed ones. -/
def estimate (manager : ShuffleManager) (total : Nat) : Nat :=
  manager.completedSize * total / manager.completed.size

/-- Whether fewer than the wanted part of the source tasks completed. The quotient is rounded to
double precision before it is compared. -/
def tooFew (manager : ShuffleManager) (total : Nat) : Bool :=
  manager.completed.size = 0 ||
    (Number.doubleQuotient manager.completed.size total).lt manager.settings.fraction.magnitude

def desired (manager : ShuffleManager) (estimate : Nat) : Nat :=
  let size := manager.settings.desiredSize.toNat
  min (max ((estimate + size - 1) / size) 1) manager.initial.toNat

def ceilingDivide (partitions share : Nat) : Nat :=
  partitions / share + if partitions % share = 0 then 0 else 1

def ranges (partitions share : Nat) : Routing :=
  (List.range partitions).map fun partition => UInt32.ofNat (partition / max share 1)

def retargetPayload (payload : Option Bytes) (tasks : UInt32) : Except ManagerError Bytes := do
  let conf ← match payload with
    | some payload =>
        (Properties.ofBytes OutputSettings.component payload).mapError ManagerError.payload
    | none => .ok (Properties.empty OutputSettings.component)
  ((conf.setInteger Settings.Key.destinationTaskCount tasks.toNat).toBytes).mapError
    ManagerError.payload

def routeEdge (routing : Routing) (decision : Reconfiguration) (edge : InputEdge) :
    Except ManagerError Reconfiguration :=
  if edge.movement ≠ .scatterGather then .ok decision
  else
    let routed := decision.withRouting edge.source routing
    if edge.outputClass ≠ OutputSettings.className then .ok routed
    else
      (retargetPayload edge.outputPayload decision.parallelism).map fun payload =>
        routed.withPayload edge.id payload

def reduce (manager : ShuffleManager) (context : Context) (share : Nat) :
    Except ManagerError Decision :=
  let initial := manager.initial.toNat
  (context.edges.foldlM (routeEdge (ranges initial share))
    { parallelism := UInt32.ofNat (ceilingDivide initial share) }).map .finalize

def keep (manager : ShuffleManager) : Except ManagerError Decision :=
  .ok (.finalize { parallelism := manager.initial })

def tryDecide (manager : ShuffleManager) (context : Context) : Except ManagerError Decision :=
  match manager.totalTasks? context with
  | none => .ok .pending
  | some total =>
      if total = 0 then manager.keep
      else if manager.tooFew total then .ok .pending
      else if !manager.settings.reduces then manager.keep
      else
        -- at least one task is desired and at most the initial number, so the share is not zero
        let share := manager.initial.toNat / manager.desired (manager.estimate total)
        if share ≤ 1 then manager.keep else manager.reduce context share

def scatteredSources (context : Context) : List String :=
  ((context.edges.filter (·.movement = .scatterGather)).map (·.source)).eraseDups

def start (context : Context) (manager : ShuffleManager) :
    ShuffleManager × Except ManagerError Decision :=
  match ShuffleSettings.ofPayload context.payload with
  | .error error => (manager, .error (.settings error))
  | .ok settings =>
      match context.parallelism with
      | .deferred => ({ manager with settings := settings },
          .error (.noInitialParallelism context.vertex))
      | .fixed tasks =>
          let started := { manager with
            settings := settings
            initial := tasks
            sources := scatteredSources context }
          if started.sources.isEmpty || tasks = 0 then (started, started.keep)
          else (started, started.tryDecide context)

/-- The last size that a task reports counts; tasks of other sources do not. -/
def recordTask (manager : ShuffleManager) (source : String) (task : UInt32) (size : UInt64) :
    ShuffleManager :=
  if manager.sources.contains source then
    { manager with completed := manager.completed.insert ⟨source, task⟩ size }
  else manager

def onEvent (context : Context) (event : ManagerEvent) (manager : ShuffleManager) :
    ShuffleManager × Except ManagerError Decision :=
  match event with
  | .taskCompleted source task size =>
      let next := manager.recordTask source task size
      (next, next.tryDecide context)
  | .sourceConfigured _ _ => (manager, manager.tryDecide context)
  | _ => (manager, .ok .pending)

def behaviour : Behaviour ShuffleManager := ⟨start, onEvent⟩

end ShuffleManager

end ElasticJob
