import ElasticJob.Proofs.Manager.Sizing

/-!
More output never leads to fewer tasks. Of two managers that heard of the same tasks, the one that
heard of less output, or that is to give more of it to one task, gives every task at least as many
partitions. So it decides for no more tasks than the other, also where one of them lowers their
number and the other one keeps it.
-/

namespace ElasticJob

namespace ShuffleManager

/-- What a manager decides, either because enough of the source tasks completed or, at its start,
because it has no sources or no tasks. -/
def Decides (manager : ShuffleManager) (context : Context) (decision : Reconfiguration) : Prop :=
  manager.tryDecide context = .ok (.finalize decision) ∨
    (manager.sources = [] ∨ manager.initial = 0) ∧ manager.keep = .ok (.finalize decision)

/-- Every decision of a run is one of these. -/
theorem answered_decision {context informed : Context} {settings : ShuffleSettings}
    {initial : UInt32} {heard : List ManagerEvent} {manager : ShuffleManager}
    {decision : Reconfiguration}
    (accepted : ShuffleSettings.ofPayload context.payload = .ok settings)
    (fixed : context.parallelism = .fixed initial)
    (answered : behaviour.Answered context {} heard informed manager (.ok (.finalize decision))) :
    Decides manager informed decision :=
  (answered_decides accepted fixed answered).imp Eq.symm fun kept => ⟨kept.2.1, kept.2.2.symm⟩

section Counts

theorem ceilingDivide_anti {partitions small large : Nat} (positive : 0 < small)
    (less : small ≤ large) : ceilingDivide partitions large ≤ ceilingDivide partitions small := by
  refine le_of_forall_lt fun task counts => ?_
  rw [lt_ceilingDivide_iff (Nat.lt_of_lt_of_le positive less)] at counts
  rw [lt_ceilingDivide_iff positive]
  exact Nat.lt_of_le_of_lt (Nat.mul_le_mul_left _ less) counts

@[simp]
theorem ceilingDivide_one (partitions : Nat) : ceilingDivide partitions 1 = partitions := by
  simp [ceilingDivide, Nat.mod_one]

@[simp]
theorem zero_ceilingDivide (share : Nat) : ceilingDivide 0 share = 0 := by
  simp [ceilingDivide]

theorem wanted_mono {coarse fine : ShuffleSettings} {expected other : Nat}
    (positive : 0 < fine.desiredSize) (finer : fine.desiredSize ≤ coarse.desiredSize)
    (more : expected ≤ other) : wanted coarse expected ≤ wanted fine other := by
  have large : 0 < coarse.desiredSize.toNat :=
    Nat.lt_of_lt_of_le (UInt64.lt_iff_toNat_lt.mp positive) (UInt64.le_iff_toNat_le.mp finer)
  refine max_le (le_max_left ..) ((ceilDiv_le_iff_le_mul large).mpr ?_)
  calc expected ≤ other := more
    _ ≤ fine.desiredSize.toNat * wanted fine other := expected_le positive other
    _ ≤ coarse.desiredSize.toNat * wanted fine other :=
        Nat.mul_le_mul_right _ (UInt64.le_iff_toNat_le.mp finer)

end Counts

section PerTask

variable {manager : ShuffleManager} {context : Context} {tasks : Nat} {decision : Reconfiguration}

def perTask (manager : ShuffleManager) (tasks : Nat) : Nat :=
  if 0 < tasks ∧ manager.settings.reduces = true ∧ 2 ≤ manager.share tasks then
    manager.share tasks
  else 1

theorem perTask_pos (manager : ShuffleManager) (tasks : Nat) : 0 < manager.perTask tasks := by
  unfold perTask
  split <;> omega

theorem tryDecide_parallelism (decided : manager.tryDecide context = .ok (.finalize decision)) :
    ∃ tasks, manager.totalTasks? context = some tasks ∧
      decision.parallelism.toNat =
        ceilingDivide manager.initial.toNat (manager.perTask tasks) := by
  have kept (same : manager.keep = .ok (.finalize decision)) :
      decision.parallelism.toNat = ceilingDivide manager.initial.toNat 1 := by
    cases same
    exact (ceilingDivide_one _).symm
  obtain ⟨tasks, counted, due | ⟨rfl, same⟩⟩ := tryDecide_finalized decided
  · refine ⟨tasks, counted, ?_⟩
    rw [due.tryDecide_eq] at decided
    unfold perTask
    split at decided
    next lowers =>
      rw [if_pos ⟨due.present, lowers⟩]
      exact (reduce_spreads lowers.2 (Nat.div_le_self _ _) decided).1
    next single =>
      rw [if_neg fun lowers => single lowers.2]
      exact kept decided
  · refine ⟨0, counted, ?_⟩
    rw [perTask, if_neg (by simp)]
    exact kept same

/-- Whether a decision lowers the number of tasks or keeps it, it is the number that the partitions
of one task need. Where the sources are not all known, there are no partitions. -/
theorem Decides.parallelism (decides : Decides manager context decision) :
    decision.parallelism.toNat = ceilingDivide manager.initial.toNat
      (manager.perTask ((manager.totalTasks? context).getD 0)) := by
  rcases decides with decided | ⟨idle, kept⟩
  · obtain ⟨tasks, counted, parallelism⟩ := tryDecide_parallelism decided
    rw [counted]
    exact parallelism
  · cases kept
    rcases idle with none | empty
    · have counted : manager.totalTasks? context = some 0 := by simp [totalTasks?, none, total]
      simp [counted, perTask]
    · simp [empty]

end PerTask

structure Lighter (first second : ShuffleManager) : Prop where
  initial : first.initial = second.initial
  sources : first.sources.Perm second.sources
  reduces : first.settings.reduces = second.settings.reduces
  desired : second.settings.desiredSize ≤ first.settings.desiredSize
  sameTasks : ∀ task, first.completed.contains task = second.completed.contains task
  less : ∀ task small large, first.completed.get? task = some small →
    second.completed.get? task = some large → small ≤ large

section Lighter

variable {first second : ShuffleManager} {tasks : Nat}

theorem completedSize_eq (manager : ShuffleManager) :
    manager.completedSize = (manager.completed.keys.map fun task =>
      ((manager.completed.get? task).getD 0).toNat).sum := by
  rw [completedSize, total_eq_sum, SortedMap.values, SortedMap.keys, List.map_map, List.map_map]
  congr 1
  refine List.map_congr_left fun entry member => ?_
  simp [SortedMap.get?_eq_some_iff.mpr (show (entry.1, entry.2) ∈ _ from member)]

variable (lighter : Lighter first second)

include lighter

theorem Lighter.keys_perm : first.completed.keys.Perm second.completed.keys := by
  rw [List.perm_ext_iff_of_nodup first.completed.keys_nodup second.completed.keys_nodup]
  intro task
  rw [← SortedMap.contains_iff, ← SortedMap.contains_iff, lighter.sameTasks]

theorem Lighter.completedSize_le : first.completedSize ≤ second.completedSize := by
  rw [completedSize_eq, completedSize_eq, ← (lighter.keys_perm.map _).sum_eq]
  refine List.sum_le_sum fun task listed => ?_
  obtain ⟨small, reported⟩ := Option.isSome_iff_exists.mp (SortedMap.contains_iff.mpr listed)
  obtain ⟨large, more⟩ := Option.isSome_iff_exists.mp
    (SortedMap.contains_iff.mpr (lighter.keys_perm.mem_iff.mp listed))
  rw [reported, more]
  exact UInt64.le_iff_toNat_le.mp (lighter.less task small large reported more)

theorem Lighter.estimate_le (tasks : Nat) : first.estimate tasks ≤ second.estimate tasks := by
  have size : first.completed.size = second.completed.size := by
    simpa [SortedMap.keys, SortedMap.size] using lighter.keys_perm.length_eq
  rw [estimate, estimate, size]
  exact Nat.div_le_div_right (Nat.mul_le_mul_right _ lighter.completedSize_le)

variable (positive : 0 < second.settings.desiredSize)

include positive

theorem Lighter.share_le (tasks : Nat) : second.share tasks ≤ first.share tasks := by
  have wanted := wanted_mono positive lighter.desired (lighter.estimate_le tasks)
  have some : 1 ≤ ShuffleManager.wanted first.settings (first.estimate tasks) := le_max_left ..
  rw [share, share, desired_eq, desired_eq, lighter.initial]
  rcases Nat.eq_zero_or_pos second.initial.toNat with none | more
  · simp [none]
  · exact Nat.div_le_div_left (min_le_min_right _ wanted) (by omega)

theorem Lighter.perTask_le (tasks : Nat) : second.perTask tasks ≤ first.perTask tasks := by
  have less := lighter.share_le positive tasks
  by_cases lowers : 0 < tasks ∧ second.settings.reduces = true ∧ 2 ≤ second.share tasks
  · obtain ⟨some, reduces, several⟩ := lowers
    rw [perTask, perTask, if_pos ⟨some, reduces, several⟩,
      if_pos ⟨some, lighter.reduces.trans reduces, Nat.le_trans several less⟩]
    exact less
  · rw [perTask, if_neg lowers]
    exact first.perTask_pos tasks

end Lighter

/-- Of two managers with the same number of tasks to begin with, the same sources and the same
reported tasks, the one with the smaller sizes, or the larger desired size, does not decide for more
tasks than the other, whether it lowers their number or not. -/
theorem parallelism_is_monotone (here there : Context) (first second : ShuffleManager)
    (low high : Reconfiguration) (lighter : Lighter first second)
    (positive : 0 < second.settings.desiredSize)
    (known : ∀ source ∈ first.sources, here.sources.get? source = there.sources.get? source)
    (one : Decides first here low) (other : Decides second there high) :
    low.parallelism ≤ high.parallelism := by
  have tasks : first.totalTasks? here = second.totalTasks? there :=
    (tasksIn_congr known).trans (tasksIn_perm there lighter.sources)
  rw [UInt32.le_iff_toNat_le, one.parallelism, other.parallelism, tasks, lighter.initial]
  exact ceilingDivide_anti (second.perTask_pos _) (lighter.perTask_le positive _)

def finerPartitions : Context :=
  { tenPartitions with
    payload := ((Properties.empty ShuffleSettings.component).setInteger
      ShuffleSettings.desiredSizeKey 52428800).toBytes.toOption }

def firstHeard (settings : ShuffleSettings) (size : UInt64) : ShuffleManager :=
  { settings := settings
    initial := 10
    sources := ["map"]
    completed := .insert .empty ⟨"map", 0⟩ size }

theorem lighter_firstHeard (coarse fine : ShuffleSettings) (small large : UInt64)
    (reduces : coarse.reduces = fine.reduces) (finer : fine.desiredSize ≤ coarse.desiredSize)
    (more : small ≤ large) : Lighter (firstHeard coarse small) (firstHeard fine large) := by
  have heard (settings : ShuffleSettings) (size : UInt64) (task : SourceTask) :
      (firstHeard settings size).completed.get? task =
        if task = ⟨"map", 0⟩ then some size else none := by
    simp [firstHeard, SortedMap.get?_insert]
  refine ⟨rfl, .refl _, reduces, finer, fun task => ?_, fun task one other less greater => ?_⟩
  · rw [SortedMap.contains, SortedMap.contains, heard, heard]
    split <;> rfl
  · rw [heard] at less greater
    split at less
    next reported =>
      rw [if_pos reported] at greater
      cases less
      cases greater
      exact more
    next => cases less

/-- One task reads the output of all four source tasks where it is to read four times what the first
of them wrote. Where that one wrote the double and a task is to read half as much, four are wanted,
and five stay with two partitions each. -/
theorem doubled_output_has_five_tasks :
    ∃ first second low high,
      behaviour.Answered tenPartitions {} [.taskCompleted "map" 0 26214400] tenPartitions first
        (.ok (.finalize low)) ∧
      behaviour.Answered finerPartitions {} [.taskCompleted "map" 0 52428800] finerPartitions second
        (.ok (.finalize high)) ∧
      Lighter first second ∧
      low.parallelism ≤ high.parallelism ∧ low.parallelism = 1 ∧ high.parallelism = 5 := by
  let low : Reconfiguration :=
    { parallelism := 1, routing := .ofList [("map", List.replicate 10 0)] }
  let high : Reconfiguration :=
    { parallelism := 5, routing := .ofList [("map", [0, 0, 1, 1, 2, 2, 3, 3, 4, 4])] }
  have one : behaviour.Answered tenPartitions {} [.taskCompleted "map" 0 26214400] tenPartitions
      (firstHeard {} 26214400) (.ok (.finalize low)) :=
    answered_tenPartitions _ _ (by decide +kernel)
  have read : ShuffleSettings.ofPayload finerPartitions.payload =
      .ok { desiredSize := 52428800 } := by
    decide +kernel
  have starts : behaviour.start finerPartitions {} =
      (begun finerPartitions { desiredSize := 52428800 } 10, .ok .pending) := by
    rw [show behaviour.start = start from rfl, start_eq read rfl]
    rfl
  have waits : behaviour.serve finerPartitions {} [] =
      .pending finerPartitions (begun finerPartitions { desiredSize := 52428800 } 10) :=
    (behaviour.serve_pending _ _ _ _ _).mpr ⟨_, starts, rfl⟩
  have other : behaviour.Answered finerPartitions {} [.taskCompleted "map" 0 52428800]
      finerPartitions (firstHeard { desiredSize := 52428800 } 52428800)
      (.ok (.finalize high)) :=
    Behaviour.Answered.event waits (by decide +kernel)
  have lighter := lighter_firstHeard {} { desiredSize := 52428800 } 26214400 52428800 rfl
    (by decide) (by decide)
  exact ⟨_, _, low, high, one, other, lighter,
    parallelism_is_monotone tenPartitions finerPartitions _ _ low high lighter (by decide)
      (fun _ _ => rfl) (answered_decision rfl rfl one) (answered_decision read rfl other), rfl, rfl⟩

end ShuffleManager

end ElasticJob
