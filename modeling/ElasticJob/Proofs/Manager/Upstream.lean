import ElasticJob.Proofs.Manager.Sizing
import ElasticJob.Proofs.Number.Precision

/-!
Whom a shuffle manager has waited for when it decides. It compares the number of tasks it heard of
with the number of tasks its sources have, and never asks whether it heard of one that there is. As
long as only existing tasks are reported, each counts once, and their part of all source tasks is
the wanted one, exactly or up to what rounding takes away.
-/

namespace ElasticJob

namespace ShuffleManager

def upstream (context informed : Context) : List SourceTask :=
  tasksOf (fun source => (informed.sources.get? source).getD 0) (scatteredSources context)

def reported (events : List ManagerEvent) (tasks : List SourceTask) : Nat :=
  tasks.countP fun task => (lastSize? events task).isSome

theorem mem_tasksOf {count : String → UInt32} {sources : List String} {task : SourceTask} :
    task ∈ tasksOf count sources ↔
      task.source ∈ sources ∧ task.index < count task.source := by
  obtain ⟨source, index⟩ := task
  simp only [tasksOf, List.mem_flatMap, List.mem_map, List.mem_range, SourceTask.mk.injEq]
  constructor
  · rintro ⟨_, listed, place, inside, rfl, rfl⟩
    refine ⟨listed, ?_⟩
    rwa [UInt32.lt_iff_toNat_lt, UInt32.toNat_ofNat_of_lt' (inside.trans (UInt32.toNat_lt _))]
  · rintro ⟨listed, inside⟩
    exact ⟨source, listed, index.toNat, UInt32.lt_iff_toNat_lt.mp inside, rfl,
      UInt32.ofNat_toNat⟩

theorem tasksIn_length {context : Context} {sources : List String} {tasks : Nat}
    (counted : tasksIn context sources = some tasks) :
    (tasksOf (fun source => (context.sources.get? source).getD 0) sources).length = tasks := by
  rw [tasksOf_length]
  induction sources generalizing tasks with
  | nil =>
      cases counted
      rfl
  | cons source rest ih =>
      rw [tasksIn_cons] at counted
      obtain ⟨here, known, counted⟩ := Option.bind_eq_some_iff.mp counted
      obtain ⟨others, later, rfl⟩ := Option.map_eq_some_iff.mp counted
      simp [total, known, ih later]

section Run

variable {context informed : Context} {settings : ShuffleSettings} {initial : UInt32}
  {heard : List ManagerEvent} {manager : ShuffleManager} {answer : Except ManagerError Decision}
  (accepted : ShuffleSettings.ofPayload context.payload = .ok settings)
  (fixed : context.parallelism = .fixed initial)
  (answered : behaviour.Answered context {} heard informed manager answer)
  (real : ∀ source ∈ scatteredSources context, ∀ index size,
    .taskCompleted source index size ∈ heard →
      ∃ tasks, informed.sources.get? source = some tasks ∧ index < tasks)

include accepted fixed answered real

/-- Each task that a manager counts is an existing one that was reported. -/
theorem completed_le_reported :
    manager.completed.size ≤ reported heard (upstream context informed) := by
  have inside : manager.completed.keys ⊆
      (upstream context informed).filter fun task => (lastSize? heard task).isSome := by
    intro task listed
    have held := SortedMap.contains_iff.mpr listed
    rw [SortedMap.contains, answered_completed accepted fixed answered] at held
    split at held
    next scattered =>
      obtain ⟨size, told⟩ := lastSize?_isSome_iff.mp held
      obtain ⟨tasks, known, inside⟩ := real _ scattered _ size told
      have present : task ∈ upstream context informed :=
        mem_tasksOf.mpr ⟨scattered, by rwa [known]⟩
      exact List.mem_filter.mpr ⟨present, held⟩
    next => cases held
  calc manager.completed.size = manager.completed.keys.length := (List.length_map _).symm
    _ ≤ _ := (manager.completed.keys_nodup.subperm inside).length_le
    _ = reported heard (upstream context informed) := List.countP_eq_length_filter.symm

end Run

/-- Where an event makes a manager decide about existing source tasks, and no other tasks of its
sources were reported, some of them were, and they are the part of all that is wanted. Of more than
2 ^ 29 tasks a few units of the last bit may be missing. -/
theorem waits_for_upstream_tasks (context informed : Context) (settings : ShuffleSettings)
    (initial : UInt32) (heard : List ManagerEvent) (manager : ShuffleManager)
    (decision : Reconfiguration)
    (accepted : ShuffleSettings.ofPayload context.payload = .ok settings)
    (fixed : context.parallelism = .fixed initial)
    (answered : behaviour.Answered context {} heard informed manager (.ok (.finalize decision)))
    (told : heard ≠ [])
    (positive : 0 < (upstream context informed).length)
    (real : ∀ source ∈ scatteredSources context, ∀ index size,
      .taskCompleted source index size ∈ heard →
        ∃ tasks, informed.sources.get? source = some tasks ∧ index < tasks) :
    1 ≤ reported heard (upstream context informed) ∧
      ((upstream context informed).length ≤ 2 ^ 29 →
        settings.fraction.magnitude.value * (upstream context informed).length ≤
          reported heard (upstream context informed)) ∧
      settings.fraction.magnitude.value * (upstream context informed).length ≤
        (1 + 1 / 2 ^ 51) * reported heard (upstream context informed) := by
  have bounds := ofPayload_bounds accepted
  have counts := completed_le_reported accepted fixed answered real
  obtain ⟨rfl, rfl, sources⟩ := answered_frame accepted fixed answered
  have decided : manager.tryDecide informed = .ok (.finalize decision) := by
    rcases answered_decides accepted fixed answered with looked | ⟨silent, _⟩
    · exact looked.symm
    · exact absurd silent told
  obtain ⟨tasks, counted, due⟩ := tryDecide_finalized decided
  have all : (upstream context informed).length = tasks := by
    rw [upstream, ← sources]
    exact tasksIn_length counted
  rw [all] at positive ⊢
  rcases due with due | ⟨none, _⟩
  · have enough := due.enough
    rw [tooFew, Bool.or_eq_false_iff, decide_eq_false_iff_not] at enough
    obtain ⟨heardOf, reaches⟩ := enough
    have present : 0 < manager.completed.size := Nat.pos_of_ne_zero heardOf
    have grows : (manager.completed.size : ℚ) ≤ reported heard (upstream context informed) := by
      exact_mod_cast counts
    refine ⟨Nat.le_trans present counts, fun few => ?_, ?_⟩
    · have inside : manager.completed.size ≤ tasks :=
        all ▸ counts.trans List.countP_le_length
      exact (Number.part_le_of_reached bounds.1 present inside few reaches).trans grows
    · calc manager.settings.fraction.magnitude.value * tasks
          ≤ (1 + 1 / 2 ^ 51) * manager.completed.size :=
            Number.part_le_of_reached_nearly bounds.1 present positive reaches
        _ ≤ _ := mul_le_mul_of_nonneg_left grows (by norm_num)
  · omega

/-- One of the four source tasks completed, which is the quarter that is wanted. -/
theorem quarter_of_upstream_tasks_decides :
    ∃ informed manager decision,
      behaviour.Answered tenPartitions {} [.taskCompleted "map" 0 78643200] informed manager
        (.ok (.finalize decision)) ∧
      (upstream tenPartitions informed).length = 4 ∧
      1 ≤ reported [.taskCompleted "map" 0 78643200] (upstream tenPartitions informed) ∧
      ({} : ShuffleSettings).fraction.magnitude.value * 4 ≤
        reported [.taskCompleted "map" 0 78643200] (upstream tenPartitions informed) := by
  have four : (upstream tenPartitions tenPartitions).length = 4 := by decide
  obtain ⟨one, exact, _⟩ := waits_for_upstream_tasks tenPartitions tenPartitions {} 10 _ _ _ rfl rfl
    first_report_decides (by simp) (by rw [four]; decide) (by
      intro source _ index size told
      obtain ⟨rfl, rfl, rfl⟩ := ManagerEvent.taskCompleted.inj (List.mem_singleton.mp told)
      exact ⟨4, rfl, by decide⟩)
  have part := exact (by rw [four]; decide)
  rw [four] at part
  exact ⟨_, _, _, first_report_decides, four, one, by exact_mod_cast part⟩

/-- A fifth task of a source that has four is counted as if it was one of them: it alone makes a
manager decide, while none of the four is reported. -/
theorem missing_task_decides :
    ∃ informed manager decision,
      behaviour.Answered tenPartitions {} [.taskCompleted "map" 4 10] informed manager
        (.ok (.finalize decision)) ∧
      (upstream tenPartitions informed).length = 4 ∧
      reported [.taskCompleted "map" 4 10] (upstream tenPartitions informed) = 0 :=
  ⟨_, _, { parallelism := 1, routing := .ofList [("map", List.replicate 10 0)] },
    answered_tenPartitions (.taskCompleted "map" 4 10) _ (by decide +kernel), by decide, by decide⟩

end ShuffleManager

end ElasticJob
