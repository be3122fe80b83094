import ElasticJob.Manager.Shuffle
import ElasticJob.Proofs.Manager.Feeding

/-!
What a shuffle manager keeps of an event, and when it decides. It looks at its sources with every
event about them, and where their tasks are known and enough of them completed, it lowers the number
of its tasks if each of them then has several partitions to read, and keeps it if not.
-/

namespace ElasticJob

namespace ShuffleManager

def note (manager : ShuffleManager) : ManagerEvent → ShuffleManager
  | .taskCompleted source task size => manager.recordTask source task size
  | _ => manager

def consults : ManagerEvent → Bool
  | .taskCompleted _ _ _ | .sourceConfigured _ _ => true
  | _ => false

theorem onEvent_eq (context : Context) (event : ManagerEvent) (manager : ShuffleManager) :
    onEvent context event manager =
      (manager.note event,
        if consults event then (manager.note event).tryDecide context else .ok .pending) := by
  cases event <;> rfl

theorem note_frame (manager : ShuffleManager) (event : ManagerEvent) :
    (manager.note event).settings = manager.settings ∧
      (manager.note event).initial = manager.initial ∧
      (manager.note event).sources = manager.sources := by
  cases event with
  | taskCompleted source task size =>
      simp only [note, recordTask]
      split <;> exact ⟨rfl, rfl, rfl⟩
  | _ => exact ⟨rfl, rfl, rfl⟩

theorem unchanged_of_not_consults {event : ManagerEvent} (quiet : consults event = false)
    (context : Context) (manager : ShuffleManager) :
    Scheduler.learn context event = context ∧ manager.note event = manager := by
  cases event with
  | taskCompleted source task size => cases quiet
  | sourceConfigured source tasks => cases quiet
  | _ => exact ⟨rfl, rfl⟩

def share (manager : ShuffleManager) (tasks : Nat) : Nat :=
  manager.initial.toNat / manager.desired (manager.estimate tasks)

structure Due (manager : ShuffleManager) (context : Context) (tasks : Nat) : Prop where
  counted : manager.totalTasks? context = some tasks
  present : 0 < tasks
  enough : manager.tooFew tasks = false

section Decisions

variable {manager : ShuffleManager} {context : Context} {tasks : Nat} {decision : Reconfiguration}

theorem Due.tryDecide_eq (due : Due manager context tasks) :
    manager.tryDecide context =
      if manager.settings.reduces = true ∧ 2 ≤ manager.share tasks then
        manager.reduce context (manager.share tasks)
      else manager.keep := by
  simp only [tryDecide, due.counted, due.enough, if_neg (Nat.ne_of_gt due.present),
    Bool.false_eq_true, if_false, share]
  by_cases reduces : manager.settings.reduces = true
  · simp only [reduces, Bool.not_true, Bool.false_eq_true, if_false, true_and]
    by_cases single : manager.initial.toNat / manager.desired (manager.estimate tasks) ≤ 1
    · rw [if_pos single, if_neg (Nat.not_le_of_lt (Nat.lt_succ_of_le single))]
    · rw [if_neg single, if_pos (show 2 ≤ _ from Nat.lt_of_not_le single)]
  · simp [reduces]

theorem tryDecide_finalized (decided : manager.tryDecide context = .ok (.finalize decision)) :
    ∃ tasks, manager.totalTasks? context = some tasks ∧
      (Due manager context tasks ∨
        tasks = 0 ∧ manager.keep = .ok (.finalize decision)) := by
  cases counted : manager.totalTasks? context with
  | none =>
      simp only [tryDecide, counted] at decided
      cases decided
  | some tasks =>
      refine ⟨tasks, rfl, ?_⟩
      simp only [tryDecide, counted] at decided
      by_cases none : tasks = 0
      · rw [if_pos none] at decided
        exact .inr ⟨none, decided⟩
      · rw [if_neg none] at decided
        by_cases few : manager.tooFew tasks = true
        · rw [if_pos few] at decided
          cases decided
        · exact .inl ⟨counted, Nat.pos_of_ne_zero none, Bool.eq_false_iff.mpr few⟩

theorem Due.sources_ne_nil (due : Due manager context tasks) : manager.sources ≠ [] := by
  intro none
  have counted : manager.totalTasks? context = some 0 := by simp [totalTasks?, none, total]
  exact Nat.ne_of_lt due.present (Option.some.inj (counted.symm.trans due.counted))

/-- A decision keeps the number of tasks, or gives every task a share of several partitions. -/
theorem tryDecide_cases (decided : manager.tryDecide context = .ok (.finalize decision)) :
    manager.keep = .ok (.finalize decision) ∨
      ∃ tasks, Due manager context tasks ∧ 2 ≤ manager.share tasks ∧
        manager.reduce context (manager.share tasks) = .ok (.finalize decision) := by
  obtain ⟨tasks, _, due | ⟨_, kept⟩⟩ := tryDecide_finalized decided
  · rw [due.tryDecide_eq] at decided
    split at decided
    next lowers => exact .inr ⟨tasks, due, lowers.2, decided⟩
    next => exact .inl decided
  · exact .inl kept

theorem onEvent_decides {event : ManagerEvent}
    (decided : (onEvent context event manager).2 = .ok (.finalize decision)) :
    (onEvent context event manager).1.tryDecide context = .ok (.finalize decision) := by
  rw [onEvent_eq] at decided ⊢
  dsimp only at decided
  split at decided
  next => exact decided
  next => cases decided

end Decisions

end ShuffleManager

end ElasticJob
