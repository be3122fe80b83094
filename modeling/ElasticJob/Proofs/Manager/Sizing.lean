import ElasticJob.Proofs.Manager.Reports
import ElasticJob.Proofs.Manager.Retargeting
import Mathlib.Algebra.Order.Floor.Div

/-!
How many tasks a shuffle manager decides for. The size that is expected of all source tasks asks for
so many tasks that none reads more than the desired size; every task is given as many partitions as
that leaves, and then only as many tasks stay as have partitions to read. Each of these steps rounds
in its own direction, and no task is expected to read more than its partitions' part of the desired
size. Sizes are added and multiplied as they are, without a bound on the numbers.
-/

namespace ElasticJob

namespace ShuffleManager

def wanted (settings : ShuffleSettings) (expected : Nat) : Nat :=
  max 1 (expected ⌈/⌉ settings.desiredSize.toNat)

section Shares

variable {manager : ShuffleManager} {settings : ShuffleSettings} {tasks expected : Nat}

theorem desired_eq (manager : ShuffleManager) (expected : Nat) :
    manager.desired expected = min (wanted manager.settings expected) manager.initial.toNat := by
  rw [wanted, Nat.ceilDiv_eq_add_pred_div, max_comm]
  rfl

theorem expected_le (positive : 0 < settings.desiredSize) (expected : Nat) :
    expected ≤ settings.desiredSize.toNat * wanted settings expected :=
  (ceilDiv_le_iff_le_mul (UInt64.lt_iff_toNat_lt.mp positive)).mp (le_max_right ..)

/-- Where tasks can be given several partitions each, so many tasks as are wanted can be. -/
theorem share_mul_wanted_le (several : 2 ≤ manager.share tasks) :
    manager.share tasks * wanted manager.settings (manager.estimate tasks) ≤
      manager.initial.toNat := by
  unfold share at several ⊢
  rw [desired_eq] at several ⊢
  have full := Nat.div_mul_le_self manager.initial.toNat
    (min (wanted manager.settings (manager.estimate tasks)) manager.initial.toNat)
  rcases Nat.le_total (wanted manager.settings (manager.estimate tasks)) manager.initial.toNat
    with fits | clamped
  · rwa [min_eq_left fits] at full ⊢
  · rw [min_eq_right clamped] at several
    have single : manager.initial.toNat / manager.initial.toNat ≤ 1 :=
      Nat.div_le_of_le_mul (Nat.mul_one _).ge
    omega

theorem two_le_share
    (fits : 2 * wanted manager.settings (manager.estimate tasks) ≤ manager.initial.toNat) :
    2 ≤ manager.share tasks := by
  have some : 1 ≤ wanted manager.settings (manager.estimate tasks) := le_max_left ..
  rw [share, desired_eq, min_eq_left (by omega), Nat.le_div_iff_mul_le some]
  exact fits

theorem le_ceilingDivide {partitions share count : Nat} (positive : 0 < share)
    (covered : share * count ≤ partitions) : count ≤ ceilingDivide partitions share := by
  cases count with
  | zero => exact Nat.zero_le _
  | succ last =>
      rw [Nat.succ_le_iff, lt_ceilingDivide_iff positive]
      rw [Nat.mul_succ, Nat.mul_comm] at covered
      omega

end Shares

section Decisions

variable {manager : ShuffleManager} {context : Context} {decision : Reconfiguration}

theorem tryDecide_lowers (decided : manager.tryDecide context = .ok (.finalize decision))
    (lower : decision.parallelism < manager.initial) :
    ∃ tasks, Due manager context tasks ∧ 2 ≤ manager.share tasks ∧
      manager.reduce context (manager.share tasks) = .ok (.finalize decision) := by
  refine (tryDecide_cases decided).resolve_left fun kept => ?_
  cases kept
  exact absurd lower (UInt32.lt_irrefl _)

end Decisions

section Runs

theorem Due.heard_ne_nil {context informed : Context} {settings : ShuffleSettings}
    {initial : UInt32} {heard : List ManagerEvent} {manager : ShuffleManager}
    {answer : Except ManagerError Decision} {tasks : Nat}
    (accepted : ShuffleSettings.ofPayload context.payload = .ok settings)
    (fixed : context.parallelism = .fixed initial)
    (answered : behaviour.Answered context {} heard informed manager answer)
    (due : Due manager informed tasks) : heard ≠ [] := by
  rintro rfl
  obtain ⟨_, made⟩ := answered_state accepted fixed answered
  have none : manager.tooFew tasks = true := by rw [made]; rfl
  exact absurd none (Bool.eq_false_iff.mp due.enough)

/-- Where a run lowers the number of tasks from `initial`, every task reads a share of the
partitions whose part of the expected size is within its part of the desired one, and there are as
many tasks as that size asks for at least. Where the conditions to decide are met and twice as many
tasks as are wanted would not be too many, the number is lowered, unless a payload that must be
rewritten cannot be. -/
theorem sizing_honours_desired_size (context informed : Context) (settings : ShuffleSettings)
    (initial : UInt32) (heard : List ManagerEvent) (manager : ShuffleManager)
    (answer : Except ManagerError Decision)
    (accepted : ShuffleSettings.ofPayload context.payload = .ok settings)
    (fixed : context.parallelism = .fixed initial)
    (answered : behaviour.Answered context {} heard informed manager answer) :
    (∀ decision, answer = .ok (.finalize decision) → decision.parallelism < initial →
      ∃ tasks share table, Due manager informed tasks ∧
        (∀ source ∈ scatteredSources context, decision.routing.get? source = some table) ∧
        2 ≤ share ∧ share ≤ initial.toNat ∧
        Spreads table initial.toNat share decision.parallelism ∧
        share * manager.estimate tasks ≤ initial.toNat * settings.desiredSize.toNat ∧
        wanted settings (manager.estimate tasks) ≤ decision.parallelism.toNat) ∧
    ∀ tasks, Due manager informed tasks → settings.reduces = true →
      2 * wanted settings (manager.estimate tasks) ≤ initial.toNat →
      ((∀ edge ∈ context.edges, edge.Retargeted → edge.Retargetable) →
        ∃ decision, answer = .ok (.finalize decision) ∧ decision.parallelism < initial) ∧
      ((∃ edge ∈ context.edges, edge.Retargeted ∧ ¬ edge.Retargetable) →
        ∃ cause, answer = .error (.payload cause)) := by
  obtain ⟨rfl, rfl, sources⟩ := answered_frame accepted fixed answered
  have decides := answered_decides accepted fixed answered
  have edges : informed.edges = context.edges := by
    rw [(answered_state accepted fixed answered).1, Scheduler.foldl_learn_edges]
  constructor
  · intro decision same lower
    have decided : manager.tryDecide informed = .ok (.finalize decision) := by
      rcases decides with decided | ⟨_, _, kept⟩
      · exact decided.symm.trans same
      · cases kept.symm.trans same
        exact absurd lower (UInt32.lt_irrefl _)
    obtain ⟨tasks, due, several, reduced⟩ := tryDecide_lowers decided lower
    have enough : manager.share tasks ≤ manager.initial.toNat := Nat.div_le_self _ _
    obtain ⟨count, spread, routed⟩ := reduce_spreads several enough reduced
    have positive := (ofPayload_bounds accepted).2
    have fits := share_mul_wanted_le several
    refine ⟨tasks, manager.share tasks, _, due, fun source listed => ?_, several, enough, spread,
      ?_, ?_⟩
    · rw [routed, edges, if_pos (mem_scatteredSources.mp listed)]
    · calc manager.share tasks * manager.estimate tasks
          ≤ manager.share tasks * (manager.settings.desiredSize.toNat *
              wanted manager.settings (manager.estimate tasks)) :=
            Nat.mul_le_mul_left _ (expected_le positive _)
        _ = manager.share tasks * wanted manager.settings (manager.estimate tasks) *
              manager.settings.desiredSize.toNat := by
            rw [Nat.mul_comm manager.settings.desiredSize.toNat, Nat.mul_assoc]
        _ ≤ manager.initial.toNat * manager.settings.desiredSize.toNat :=
            Nat.mul_le_mul_right _ fits
    · rw [count]
      exact le_ceilingDivide (by omega) fits
  · intro tasks due reduces room
    have several := two_le_share room
    have reduced : answer = manager.reduce informed (manager.share tasks) := by
      rcases decides with decided | ⟨none, _⟩
      · rw [decided, due.tryDecide_eq, if_pos ⟨reduces, several⟩]
      · exact absurd none (due.heard_ne_nil accepted fixed answered)
    rw [reduced, ← edges]
    obtain ⟨done, fails⟩ := reduce_answer manager informed (manager.share tasks)
    refine ⟨fun fits => ?_, fails⟩
    obtain ⟨decision, decided⟩ := done fits
    refine ⟨decision, decided, ?_⟩
    rw [UInt32.lt_iff_toNat_lt, (reduce_spreads several (Nat.div_le_self _ _) decided).1]
    exact ceilingDivide_lt several (Nat.div_le_self _ _)

theorem answered_tenPartitions (event : ManagerEvent) (decision : Reconfiguration)
    (replies : onEvent (Scheduler.learn tenPartitions event) event (begun tenPartitions {} 10) =
      ((begun tenPartitions {} 10).note event, .ok (.finalize decision))) :
    behaviour.Answered tenPartitions {} [event] (Scheduler.learn tenPartitions event)
      ((begun tenPartitions {} 10).note event) (.ok (.finalize decision)) := by
  have waits : behaviour.serve tenPartitions {} [] =
      .pending tenPartitions (begun tenPartitions {} 10) := by
    decide +kernel
  exact Behaviour.Answered.event waits replies

theorem first_report_decides :
    behaviour.Answered tenPartitions {} [.taskCompleted "map" 0 78643200] tenPartitions
      ((begun tenPartitions {} 10).note (.taskCompleted "map" 0 78643200))
      (.ok (.finalize
        { parallelism := 4, routing := .ofList [("map", [0, 0, 0, 1, 1, 1, 2, 2, 2, 3])] })) :=
  answered_tenPartitions _ _ (by decide +kernel)

/-- A quarter of the source tasks wrote three quarters of what one task should read, so three tasks
are wanted of ten; three partitions for each need a fourth one for the last partition. -/
theorem three_wanted_tasks_become_four :
    ∃ informed manager decision tasks share table,
      behaviour.Answered tenPartitions {} [.taskCompleted "map" 0 78643200] informed manager
        (.ok (.finalize decision)) ∧
      tasks = 4 ∧ Due manager informed tasks ∧ wanted {} (manager.estimate tasks) = 3 ∧
      decision.routing.get? "map" = some table ∧ 2 ≤ share ∧
      Spreads table 10 share decision.parallelism ∧
      share * manager.estimate tasks ≤ 10 * 104857600 ∧ 3 ≤ decision.parallelism.toNat ∧
      decision.parallelism < 10 := by
  let manager := (begun tenPartitions {} 10).note (.taskCompleted "map" 0 78643200)
  have answered := first_report_decides
  have due : Due manager tenPartitions 4 :=
    ⟨by decide +kernel, by decide, by decide +kernel⟩
  have three : wanted {} (manager.estimate 4) = 3 := by decide +kernel
  obtain ⟨lowers, lowered⟩ := sizing_honours_desired_size tenPartitions _ {} 10 _ manager _ rfl rfl
    answered
  -- the output of the edge is not one that is told the number of tasks
  obtain ⟨other, same, fewer⟩ := (lowered 4 due rfl (by rw [three]; decide)).1 (by
    simp [tenPartitions, InputEdge.Retargeted, OutputSettings.className])
  obtain ⟨tasks, share, table, decides, routed, several, _, spread, fits, enough⟩ :=
    lowers other same fewer
  obtain rfl : tasks = 4 := Option.some.inj (decides.counted.symm.trans due.counted)
  rw [three] at enough
  exact ⟨_, manager, other, 4, share, table, same ▸ answered, rfl, due, three,
    routed "map" (by decide), several, spread, fits, enough, fewer⟩

end Runs

end ShuffleManager

end ElasticJob
