import ElasticJob.Proofs.Manager.Confinement
import ElasticJob.Proofs.Manager.Feeding

/-!
How a shuffle manager spreads the partitions of its sources over fewer tasks. The number of tasks
and the table that sends every partition to its task are computed apart. They agree because a task
is below the number just where its first partition exists, so every task reads its share and the
last one reads what is left.
-/

namespace ElasticJob

namespace ShuffleManager

/-- Adjacent partitions go to the same task, as many as the share to every task but the last one,
which gets at least one and no more than the others. -/
structure Spreads (table : Routing) (partitions share : Nat) (tasks : UInt32) : Prop where
  length : table.length = partitions
  ascending : table.Pairwise (· ≤ ·)
  inside : ∀ task ∈ table, task < tasks
  full : ∀ task : UInt32, task.toNat + 1 < tasks.toNat → table.count task = share
  last : ∀ task : UInt32, task.toNat + 1 = tasks.toNat →
    0 < table.count task ∧ table.count task ≤ share

section Ranges

variable {partitions share : Nat} (positive : 0 < share)

include positive

theorem lt_ceilingDivide_iff (task : Nat) :
    task < ceilingDivide partitions share ↔ task * share < partitions := by
  unfold ceilingDivide
  split
  · rename_i even
    rw [Nat.add_zero, ← Nat.mul_lt_mul_right positive,
      Nat.div_mul_cancel (Nat.dvd_of_mod_eq_zero even)]
  · rename_i odd
    have apart : task * share ≠ partitions := fun same => odd (same ▸ Nat.mul_mod_left task share)
    rw [Nat.lt_succ_iff, Nat.le_div_iff_mul_le positive]
    omega

theorem ceilingDivide_pos (some : 0 < partitions) : 0 < ceilingDivide partitions share := by
  rwa [lt_ceilingDivide_iff positive, Nat.zero_mul]

omit positive in
theorem ceilingDivide_lt (several : 2 ≤ share) (enough : share ≤ partitions) :
    ceilingDivide partitions share < partitions := by
  obtain ⟨before, rfl⟩ : ∃ before, partitions = before + 1 := ⟨partitions - 1, by omega⟩
  have twice : before * 2 ≤ before * share := Nat.mul_le_mul_left before several
  have outside : ¬ before < ceilingDivide (before + 1) share := by
    rw [lt_ceilingDivide_iff (by omega)]
    omega
  omega

theorem ranges_succ :
    ranges (partitions + 1) share =
      ranges partitions share ++ [UInt32.ofNat (partitions / share)] := by
  simp [ranges, List.range_succ, Nat.max_eq_left positive]

variable (small : partitions ≤ UInt32.size)

include small

/-- No partition is sent to another task by the narrow numbers of the table. -/
theorem ranges_toNat :
    (ranges partitions share).map UInt32.toNat =
      (List.range partitions).map (· / share) := by
  rw [ranges, List.map_map]
  refine List.map_congr_left fun partition listed => ?_
  have inside := List.mem_range.mp listed
  have narrow : partition / share < UInt32.size :=
    Nat.lt_of_le_of_lt (Nat.div_le_self _ _) (by omega)
  simp [Nat.max_eq_left positive, Nat.mod_eq_of_lt narrow]

theorem count_ranges (task : UInt32) :
    (ranges partitions share).count task = min share (partitions - task.toNat * share) := by
  induction partitions with
  | zero => simp [ranges]
  | succ partition ih =>
      have narrow : partition / share < UInt32.size :=
        Nat.lt_of_le_of_lt (Nat.div_le_self _ _) small
      have here : UInt32.ofNat (partition / share) = task ↔
          task.toNat * share ≤ partition ∧ partition < task.toNat * share + share := by
        rw [← UInt32.toNat_inj, UInt32.toNat_ofNat_of_lt' narrow, Nat.div_eq_iff positive]
        omega
      rw [ranges_succ positive, List.count_append, List.count_singleton, ih (by omega)]
      -- the partition that is added counts for the task that reads it, and for no other
      by_cases reads : UInt32.ofNat (partition / share) = task
      · obtain ⟨low, high⟩ := here.mp reads
        simp only [beq_iff_eq, reads, if_true]
        omega
      · have outside := mt here.mpr reads
        simp only [beq_iff_eq, reads, if_false]
        omega

end Ranges

theorem ranges_spread {partitions share : Nat} {tasks : UInt32} (several : 2 ≤ share)
    (small : partitions ≤ UInt32.size)
    (enough : tasks.toNat = ceilingDivide partitions share) :
    Spreads (ranges partitions share) partitions share tasks := by
  have positive : 0 < share := by omega
  have below : ∀ task, task < tasks.toNat ↔ task * share < partitions := fun task => by
    rw [enough, lt_ceilingDivide_iff positive]
  refine ⟨by simp [ranges], ?_, fun task listed => ?_, fun task before => ?_, fun task ends => ?_⟩
  · have ordered : ((ranges partitions share).map UInt32.toNat).Pairwise (· ≤ ·) := by
      rw [ranges_toNat positive small, List.pairwise_map]
      exact List.pairwise_lt_range.imp fun less => Nat.div_le_div_right (Nat.le_of_lt less)
    exact (List.pairwise_map.mp ordered).imp UInt32.le_iff_toNat_le.mpr
  · have shown : task.toNat ∈ (List.range partitions).map (· / share) :=
      ranges_toNat positive small ▸ List.mem_map_of_mem listed
    obtain ⟨partition, inside, same⟩ := List.mem_map.mp shown
    have first := Nat.div_mul_le_self partition share
    rw [UInt32.lt_iff_toNat_lt, below, ← same]
    exact Nat.lt_of_le_of_lt first (List.mem_range.mp inside)
  · have next := (below _).mp before
    rw [Nat.add_mul, Nat.one_mul] at next
    rw [count_ranges positive small]
    omega
  · have first := (below task.toNat).mp (by omega)
    have beyond : ¬ (task.toNat + 1) * share < partitions := by
      rw [← below]
      omega
    rw [Nat.add_mul, Nat.one_mul] at beyond
    rw [count_ranges positive small]
    omega

structure Reduces (edges : List InputEdge) (initial : UInt32) (decision : Reconfiguration) :
    Prop where
  fewer : 1 ≤ decision.parallelism ∧ decision.parallelism < initial
  fed : ∃ edge ∈ edges, edge.movement = .scatterGather
  /-- Every scattered source has the same table, and nothing else has one. -/
  routed : ∃ table share, 2 ≤ share ∧
    Spreads table initial.toNat share decision.parallelism ∧
    ∀ source, decision.routing.get? source =
      if ∃ edge ∈ edges, edge.movement = .scatterGather ∧ edge.source = source then some table
      else none

theorem routeEdge_routing {table : Routing} {before next : Reconfiguration} {edge : InputEdge}
    (routed : routeEdge table before edge = .ok next) :
    next.parallelism = before.parallelism ∧
      next.routing = if edge.movement = .scatterGather then before.routing.insert edge.source table
        else before.routing := by
  unfold routeEdge at routed
  split at routed
  · rename_i other
    cases routed
    exact ⟨rfl, (if_neg other).symm⟩
  · rename_i scattered
    rw [if_pos (not_not.mp scattered)]
    dsimp only at routed
    split at routed
    · cases routed
      exact ⟨rfl, rfl⟩
    · obtain ⟨payload, _, rfl⟩ := map_eq_ok_iff.mp routed
      exact ⟨rfl, rfl⟩

theorem foldlM_routeEdge {table : Routing} {edges : List InputEdge} {first last : Reconfiguration}
    (routed : edges.foldlM (routeEdge table) first = .ok last) :
    last.parallelism = first.parallelism ∧
      ∀ source, last.routing.get? source =
        if ∃ edge ∈ edges, edge.movement = .scatterGather ∧ edge.source = source then some table
        else first.routing.get? source := by
  induction edges generalizing first with
  | nil =>
      cases routed
      simp
  | cons edge rest ih =>
      rw [List.foldlM_cons] at routed
      obtain ⟨next, now, later⟩ := bind_eq_ok_iff.mp routed
      obtain ⟨same, added⟩ := routeEdge_routing now
      obtain ⟨kept, found⟩ := ih later
      refine ⟨kept.trans same, fun source => ?_⟩
      rw [found, added]
      simp only [List.exists_mem_cons_iff]
      by_cases later : ∃ edge ∈ rest, edge.movement = .scatterGather ∧ edge.source = source
      · rw [if_pos later, if_pos (.inr later)]
      · rw [if_neg later]
        by_cases scattered : edge.movement = .scatterGather
        · by_cases here : edge.source = source
          · simp [scattered, here]
          · simp [scattered, here, later, SortedMap.get?_insert_ne _ _ (Ne.symm here)]
        · simp [scattered, later]

/-- A reduction has the number of tasks that the table of its share needs. -/
theorem reduce_spreads {context : Context} {manager : ShuffleManager} {share : Nat}
    {decision : Reconfiguration} (several : 2 ≤ share) (enough : share ≤ manager.initial.toNat)
    (decided : manager.reduce context share = .ok (.finalize decision)) :
    decision.parallelism.toNat = ceilingDivide manager.initial.toNat share ∧
      Spreads (ranges manager.initial.toNat share) manager.initial.toNat share
        decision.parallelism ∧
      ∀ source, decision.routing.get? source =
        if ∃ edge ∈ context.edges, edge.movement = .scatterGather ∧ edge.source = source then
          some (ranges manager.initial.toNat share)
        else none := by
  obtain ⟨last, routed, same⟩ := map_eq_ok_iff.mp decided
  cases same
  obtain ⟨tasks, found⟩ := foldlM_routeEdge routed
  have small := manager.initial.toNat_lt
  have fewer := ceilingDivide_lt several enough
  have narrow : decision.parallelism.toNat = ceilingDivide manager.initial.toNat share := by
    rw [tasks]
    exact UInt32.toNat_ofNat_of_lt' (Nat.lt_trans fewer small)
  exact ⟨narrow, ranges_spread several (Nat.le_of_lt small) narrow, found⟩

theorem reduce_reduces {context : Context} {manager : ShuffleManager} {share : Nat}
    {decision : Reconfiguration} (several : 2 ≤ share) (enough : share ≤ manager.initial.toNat)
    (fed : ∃ edge ∈ context.edges, edge.movement = .scatterGather)
    (decided : manager.reduce context share = .ok (.finalize decision)) :
    Reduces context.edges manager.initial decision := by
  obtain ⟨narrow, spread, found⟩ := reduce_spreads several enough decided
  refine ⟨⟨?_, ?_⟩, fed, _, share, several, spread, found⟩
  · rw [UInt32.le_iff_toNat_le, narrow]
    exact ceilingDivide_pos (by omega) (by omega)
  · rw [UInt32.lt_iff_toNat_lt, narrow]
    exact ceilingDivide_lt several enough

theorem mem_scatteredSources {context : Context} {source : String} :
    source ∈ scatteredSources context ↔
      ∃ edge ∈ context.edges, edge.movement = .scatterGather ∧ edge.source = source := by
  simp [scatteredSources, and_assoc]

structure Begun (home informed : Context) (manager : ShuffleManager) : Prop where
  edges : informed.edges = home.edges
  initial : home.parallelism = .fixed manager.initial
  sources : manager.sources = scatteredSources home

theorem start_begun {context : Context} {next : ShuffleManager} {answer : Decision}
    (begins : start context {} = (next, .ok answer)) :
    Begun context context next ∧ (next.keep = .ok answer ∨ next.tryDecide context = .ok answer) := by
  unfold start at begins
  split at begins
  · cases begins
  · split at begins
    · cases begins
    · rename_i tasks fixed
      dsimp only at begins
      split at begins <;> obtain ⟨rfl, same⟩ := Prod.mk.inj begins
      · exact ⟨⟨rfl, fixed, rfl⟩, .inl same⟩
      · exact ⟨⟨rfl, fixed, rfl⟩, .inr same⟩

section Begun

variable {home informed : Context} {manager : ShuffleManager} (begun : Begun home informed manager)

include begun

theorem Begun.onEvent (event : ManagerEvent) :
    Begun home (Scheduler.learn informed event)
      (onEvent (Scheduler.learn informed event) event manager).1 := by
  obtain ⟨_, initial, sources⟩ := note_frame manager event
  rw [onEvent_eq]
  exact ⟨(Scheduler.learn_frame informed event).1.trans begun.edges,
    begun.initial.trans (congrArg _ initial.symm), sources.trans begun.sources⟩

theorem Begun.decides {decision : Reconfiguration}
    (decided : manager.keep = .ok (.finalize decision) ∨
      manager.tryDecide informed = .ok (.finalize decision)) :
    decision = { parallelism := manager.initial } ∨
      Reduces home.edges manager.initial decision := by
  rcases decided with kept | decided
  · cases kept
    exact .inl rfl
  · rcases tryDecide_cases decided with kept | ⟨tasks, due, several, reduced⟩
    · cases kept
      exact .inl rfl
    -- tasks are counted at the sources, so some edge is scattered
    · obtain ⟨source, listed⟩ := List.exists_mem_of_ne_nil _ due.sources_ne_nil
      rw [begun.sources, mem_scatteredSources] at listed
      obtain ⟨edge, listed, scattered, _⟩ := listed
      have fed : ∃ edge ∈ informed.edges, edge.movement = .scatterGather :=
        ⟨edge, begun.edges ▸ listed, scattered⟩
      exact .inr (begun.edges ▸ reduce_reduces several (Nat.div_le_self _ _) fed reduced)

end Begun

/-- Whatever a manager hears, it keeps the number of tasks and touches nothing else, or spreads the
partitions of all scattered sources over fewer tasks in the same way. -/
theorem partitions_are_spread (context : Context) (events unread : List ManagerEvent)
    (decision : Reconfiguration)
    (decided : behaviour.serve context {} events = .finalized decision unread) :
    ∃ initial, context.parallelism = .fixed initial ∧
      (decision.routing ≠ .empty →
        1 ≤ decision.parallelism ∧ decision.parallelism < initial ∧
        (∀ source, source ∈ decision.routing.keys ↔
          ∃ edge ∈ context.edges, edge.movement = .scatterGather ∧ edge.source = source) ∧
        ∃ table share, 2 ≤ share ∧ (∀ entry ∈ decision.routing.entries, entry.2 = table) ∧
          Spreads table initial.toNat share decision.parallelism) ∧
      (decision.routing = .empty →
        decision.parallelism = initial ∧ decision.payloads = .empty) := by
  have settled : ∃ current manager, Begun context current manager ∧
      (decision = { parallelism := manager.initial } ∨
        Reduces context.edges manager.initial decision) := by
    rcases behaviour.serve_finalized (Begun context)
        (fun next begins => (start_begun begins).1)
        (fun current event state next begun answer => by
          have kept := begun.onEvent event
          rwa [show (onEvent (Scheduler.learn current event) event state).1 = next from
            congrArg Prod.fst answer] at kept) decided with
      started | ⟨current, event, state, begun, answered⟩
    · obtain ⟨begun, answer⟩ := start_begun (Prod.ext rfl started)
      exact ⟨context, _, begun, begun.decides answer⟩
    · have next := begun.onEvent event
      exact ⟨_, _, next, next.decides (.inr (onEvent_decides answered))⟩
  obtain ⟨current, manager, begun, kept | reduced⟩ := settled
  · subst kept
    exact ⟨manager.initial, begun.initial, fun routed => absurd rfl routed, fun _ => ⟨rfl, rfl⟩⟩
  · obtain ⟨edge, listed, scattered⟩ := reduced.fed
    obtain ⟨table, share, several, spread, found⟩ := reduced.routed
    refine ⟨manager.initial, begun.initial, fun _ => ⟨reduced.fewer.1, reduced.fewer.2,
      fun source => ?_, table, share, several, fun entry member => ?_, spread⟩, fun none => ?_⟩
    · rw [← SortedMap.contains_iff, SortedMap.contains, found, Option.isSome_ite]
    · have held := SortedMap.get?_eq_some_iff.mpr member
      rw [found] at held
      split at held
      · exact (Option.some.inj held).symm
      · cases held
    · have held := found edge.source
      rw [if_pos ⟨edge, listed, scattered, rfl⟩, none] at held
      cases held

def tenPartitions : Context :=
  { vertex := "sort"
    parallelism := .fixed 10
    edges := [⟨⟨"map", "sort"⟩, "map", .scatterGather, "Out", none⟩]
    sources := .ofList [("map", 4)] }

/-- One of the four sources completed, and three times the wanted size is expected of all of them:
so three partitions for each task, and one is left for a fourth task. -/
theorem ten_partitions_are_spread_over_four :
    ∃ decision unread, behaviour.serve tenPartitions {}
        [.taskCompleted "map" 0 78643200, .taskCompleted "map" 1 5] =
          .finalized decision unread ∧
      decision.routing ≠ .empty ∧ decision.parallelism = 4 ∧ decision.parallelism < 10 ∧
      decision.routing.get? "map" = some [0, 0, 0, 1, 1, 1, 2, 2, 2, 3] := by
  let decision : Reconfiguration :=
    { parallelism := 4, routing := .ofList [("map", [0, 0, 0, 1, 1, 1, 2, 2, 2, 3])] }
  have served : behaviour.serve tenPartitions {}
      [.taskCompleted "map" 0 78643200, .taskCompleted "map" 1 5] =
        .finalized decision [.taskCompleted "map" 1 5] := by
    decide +kernel
  have routed : decision.routing ≠ .empty := by decide
  obtain ⟨initial, fixed, spread, _⟩ := partitions_are_spread _ _ _ decision served
  obtain rfl : 10 = initial := Parallelism.fixed.inj fixed
  exact ⟨decision, _, served, routed, rfl, (spread routed).2.1, rfl⟩

end ShuffleManager

end ElasticJob
