import ElasticJob.Proofs.Manager.Waiting
import ElasticJob.Proofs.Scheduler.EventLog
import ElasticJob.Proofs.Scheduler.Submission

/-!
No wake-up is lost. When nothing is left to happen and every task of a final vertex was reported,
an open vertex would be one that misses an event which it was told; so every vertex is final, or
one was aborted. The vertices are taken in the order of the plan, sources first.
-/

namespace ElasticJob

/-- The states in which the three managers are created. -/
def BuiltIn.IsNew (manager : BuiltIn) : Prop :=
  manager = .immediate ∨ manager = .rootInput {} ∨ manager = .shuffle {}

theorem BuiltIn.registry_isNew (vertex : Vertex) (manager : BuiltIn)
    (chosen : BuiltIn.registry.managerFor? vertex = .ok (some manager)) : manager.IsNew := by
  have stored : ∀ className, BuiltIn.registry.createManager className = .ok manager →
      manager.IsNew := by
    intro className made
    simp only [Registry.createManager, Registry.create, BuiltIn.registry, Registry.register,
      Registry.empty, SortedMap.get?_insert, SortedMap.get?_empty] at made
    split_ifs at made <;> cases made <;> simp [IsNew]
  have wrapped : ∀ className,
      (BuiltIn.registry.createManager className).map some = .ok (some manager) →
        manager.IsNew := by
    intro className made
    cases found : BuiltIn.registry.createManager className with
    | error error => simp [found, Except.map] at made
    | ok other =>
        simp only [found, Except.map] at made
        cases made
        exact stored className found
  unfold Registry.managerFor? at chosen
  split at chosen
  · exact wrapped _ chosen
  · split at chosen
    · cases chosen
    · exact wrapped _ chosen

theorem BuiltIn.undecided (manager last : BuiltIn) (context informed : Context)
    (events : List ManagerEvent) (new : manager.IsNew)
    (waits : BuiltIn.behaviour.serve context manager events = .pending informed last) :
    (∃ input ∈ context.inputs, .inputInitialized input ∉ events ∧
        ∀ detail, .inputFailed input detail ∉ events) ∨
      ∃ inner, ShuffleManager.behaviour.serve context {} events = .pending informed inner := by
  rcases new with rfl | rfl | rfl
  · obtain ⟨next, silent, _⟩ := (BuiltIn.behaviour.serve_pending _ _ _ _ _).mp waits
    simp only [BuiltIn.behaviour, BuiltIn.start, Immediate.start] at silent
    split at silent <;> cases silent
  · obtain ⟨inner, undecided⟩ := RootInputManager.behaviour.serve_inside BuiltIn.behaviour
      BuiltIn.rootInput (fun _ _ => rfl) (fun _ _ _ => rfl) context informed {} last events waits
    exact .inl (RootInputManager.undecided_misses_input context informed inner events undecided)
  · exact .inr (ShuffleManager.behaviour.serve_inside BuiltIn.behaviour BuiltIn.shuffle
      (fun _ _ => rfl) (fun _ _ _ => rfl) context informed {} last events waits)

namespace Scheduler

/-- Nothing is left to happen: every worker has begun and read all its events, every initializer
has completed and delivered, and the tasks of every final vertex were reported. -/
structure Quiescent {σ ι : Type} (scheduler : Scheduler σ ι) (past : List Action) : Prop where
  begun : ∀ worker ∈ scheduler.workers, worker.lifecycle.phase ≠ .uninitialized
  drained : ∀ worker ∈ scheduler.workers, worker.queue = []
  delivered : ∀ task ∈ scheduler.tasks, task.stream = some []
  reported : ∀ source tasks, scheduler.resolvedParallelism? source = some tasks →
    ∀ index < tasks.toNat, ∃ size, .taskCompleted source (UInt32.ofNat index) size ∈ past

def Action.reports (source : String) (task : UInt32) : Action → Bool
  | .taskCompleted other index _ => other = source && index = task
  | _ => false

theorem exists_reports_iff (past : List Action) (source : String) (task : UInt32) :
    (∃ action ∈ past, action.reports source task = true) ↔
      ∃ size, .taskCompleted source task size ∈ past := by
  constructor
  · rintro ⟨action, member, told⟩
    cases action with
    | taskCompleted other index size =>
        obtain ⟨rfl, rfl⟩ : other = source ∧ index = task := by simpa [Action.reports] using told
        exact ⟨size, member⟩
    | _ => cases told
  · rintro ⟨size, member⟩
    exact ⟨_, member, by simp [Action.reports]⟩

theorem quiescent_iff {σ ι : Type} (scheduler : Scheduler σ ι) (past : List Action) :
    Quiescent scheduler past ↔
      (∀ worker ∈ scheduler.workers,
        worker.lifecycle.phase ≠ .uninitialized ∧ worker.queue = []) ∧
      (∀ task ∈ scheduler.tasks, task.stream = some []) ∧
      ∀ source ∈ scheduler.handles.keys,
        ∀ index < ((scheduler.resolvedParallelism? source).getD 0).toNat,
          ∃ action ∈ past, action.reports source (UInt32.ofNat index) = true := by
  simp only [exists_reports_iff]
  constructor
  · rintro ⟨begun, drained, delivered, reported⟩
    refine ⟨fun worker member => ⟨begun worker member, drained worker member⟩, delivered, ?_⟩
    intro source _ index inside
    cases resolved : scheduler.resolvedParallelism? source with
    | none => simp [resolved] at inside
    | some tasks => exact reported source tasks resolved index (by simpa [resolved] using inside)
  · rintro ⟨idle, delivered, reported⟩
    refine ⟨fun worker member => (idle worker member).1,
      fun worker member => (idle worker member).2, delivered, ?_⟩
    intro source tasks resolved index inside
    obtain ⟨decision, published, _⟩ := (resolvedParallelism?_eq_some_iff _ _ _).mp resolved
    obtain ⟨held, found, _⟩ := (outcome?_eq_some_iff _ _ _).mp published
    have known : source ∈ scheduler.handles.keys :=
      List.mem_map_of_mem (SortedMap.get?_eq_some_iff.mp found)
    exact reported source known index (by simpa [resolved] using inside)

instance {σ ι : Type} (scheduler : Scheduler σ ι) (past : List Action) :
    Decidable (Quiescent scheduler past) :=
  decidable_of_iff' _ (quiescent_iff scheduler past)

theorem mem_listeners (handles : SortedMap String Handle) (names : List String) (name : String)
    (known : Handle) (index : Nat) (listed : name ∈ names)
    (all : ∀ other ∈ names, (handles.get? other).isSome = true)
    (found : handles.get? name = some known) (place : known.standing = .managed index) :
    index ∈ listeners handles names := by
  induction names with
  | nil => cases listed
  | cons first rest ih =>
      have later := fun other member => all other (List.mem_cons_of_mem _ member)
      obtain ⟨held, here⟩ := Option.isSome_iff_exists.mp (all first List.mem_cons_self)
      simp only [listeners, here]
      rcases List.mem_cons.mp listed with rfl | member
      · obtain rfl : held = known := Option.some.inj (here.symm.trans found)
        simp [place]
      · cases held.standing with
        | settled decision => exact ih member later
        | managed other => exact List.mem_cons_of_mem _ (ih member later)

section Quiet

variable {σ ι : Type} {behaviour : Behaviour σ} {plan : Plan} {managers : Registry σ}
  {initializers : Registry ι} {managed : List String} {origin final : Scheduler σ ι}
  {past : List Action} {log : Log} (routed : plan.Routed)
  (started : Submission.Started plan managers initializers managed origin)
  (tracked : Tracked behaviour origin past log final)

include started in
theorem started_handle (vertex : Vertex) (member : vertex ∈ plan.vertices) :
    ∃ standing, origin.handles.get? vertex.name =
      some ⟨standing, plan.destinationsOf vertex.name⟩ := by
  obtain ⟨staff, _, placed⟩ := started.placed vertex member
  simp only [Submission.Placed, started.holds] at placed
  split at placed
  · obtain ⟨tasks, _, handle⟩ := placed
    exact ⟨_, handle⟩
  · obtain ⟨index, _, handle, _⟩ := placed
    exact ⟨_, handle⟩

include routed started

theorem mem_listenersOf (source vertex : Vertex) (known : source ∈ plan.vertices)
    (fed : vertex.name ∈ plan.destinationsOf source.name) (index : Nat) (downstream : List String)
    (place : origin.handles.get? vertex.name = some ⟨.managed index, downstream⟩) :
    index ∈ origin.listenersOf source.name := by
  obtain ⟨standing, handle⟩ := started_handle started source known
  simp only [listenersOf, handle, Option.map_some, Option.getD_some]
  refine mem_listeners _ _ vertex.name _ index fed (fun other listed => ?_) place rfl
  obtain ⟨target, stored, rfl⟩ := List.mem_map.mp (routed.feeds source known other listed)
  obtain ⟨_, found⟩ := started_handle started target stored
  simp [found]

include tracked

/-- What a worker was told or knew from the start about a source is what the source came to. -/
theorem told_resolved (source : Vertex) (known : source ∈ plan.vertices) (listener : Nat)
    (tasks : UInt32) (told : Context.settledTasks? plan source.name = some tasks ∨
      .sourceConfigured source.name tasks ∈ log listener) :
    final.resolvedParallelism? source.name = some tasks := by
  rw [resolvedParallelism?_eq_some_iff]
  simp only [outcome?_eq_some_iff, tracked.handles]
  rcases told with settled | heard
  -- known from the start: nothing could change the source
  · obtain ⟨alone, fixed⟩ :=
      (routed.settledTasks?_eq_some_iff managers source known tasks).mp settled
    obtain ⟨staff, created, placed⟩ := started.placed source known
    have free : staff.manager = none := by
      have chosen := (Submission.createStaff_ok managers initializers source staff created).2.1
      rw [alone] at chosen
      exact (Except.ok.inj chosen).symm
    simp only [Submission.Placed, free] at placed
    obtain ⟨count, same, handle⟩ := placed
    obtain rfl : tasks = count := Parallelism.fixed.inj (fixed.symm.trans same)
    exact ⟨_, ⟨_, handle, rfl⟩, rfl⟩
  -- told later: a worker of that name is final, and it is the one that the handle shows
  · obtain ⟨index, worker, decision, place, name, ended, count⟩ :=
      tracked.workers.honest listener source.name tasks heard
    have inside : index < origin.workers.length := by
      rw [← tracked.workers.stays]
      exact (List.getElem?_eq_some_iff.mp place).1
    obtain ⟨now, found, vertex, _, _⟩ :=
      tracked.workers.kept index _ (List.getElem?_eq_getElem inside)
    obtain rfl : worker = now := Option.some.inj (place.symm.trans found)
    obtain ⟨seen, fresh⟩ := started.fresh
    obtain ⟨_, downstream, handle⟩ := fresh.named index _ (List.getElem?_eq_getElem inside)
    rw [← vertex, name] at handle
    exact ⟨decision, ⟨_, handle, by simp [outcomeOf, place, ended]⟩, count⟩

/-- A vertex that is fed knows from the start, or was told, what its source came to. -/
theorem resolved_told (source vertex : Vertex) (known : source ∈ plan.vertices)
    (fed : vertex.name ∈ plan.destinationsOf source.name) (index : Nat)
    (turn : Submission.workerIndex? managed vertex.name = some index) (tasks : UInt32)
    (resolved : final.resolvedParallelism? source.name = some tasks) :
    Context.settledTasks? plan source.name = some tasks ∨
      .sourceConfigured source.name tasks ∈ log index := by
  rw [resolvedParallelism?_eq_some_iff] at resolved
  simp only [outcome?_eq_some_iff, tracked.handles] at resolved
  obtain ⟨decision, ⟨held, found, shown⟩, rfl⟩ := resolved
  obtain ⟨staff, created, placed⟩ := started.placed source known
  have chosen := (Submission.createStaff_ok managers initializers source staff created).2.1
  unfold Submission.Placed at placed
  rw [started.holds] at placed
  cases manager : staff.manager with
  | none =>
      simp only [manager] at placed
      obtain ⟨count, fixed, handle⟩ := placed
      obtain rfl := Option.some.inj (handle.symm.trans found)
      cases shown
      exact .inl ((routed.settledTasks?_eq_some_iff managers source known count).mpr
        ⟨manager ▸ chosen, fixed⟩)
  | some manager =>
      simp only [manager] at placed
      obtain ⟨other, _, handle, place, _⟩ := placed
      obtain rfl := Option.some.inj (handle.symm.trans found)
      obtain ⟨worker, now, name, feeds, _⟩ := tracked.workers.kept other _ place
      have ended : worker.outcome = some (.finalized decision) := by
        simpa [outcomeOf, now] using shown
      have listens : index ∈ worker.downstream := by
        rw [feeds]
        exact List.mem_filterMap.mpr ⟨vertex.name, fed, turn⟩
      have heard := tracked.workers.heard other worker decision now ended index listens
      rw [name] at heard
      exact .inr heard

omit routed started in
theorem input_told (quiescent : Quiescent final past) (staff : Staff σ ι) (vertex : Vertex)
    (index : Nat)
    (created : Submission.createStaff managers initializers vertex = .ok staff)
    (tasks : ∀ entry ∈ staff.initializers,
      { worker := index, context := entry.1, initializer := entry.2 } ∈ origin.tasks)
    (input : String) (listed : input ∈ (Context.ofPlan plan vertex).inputs) :
    .inputInitialized input ∈ log index ∨ ∃ detail, .inputFailed input detail ∈ log index := by
  rw [Context.ofPlan_inputs] at listed
  obtain ⟨root, initialized, rfl⟩ := List.mem_map.mp listed
  obtain ⟨entry, stored, about⟩ :=
    (Submission.createStaff_ok managers initializers vertex staff created).2.2 root initialized
  obtain ⟨place, found⟩ := List.mem_iff_getElem?.mp (tasks entry stored)
  obtain ⟨task, now, worker, context⟩ := tracked.initializers place _ found
  have member := List.mem_of_getElem? now
  obtain ⟨outcome, _, told⟩ := tracked.streamed task member [] (quiescent.delivered task member)
  simp only [worker, context, about, List.not_mem_nil, false_or] at told
  cases outcome with
  | ok events =>
      have completed := (toManagerEvents_completed root.name (.ok events)).mpr rfl
      exact .inl (told _ completed)
  | error detail => exact .inr ⟨detail, told _ (List.mem_singleton_self _)⟩

end Quiet

theorem started_tracked (behaviour : Behaviour σ) (plan : Plan) (managers : Registry σ)
    (initializers : Registry ι) (managed : List String) (origin : Scheduler σ ι)
    (started : Submission.Started plan managers initializers managed origin) :
    Tracked behaviour origin [] (fun _ => []) origin := by
  obtain ⟨seen, fresh⟩ := started.fresh
  refine ⟨fun worker member => ?_, started.running, rfl,
    start_logged behaviour _ fresh.workers, by simp,
    fun index old found => ⟨old, found, rfl, rfl⟩, fun task member rest stream => ?_⟩
  · obtain ⟨_, outcome, phase⟩ := fresh.workers worker member
    simp [SoundWorker, outcome, phase]
  · rw [fresh.tasks task member] at stream
    cases stream

section BuiltIns

variable {ι : Type} {plan : Plan} {managers : Registry BuiltIn} {initializers : Registry ι}
  {managed : List String} {origin final : Scheduler BuiltIn ι} {past : List Action} {log : Log}
  (routed : plan.Routed)
  (started : Submission.Started plan managers initializers managed origin)
  (tracked : Tracked BuiltIn.behaviour origin past log final)
  (quiescent : Quiescent final past)

include routed started tracked quiescent

theorem shuffle_decided (vertex : Vertex) (member : vertex ∈ plan.vertices) (index : Nat)
    (downstream : List String) (turn : Submission.workerIndex? managed vertex.name = some index)
    (handle : origin.handles.get? vertex.name = some ⟨.managed index, downstream⟩)
    (earlier : ∀ edge ∈ (Context.ofPlan plan vertex).edges,
      final.phase edge.source = .ok .finalized)
    (informed : Context) (last : ShuffleManager) :
    ShuffleManager.behaviour.serve (Context.ofPlan plan vertex) {} (log index) ≠
      .pending informed last := by
  intro undecided
  -- every source of a scattered edge is a final vertex of the plan that feeds this one
  have source : ∀ name ∈ ShuffleManager.scatteredSources (Context.ofPlan plan vertex),
      ∃ source ∈ plan.vertices, source.name = name ∧
        vertex.name ∈ plan.destinationsOf source.name ∧
        name ∈ (Context.ofPlan plan vertex).edges.map (·.source) ∧
        final.resolvedParallelism? name = some ((final.resolvedParallelism? name).getD 0) := by
    intro name listed
    obtain ⟨edge, kept, rfl⟩ := List.mem_map.mp (List.mem_eraseDups.mp listed)
    have fed := (List.mem_filter.mp kept).1
    obtain ⟨known, feeds⟩ := routed.fed vertex member edge fed
    obtain ⟨source, stored, name⟩ := List.mem_map.mp known
    obtain ⟨decision, published⟩ :=
      (phase_finalized_iff final tracked.sound edge.source).mp (earlier edge fed)
    refine ⟨source, stored, name, name ▸ feeds, List.mem_map_of_mem fed, ?_⟩
    rw [(resolvedParallelism?_eq_some_iff _ _ _).mpr ⟨decision, published, rfl⟩]
    rfl
  have told : ∀ name ∈ ShuffleManager.scatteredSources (Context.ofPlan plan vertex),
      (Context.ofPlan plan vertex).sources.get? name =
          some ((final.resolvedParallelism? name).getD 0) ∨
        .sourceConfigured name ((final.resolvedParallelism? name).getD 0) ∈ log index := by
    intro name listed
    obtain ⟨source, stored, rfl, feeds, edge, resolved⟩ := source name listed
    rw [Context.ofPlan_sources, if_pos edge]
    exact resolved_told routed started tracked source vertex stored feeds index turn _ resolved
  have honest : ∀ name ∈ ShuffleManager.scatteredSources (Context.ofPlan plan vertex), ∀ tasks,
      (Context.ofPlan plan vertex).sources.get? name = some tasks ∨
          .sourceConfigured name tasks ∈ log index →
        tasks = (final.resolvedParallelism? name).getD 0 := by
    intro name listed tasks heard
    obtain ⟨source, stored, rfl, _, edge, _⟩ := source name listed
    rw [Context.ofPlan_sources, if_pos edge] at heard
    rw [told_resolved routed started tracked source stored index tasks heard]
    rfl
  obtain ⟨name, listed, task, inside, missing⟩ := ShuffleManager.undecided_misses_task
    (Context.ofPlan plan vertex) informed last (log index)
    (fun name => (final.resolvedParallelism? name).getD 0) undecided told honest
  obtain ⟨source, stored, rfl, feeds, _, resolved⟩ := source name listed
  obtain ⟨size, reported⟩ := quiescent.reported source.name _ resolved task inside
  exact missing size (tracked.reported source.name _ size reported index
    (mem_listenersOf routed started source vertex stored feeds index downstream handle))

theorem phase_decided (vertex : Vertex) (member : vertex ∈ plan.vertices)
    (new : ∀ manager, managers.managerFor? vertex = .ok (some manager) → manager.IsNew)
    (earlier : ∀ edge ∈ (Context.ofPlan plan vertex).edges,
      final.phase edge.source = .ok .finalized) :
    final.phase vertex.name = .ok .finalized ∨ final.phase vertex.name = .ok .aborted := by
  obtain ⟨staff, created, placed⟩ := started.placed vertex member
  have chosen := (Submission.createStaff_ok managers initializers vertex staff created).2.1
  unfold Submission.Placed at placed
  rw [started.holds] at placed
  cases kind : staff.manager with
  | none =>
      simp only [kind] at placed
      obtain ⟨tasks, _, handle⟩ := placed
      exact .inl ((phase_ok_iff _ _ _).mpr ⟨_, tracked.handles ▸ handle, rfl⟩)
  | some manager =>
      simp only [kind] at placed
      obtain ⟨index, turn, handle, place, tasks⟩ := placed
      obtain ⟨worker, now, _, _, replayed⟩ := tracked.workers.kept index _ place
      have stored := List.mem_of_getElem? now
      have outcome : final.outcome? vertex.name = worker.outcome := by
        simp [outcome?, tracked.handles, handle, outcomeOf, now]
      cases result : worker.outcome with
      | some published =>
          rw [result] at outcome
          cases published with
          | finalized decision =>
              exact .inl ((phase_finalized_iff final tracked.sound _).mpr ⟨decision, outcome⟩)
          | aborted reason =>
              exact .inr ((phase_aborted_iff final tracked.sound _).mpr ⟨reason, outcome⟩)
      | none =>
          exfalso
          -- the worker has read all that it was told, so its manager must miss something
          cases replayed result with
          | fresh phase => exact quiescent.begun worker stored phase
          | begun read _ split waits =>
              rw [quiescent.drained worker stored, List.append_nil] at split
              rw [← split] at waits
              rcases BuiltIn.undecided manager worker.manager _ _ _
                (new manager (kind ▸ chosen)) waits with
                ⟨input, listed, missing, alive⟩ | ⟨inner, undecided⟩
              · rcases input_told tracked quiescent staff vertex index created tasks input
                  listed with completed | ⟨detail, failed⟩
                · exact missing completed
                · exact alive detail failed
              · exact shuffle_decided routed started tracked quiescent vertex member index _ turn
                  handle earlier _ inner undecided

/-- Along the order of the plan, sources first. -/
theorem all_decided
    (new : ∀ vertex ∈ plan.vertices, ∀ manager,
      managers.managerFor? vertex = .ok (some manager) → manager.IsNew)
    (going : ∀ vertex ∈ plan.vertices, final.phase vertex.name ≠ .ok .aborted) :
    ∀ vertex ∈ plan.vertices, final.phase vertex.name = .ok .finalized := by
  obtain ⟨rank, ranked⟩ := routed.ranked
  intro vertex member
  induction place : rank vertex.name using Nat.strongRecOn generalizing vertex with
  | ind depth ih =>
      have earlier : ∀ edge ∈ (Context.ofPlan plan vertex).edges,
          final.phase edge.source = .ok .finalized := by
        intro edge listed
        obtain ⟨known, _⟩ := routed.fed vertex member edge listed
        obtain ⟨source, stored, name⟩ := List.mem_map.mp known
        have below := ranked vertex member edge listed
        rw [← name] at below ⊢
        exact ih _ (place ▸ below) source stored rfl
      have decided := phase_decided routed started tracked quiescent vertex member
        (new vertex member) earlier
      exact decided.resolve_right (going vertex member)

end BuiltIns

/-- A job with built-in managers whose clients only report completed tasks never comes to rest with
an open vertex, unless one was aborted. The edges of the job are made from their ends, so no source
feeds a vertex twice; with two records of one pair a manager would count the tasks of the source
twice and wait for more reports than there are tasks. -/
theorem no_wakeup_is_lost {ι : Type} (name : String) (policy : NamespacePolicy)
    (mutations : List Mutation) (plan : Plan) (managers : Registry BuiltIn)
    (initializers : Registry ι) (actions : List Action)
    (created : ((JobGraph.create name policy).assemble mutations).createPlan = .ok plan)
    (new : ∀ vertex ∈ plan.vertices, ∀ manager,
      managers.managerFor? vertex = .ok (some manager) → manager.IsNew)
    (accepted : (submit plan managers initializers).result = .ok ())
    (reports : ∀ action ∈ actions, action.isReport = true)
    (quiescent : Quiescent
      (run BuiltIn.behaviour (submit plan managers initializers).scheduler actions) actions) :
    let final := run BuiltIn.behaviour (submit plan managers initializers).scheduler actions
    (∃ vertex ∈ plan.vertices, final.phase vertex.name = .ok .aborted) ∨
      ∀ vertex ∈ plan.vertices, final.phase vertex.name = .ok .finalized := by
  intro final
  have routed : plan.Routed :=
    JobGraph.createPlan_routed
      (JobGraph.assemble_adjacent _ mutations (JobGraph.create_adjacent name policy)) created
  obtain ⟨managed, started⟩ := Submission.submit_started plan managers initializers routed accepted
  obtain ⟨log, tracked⟩ := run_tracked BuiltIn.behaviour _ actions [] _ _ reports
    (started_tracked BuiltIn.behaviour plan managers initializers managed _ started)
  by_cases aborted : ∃ vertex ∈ plan.vertices, final.phase vertex.name = .ok .aborted
  · exact .inl aborted
  · push Not at aborted
    exact .inr (all_decided routed started tracked quiescent new aborted)

/-- A shuffled stage that hears of a completed task before it has started. -/
theorem shuffled_stage_wakes :
    let stage := fun (name : String) (tasks : UInt32) =>
      ({ name := name, processor := ⟨"Step", none⟩, parallelism := .fixed tasks
         resource := ⟨64, 1⟩ } : Vertex)
    let graph := (JobGraph.create "count" .shared).assemble
      [.addVertex (stage "map" 2), .addVertex (stage "reduce" 4),
        .editVertex "reduce" (.manager ⟨BuiltIn.shuffleClass, none⟩),
        .addEdge "map" "reduce"
          ⟨.scatterGather, .persisted, .sequential, ⟨"Out", none⟩, ⟨"In", none⟩, none⟩]
    let actions : List Action :=
      [.taskCompleted "map" 1 10, .work 0, .work 0, .taskCompleted "map" 0 10,
        .taskCompleted "reduce" 0 5]
    ∃ plan, graph.createPlan = .ok plan ∧ plan.vertices.map (·.name) = ["map", "reduce"] ∧
      ∀ vertex ∈ plan.vertices,
        (run BuiltIn.behaviour
          (submit plan BuiltIn.registry (.empty : Registry Unit)).scheduler actions).phase
            vertex.name = .ok .finalized := by
  intro stage graph actions
  obtain ⟨plan, created, names, accepted, quiescent, going⟩ :
      ∃ plan ∈ graph.createPlan.toOption, plan.vertices.map (·.name) = ["map", "reduce"] ∧
        (submit plan BuiltIn.registry (.empty : Registry Unit)).result = .ok () ∧
        Quiescent (run BuiltIn.behaviour
          (submit plan BuiltIn.registry (.empty : Registry Unit)).scheduler actions) actions ∧
        ∀ vertex ∈ plan.vertices, (run BuiltIn.behaviour
          (submit plan BuiltIn.registry (.empty : Registry Unit)).scheduler actions).phase
            vertex.name ≠ .ok .aborted := by
    decide +kernel
  have made : graph.createPlan = .ok plan := by
    cases result : graph.createPlan with
    | error error => simp [result, Except.toOption] at created
    | ok other => simpa [result, Except.toOption] using created
  refine ⟨plan, made, names, ?_⟩
  rcases no_wakeup_is_lost "count" .shared _ plan BuiltIn.registry (.empty : Registry Unit) actions
    made (fun vertex _ => BuiltIn.registry_isNew vertex) accepted (by decide) quiescent with
    ⟨vertex, member, aborted⟩ | finalized
  · exact absurd aborted (going vertex member)
  · exact finalized

end Scheduler

end ElasticJob
