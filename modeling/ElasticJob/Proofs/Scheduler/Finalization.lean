import ElasticJob.Proofs.Manager.Confinement
import ElasticJob.Proofs.Manager.Feeding
import ElasticJob.Proofs.Plan.Decisions
import ElasticJob.Proofs.Scheduler.Outcome
import ElasticJob.Proofs.Scheduler.Submission

/-!
The plan of a job whose vertices are all final. It is there as soon as every vertex has published
its decision, however the decisions are waited for; and since the decision of a built-in manager
keeps to the edges into its own vertex, none of them is refused when they are applied.
-/

namespace ElasticJob.Scheduler

variable {σ ι : Type}

section Awaiting

variable {scheduler : Scheduler σ ι}

def Published (scheduler : Scheduler σ ι) : List String → List Reconfiguration → Prop :=
  List.Forall₂ fun vertex decision => scheduler.outcome? vertex = some (.finalized decision)

theorem awaited_eq_some_iff {vertex : String} {decision : Reconfiguration} :
    scheduler.awaited vertex = .ok (some decision) ↔
      scheduler.outcome? vertex = some (.finalized decision) := by
  unfold awaited outcome? handle
  cases scheduler.handles.get? vertex with
  | none => simp
  | some found =>
      simp only [Option.bind_some]
      rcases scheduler.outcomeOf found.standing with _ | (other | reason) <;> simp

theorem awaitedInOrder_eq_some_iff {vertices : List String} {decisions : List Reconfiguration} :
    scheduler.awaitedInOrder vertices = .ok (some decisions) ↔
      scheduler.Published vertices decisions := by
  induction vertices generalizing decisions with
  | nil => simp [awaitedInOrder, Published, eq_comm]
  | cons vertex rest ih =>
      rw [awaitedInOrder, Published, List.forall₂_cons_left_iff]
      constructor
      · intro done
        split at done
        next => cases done
        next => cases done
        next decision first =>
          obtain ⟨later, others, same⟩ := bind_eq_ok_iff.mp done
          cases later with
          | none => cases same
          | some later =>
              cases same
              exact ⟨decision, later, awaited_eq_some_iff.mp first, ih.mp others, rfl⟩
      · rintro ⟨decision, later, first, others, rfl⟩
        rw [awaited_eq_some_iff.mpr first]
        exact bind_eq_ok_iff.mpr ⟨some later, ih.mpr others, rfl⟩

theorem awaitedTogether_eq_some_iff {vertices : List String} {decisions : List Reconfiguration} :
    scheduler.awaitedTogether vertices = .ok (some decisions) ↔
      scheduler.Published vertices decisions := by
  simp only [awaitedTogether, bind_eq_ok_iff, pure, Except.pure, Except.ok.injEq]
  induction vertices generalizing decisions with
  | nil => simp [Published, pure, Except.pure, eq_comm]
  | cons vertex rest ih =>
      rw [Published, List.forall₂_cons_left_iff]
      simp only [List.mapM_cons, bind_eq_ok_iff, pure, Except.pure, Except.ok.injEq]
      constructor
      · rintro ⟨_, ⟨answer, first, answers, others, rfl⟩, all⟩
        rw [List.mapM_cons] at all
        obtain ⟨decision, here, all⟩ := Option.bind_eq_some_iff.mp all
        obtain ⟨later, rest, same⟩ := Option.bind_eq_some_iff.mp all
        obtain rfl : answer = some decision := here
        cases same
        exact ⟨decision, later, awaited_eq_some_iff.mp first, ih.mp ⟨answers, others, rest⟩, rfl⟩
      · rintro ⟨decision, later, first, others, rfl⟩
        obtain ⟨answers, done, all⟩ := ih.mpr others
        refine ⟨_, ⟨some decision, awaited_eq_some_iff.mpr first, answers, done, rfl⟩, ?_⟩
        rw [List.mapM_cons, all]
        rfl

/-- Waiting for all at once or one after the other, the plan is there once all have published. -/
theorem finalizedPlan_eq_some_iff {result : Plan} :
    scheduler.finalizedPlan = .ok (some result) ↔
      ∃ decisions, scheduler.Published (scheduler.plan.vertices.map (·.name)) decisions ∧
        ((scheduler.plan.vertices.map (·.name)).zip decisions).foldlM applyDecision
          scheduler.plan = .ok result := by
  simp only [finalizedPlan, bind_eq_ok_iff]
  constructor
  · rintro ⟨answer, waited, applied⟩
    cases answer with
    | none => cases applied
    | some decisions =>
        obtain ⟨plan, applied, same⟩ := bind_eq_ok_iff.mp applied
        cases same
        refine ⟨decisions, ?_, applied⟩
        split at waited
        · exact awaitedTogether_eq_some_iff.mp waited
        · exact awaitedInOrder_eq_some_iff.mp waited
  · rintro ⟨decisions, published, applied⟩
    refine ⟨some decisions, ?_, bind_eq_ok_iff.mpr ⟨result, applied, rfl⟩⟩
    split
    · exact awaitedTogether_eq_some_iff.mpr published
    · exact awaitedInOrder_eq_some_iff.mpr published

def decisionOf (scheduler : Scheduler σ ι) (vertex : String) : Reconfiguration :=
  match scheduler.outcome? vertex with
  | some (.finalized decision) => decision
  | _ => { parallelism := 0 }

theorem published_iff {vertices : List String} {decisions : List Reconfiguration} :
    scheduler.Published vertices decisions ↔
      decisions = vertices.map scheduler.decisionOf ∧ ∀ vertex ∈ vertices,
        scheduler.outcome? vertex = some (.finalized (scheduler.decisionOf vertex)) := by
  induction vertices generalizing decisions with
  | nil => simp [Published]
  | cons vertex rest ih =>
      rw [Published, List.forall₂_cons_left_iff]
      constructor
      · rintro ⟨decision, later, first, others, rfl⟩
        obtain ⟨rfl, all⟩ := ih.mp others
        have same : scheduler.decisionOf vertex = decision := by rw [decisionOf, first]
        exact ⟨by rw [List.map_cons, same],
          List.forall_mem_cons.mpr ⟨same ▸ first, all⟩⟩
      · rintro ⟨rfl, all⟩
        obtain ⟨first, others⟩ := List.forall_mem_cons.mp all
        exact ⟨_, _, first, ih.mpr ⟨rfl, others⟩, rfl⟩

theorem zip_map_decisions (vertices : List String) :
    vertices.zip (vertices.map scheduler.decisionOf) =
      vertices.map fun vertex => (vertex, scheduler.decisionOf vertex) := by
  simpa using List.zip_map' (l := vertices) (f := id) (g := scheduler.decisionOf)

end Awaiting

section BuiltIns

structure ConfinedTo (home : List InputEdge) (worker : Worker BuiltIn) : Prop where
  edges : worker.context.edges = home
  confined : ∀ decision, worker.outcome = some (.finalized decision) → decision.Confined home

theorem asked_edges {isAborted : Bool} {worker : Worker BuiltIn} {context : Context}
    {rest : List ManagerEvent} {facts : List HistoryFact}
    {answer : BuiltIn × Except ManagerError Decision}
    (asked : Asked BuiltIn.behaviour isAborted worker context rest facts answer) :
    context.edges = worker.context.edges ∧
      ∀ decision, answer.2 = .ok (.finalize decision) → decision.Confined context.edges := by
  cases asked with
  | start fresh => exact ⟨rfl, fun _ decided => BuiltIn.start_confined decided⟩
  | event event rest begun going next =>
      exact ⟨(learn_frame _ _).1, fun _ decided => BuiltIn.onEvent_confined decided⟩

theorem turn_confinedTo {home : List InputEdge} {isAborted : Bool} {worker after : Worker BuiltIn}
    {told : Option UInt32} {facts : List HistoryFact} (going : worker.outcome = none)
    (turn : Turn BuiltIn.behaviour isAborted worker after told facts)
    (kept : ConfinedTo home worker) : ConfinedTo home after := by
  cases turn with
  | pending context rest facts manager asked =>
      refine ⟨(asked_edges asked).1.trans kept.edges, fun decision published => ?_⟩
      cases going.symm.trans published
  | finalized context rest facts manager decision asked =>
      have same := (asked_edges asked).1.trans kept.edges
      refine ⟨same, fun other published => ?_⟩
      cases published
      exact same ▸ (asked_edges asked).2 decision rfl
  | failed context rest facts manager error asked =>
      exact ⟨(asked_edges asked).1.trans kept.edges, fun _ published => by cases published⟩
  | aborted begun stop => exact ⟨kept.edges, fun _ published => by cases published⟩

theorem hear_confinedTo {home : List InputEdge} (events : List ManagerEvent)
    (worker : Worker BuiltIn) (kept : ConfinedTo home worker) :
    ConfinedTo home (hear events worker) := by
  unfold hear
  split
  · exact kept
  · exact ⟨kept.edges, kept.confined⟩

variable {plan : Plan} {managers : Registry BuiltIn} {initializers : Registry ι}
  {managed : List String} {scheduler : Scheduler BuiltIn ι}

/-- Along every run, what a vertex decides is about the edges into it. -/
theorem outcome_confined
    (started : Submission.Started plan managers initializers managed scheduler)
    (sound : scheduler.Sound) (actions : List Action) {vertex : Vertex}
    (member : vertex ∈ plan.vertices) {decision : Reconfiguration}
    (published : (run BuiltIn.behaviour scheduler actions).outcome? vertex.name =
      some (.finalized decision)) :
    decision.Confined (Context.ofPlan plan vertex).edges := by
  obtain ⟨staff, _, placed⟩ := started.placed vertex member
  have handles := (run_frame BuiltIn.behaviour actions scheduler sound).2
  unfold Submission.Placed at placed
  rw [started.holds] at placed
  unfold outcome? at published
  rw [handles] at published
  cases kind : staff.manager with
  | none =>
      simp only [kind] at placed
      obtain ⟨tasks, _, handle⟩ := placed
      rw [handle] at published
      cases published
      exact Reconfiguration.confined_of_payloads_empty rfl
  | some manager =>
      -- the fresh worker holds the edges and has published nothing, which every turn keeps
      simp only [kind] at placed
      obtain ⟨index, _, handle, place, _⟩ := placed
      obtain ⟨after, now, kept⟩ := run_keeps BuiltIn.behaviour
        (ConfinedTo (Context.ofPlan plan vertex).edges)
        (fun events worker => hear_confinedTo events worker)
        (fun _ _ _ _ _ going turn => turn_confinedTo going turn) actions scheduler sound index _ place
        ⟨rfl, fun _ published => by cases published⟩
      rw [handle] at published
      simp only [Option.bind_some, outcomeOf, now] at published
      exact kept.confined decision published

end BuiltIns

theorem finalizedPlan_finished {graph : JobGraph} {plan : Plan} {scheduler : Scheduler σ ι}
    (adjacent : JobGraph.Adjacent graph) (created : graph.createPlan = .ok plan)
    (holds : scheduler.plan = plan)
    (published : ∀ vertex ∈ plan.vertices, scheduler.outcome? vertex.name =
      some (.finalized (scheduler.decisionOf vertex.name)))
    (own : ∀ vertex ∈ plan.vertices, ∀ id ∈ (scheduler.decisionOf vertex.name).payloads.keys,
      id ∈ vertex.inputEdges) :
    scheduler.finalizedPlan = .ok (some (plan.finished scheduler.decisionOf)) := by
  rw [finalizedPlan_eq_some_iff, holds]
  refine ⟨_, published_iff.mpr ⟨rfl, List.forall_mem_map.mpr published⟩, ?_⟩
  rw [zip_map_decisions]
  exact (JobGraph.createPlan_separate adjacent created own).finish fun edge stored =>
    (JobGraph.createPlan_ends adjacent created edge stored).2

section Runs

variable {name : String} {policy : NamespacePolicy} {mutations : List Mutation} {plan : Plan}
  {managers : Registry BuiltIn} {initializers : Registry ι}
  (created : ((JobGraph.create name policy).assemble mutations).createPlan = .ok plan)
  (accepted : (submit plan managers initializers).result = .ok ()) (actions : List Action)

include created accepted

theorem assembled_started : ∃ managed, Submission.Started plan managers initializers managed
    (submit plan managers initializers).scheduler :=
  Submission.submit_started plan managers initializers
    (JobGraph.createPlan_routed
      (JobGraph.assemble_adjacent _ mutations (JobGraph.create_adjacent name policy)) created)
    accepted

theorem run_plan :
    (run BuiltIn.behaviour (submit plan managers initializers).scheduler actions).plan = plan := by
  obtain ⟨managed, started⟩ := assembled_started created accepted
  exact (run_frame BuiltIn.behaviour actions _
    (submit_sound plan managers initializers)).1.trans started.holds

theorem run_own {vertex : Vertex} (member : vertex ∈ plan.vertices) {decision : Reconfiguration}
    (published : (run BuiltIn.behaviour (submit plan managers initializers).scheduler
      actions).outcome? vertex.name = some (.finalized decision)) (id : EdgeId)
    (named : id ∈ decision.payloads.keys) : id ∈ vertex.inputEdges := by
  obtain ⟨managed, started⟩ := assembled_started created accepted
  have among := outcome_confined started (submit_sound plan managers initializers) actions member
    published id named
  rw [Context.ofPlan_edges] at among
  exact Context.edgesOf_ids plan _ id among

/-- Once all vertices of a created plan have published, all their decisions are applied. -/
theorem run_finished (published : ∀ vertex ∈ plan.vertices,
      (run BuiltIn.behaviour (submit plan managers initializers).scheduler actions).outcome?
        vertex.name = some (.finalized ((run BuiltIn.behaviour
          (submit plan managers initializers).scheduler actions).decisionOf vertex.name))) :
    (run BuiltIn.behaviour (submit plan managers initializers).scheduler actions).finalizedPlan =
      .ok (some (plan.finished (run BuiltIn.behaviour
        (submit plan managers initializers).scheduler actions).decisionOf)) :=
  finalizedPlan_finished
    (JobGraph.assemble_adjacent _ mutations (JobGraph.create_adjacent name policy)) created
    (run_plan created accepted actions) published
    fun vertex member id named =>
      run_own created accepted actions member (published vertex member) id named

end Runs

/-- In every run of a created plan with built-in managers in which all vertices become final, the
plan with all decisions applied is there, and nothing else changed in it. The edges of the job are
made from their ends, so each has an id of its own and a payload is meant for one edge. -/
theorem finalized_plan_applies_decisions {ι : Type} (name : String) (policy : NamespacePolicy)
    (mutations : List Mutation) (plan : Plan) (managers : Registry BuiltIn)
    (initializers : Registry ι) (actions : List Action)
    (created : ((JobGraph.create name policy).assemble mutations).createPlan = .ok plan)
    (accepted : (submit plan managers initializers).result = .ok ())
    (finalized : ∀ vertex ∈ plan.vertices,
      (run BuiltIn.behaviour (submit plan managers initializers).scheduler actions).phase
        vertex.name = .ok .finalized) :
    let final := run BuiltIn.behaviour (submit plan managers initializers).scheduler actions
    ∃ (decisionOf : String → Reconfiguration) (resolved : SortedMap String Reconfiguration),
      (∀ vertex ∈ plan.vertices,
        final.outcome? vertex.name = some (.finalized (decisionOf vertex.name)) ∧
        final.resolvedParallelism? vertex.name = some (decisionOf vertex.name).parallelism ∧
        ∀ id ∈ (decisionOf vertex.name).payloads.keys, id ∈ vertex.inputEdges) ∧
      (∀ name, resolved.get? name =
        if name ∈ plan.vertices.map (·.name) then some (decisionOf name) else none) ∧
      final.finalizedPlan = .ok (some { plan with
        vertices := plan.vertices.map fun vertex => { vertex with
          parallelism := .fixed (decisionOf vertex.name).parallelism
          hints := vertex.hints.filter fun hints =>
            (decisionOf vertex.name).parallelism.toNat = hints.length }
        edges := plan.edges.map fun edge =>
          match (decisionOf edge.destination).payloads.get? edge.id with
          | some payload => edge.withOutputPayload payload
          | none => edge
        resolved := resolved }) := by
  intro final
  have sound := submit_sound plan managers initializers
  have published : ∀ vertex ∈ plan.vertices,
      final.outcome? vertex.name = some (.finalized (final.decisionOf vertex.name)) := by
    intro vertex member
    obtain ⟨decision, shown⟩ := (phase_finalized_iff final
      (run_sound BuiltIn.behaviour actions _ sound) vertex.name).mp (finalized vertex member)
    rw [decisionOf, shown]
  refine ⟨final.decisionOf, (plan.finished final.decisionOf).resolved, fun vertex member => ?_,
    plan.finished_resolved final.decisionOf, run_finished created accepted actions published⟩
  exact ⟨published vertex member, (resolvedParallelism?_eq_some_iff _ _ _).mpr
    ⟨_, published vertex member, rfl⟩,
    run_own created accepted actions member (published vertex member)⟩

def mergeJob : List Mutation :=
  let stage := fun (name : String) (tasks : UInt32) =>
    ({ name := name, processor := ⟨"Step", none⟩, parallelism := .fixed tasks
       resource := ⟨64, 1⟩ } : Vertex)
  let link := fun (movement : Movement) =>
    (⟨movement, .persisted, .sequential, ⟨OutputSettings.className, none⟩, ⟨"In", none⟩,
      none⟩ : EdgeProperty)
  [.addVertex (stage "left" 4), .addVertex (stage "right" 1), .addVertex (stage "join" 4),
    .editVertex "join" (.manager ⟨BuiltIn.shuffleClass, none⟩),
    .editVertex "join" (.hints (some (List.replicate 4 ⟨[], []⟩))),
    .addEdge "left" "join" (link .oneToOne), .addEdge "right" "join" (link .scatterGather)]

def mergeRun : List Action :=
  [.work 0, .taskCompleted "right" 0 10, .work 0]

theorem mergeRun_finishes :
    ∃ plan result, ((JobGraph.create "merge" .shared).assemble mergeJob).createPlan = .ok plan ∧
      (submit plan BuiltIn.registry (.empty : Registry Unit)).result = .ok () ∧
      (∀ vertex ∈ plan.vertices, (run BuiltIn.behaviour
        (submit plan BuiltIn.registry (.empty : Registry Unit)).scheduler mergeRun).phase
          vertex.name = .ok .finalized) ∧
      (run BuiltIn.behaviour (submit plan BuiltIn.registry (.empty : Registry Unit)).scheduler
        mergeRun).finalizedPlan = .ok (some result) ∧
      ∃ edge ∈ result.edges, edge.property.movement = .oneToOne ∧
        (result.vertex? edge.source).map (·.parallelism) = some (.fixed 4) ∧
        (result.vertex? edge.destination).map (·.parallelism) = some (.fixed 1) := by
  obtain ⟨plan, created, accepted, finalized, answer, finished, result, here, edge⟩ :
      ∃ plan ∈ ((JobGraph.create "merge" .shared).assemble mergeJob).createPlan.toOption,
        (submit plan BuiltIn.registry (.empty : Registry Unit)).result = .ok () ∧
        (∀ vertex ∈ plan.vertices, (run BuiltIn.behaviour
          (submit plan BuiltIn.registry (.empty : Registry Unit)).scheduler mergeRun).phase
            vertex.name = .ok .finalized) ∧
        ∃ answer ∈ (run BuiltIn.behaviour
            (submit plan BuiltIn.registry (.empty : Registry Unit)).scheduler
            mergeRun).finalizedPlan.toOption,
          ∃ result ∈ answer, ∃ edge ∈ result.edges, edge.property.movement = .oneToOne ∧
            (result.vertex? edge.source).map (·.parallelism) = some (.fixed 4) ∧
            (result.vertex? edge.destination).map (·.parallelism) = some (.fixed 1) := by
    decide +kernel
  obtain rfl : answer = some result := here
  exact ⟨plan, result, toOption_eq_some_iff.mp created, accepted, finalized,
    toOption_eq_some_iff.mp finished, edge⟩

theorem merged_job_is_finished :
    ∃ plan, ((JobGraph.create "merge" .shared).assemble mergeJob).createPlan = .ok plan ∧
      ∃ result, (run BuiltIn.behaviour
          (submit plan BuiltIn.registry (.empty : Registry Unit)).scheduler
          mergeRun).finalizedPlan = .ok (some result) ∧
        result.topology = plan.topology := by
  obtain ⟨plan, _, created, accepted, finalized, _⟩ := mergeRun_finishes
  obtain ⟨_, _, _, _, applied⟩ := finalized_plan_applies_decisions "merge" .shared mergeJob plan
    BuiltIn.registry (.empty : Registry Unit) mergeRun created accepted finalized
  exact ⟨plan, created, _, applied, rfl⟩

/-- A one-to-one edge of a finished plan joins the numbers of tasks that its ends decided. These are
equal where both ends kept the number that they were submitted with; no check makes them so where
one of them was decided anew. -/
theorem one_to_one_edges_join_decisions {ι : Type} (name : String) (policy : NamespacePolicy)
    (mutations : List Mutation) (plan result : Plan) (managers : Registry BuiltIn)
    (initializers : Registry ι) (actions : List Action)
    (created : ((JobGraph.create name policy).assemble mutations).createPlan = .ok plan)
    (accepted : (submit plan managers initializers).result = .ok ())
    (applied : (run BuiltIn.behaviour (submit plan managers initializers).scheduler
      actions).finalizedPlan = .ok (some result)) :
    let final := run BuiltIn.behaviour (submit plan managers initializers).scheduler actions
    ∀ edge ∈ result.edges, edge.property.movement = .oneToOne →
      ∃ source destination first second,
        plan.vertex? edge.source = some source ∧
        plan.vertex? edge.destination = some destination ∧
        final.resolvedParallelism? edge.source = some first ∧
        final.resolvedParallelism? edge.destination = some second ∧
        (result.vertex? edge.source).map (·.parallelism) = some (.fixed first) ∧
        (result.vertex? edge.destination).map (·.parallelism) = some (.fixed second) ∧
        (source.parallelism = .fixed first → destination.parallelism = .fixed second →
          first = second) := by
  intro final edge stored paired
  have adjacent := JobGraph.assemble_adjacent _ mutations (JobGraph.create_adjacent name policy)
  have routed : plan.Routed := JobGraph.createPlan_routed adjacent created
  have holds : final.plan = plan := run_plan created accepted actions
  obtain ⟨decisions, published, _⟩ := finalizedPlan_eq_some_iff.mp applied
  have decided := (published_iff.mp published).2
  rw [holds] at decided
  have whole : result = plan.finished final.decisionOf := by
    have finished := run_finished created accepted actions
      fun vertex member => decided vertex.name (List.mem_map_of_mem member)
    exact Option.some.inj (Except.ok.inj (applied.symm.trans finished))
  subst whole
  obtain ⟨old, submitted, rfl⟩ := List.mem_map.mp stored
  obtain ⟨_, sameSource, sameDestination, sameMovement⟩ :=
    old.withPayloads_frame (final.decisionOf old.destination).payloads
  rw [sameMovement] at paired
  rw [sameSource, sameDestination]
  obtain ⟨knownSource, knownDestination⟩ :=
    JobGraph.createPlan_ends adjacent created old submitted
  obtain ⟨source, sends, sourceName⟩ := List.mem_map.mp knownSource
  obtain ⟨destination, takes, destinationName⟩ := List.mem_map.mp knownDestination
  have leaves : plan.vertex? old.source = some source := sourceName ▸ routed.vertex? source sends
  have enters : plan.vertex? old.destination = some destination :=
    destinationName ▸ routed.vertex? destination takes
  refine ⟨source, destination, _, _, leaves, enters,
    (resolvedParallelism?_eq_some_iff _ _ _).mpr ⟨_, decided _ knownSource, rfl⟩,
    (resolvedParallelism?_eq_some_iff _ _ _).mpr ⟨_, decided _ knownDestination, rfl⟩, ?_, ?_,
    JobGraph.createPlan_oneToOne adjacent created old submitted paired source destination leaves
      enters _ _⟩
  · rw [Plan.finished_vertex?, leaves, ← sourceName]
    rfl
  · rw [Plan.finished_vertex?, enters, ← destinationName]
    rfl

theorem merged_job_joins_decisions :
    ∃ plan, ((JobGraph.create "merge" .shared).assemble mergeJob).createPlan = .ok plan ∧
      ∃ (edge : Edge) (first second : UInt32),
        (run BuiltIn.behaviour (submit plan BuiltIn.registry (.empty : Registry Unit)).scheduler
          mergeRun).resolvedParallelism? edge.source = some first ∧
        (run BuiltIn.behaviour (submit plan BuiltIn.registry (.empty : Registry Unit)).scheduler
          mergeRun).resolvedParallelism? edge.destination = some second := by
  obtain ⟨plan, result, created, accepted, _, finished, edge, stored, paired, _⟩ :=
    mergeRun_finishes
  obtain ⟨_, _, first, second, _, _, sends, takes, _⟩ :=
    one_to_one_edges_join_decisions "merge" .shared mergeJob plan result BuiltIn.registry
      (.empty : Registry Unit) mergeRun created accepted finished edge stored paired
  exact ⟨plan, created, edge, first, second, sends, takes⟩

/-- An end that is reduced no longer takes one task for each task of the other. -/
theorem reduced_end_parts_from_its_source :
    ∃ plan, ((JobGraph.create "merge" .shared).assemble mergeJob).createPlan = .ok plan ∧
      (submit plan BuiltIn.registry (.empty : Registry Unit)).result = .ok () ∧
      ∃ result, (run BuiltIn.behaviour
          (submit plan BuiltIn.registry (.empty : Registry Unit)).scheduler
          mergeRun).finalizedPlan = .ok (some result) ∧
        ∃ edge ∈ result.edges, edge.property.movement = .oneToOne ∧
          (result.vertex? edge.source).map (·.parallelism) = some (.fixed 4) ∧
          (result.vertex? edge.destination).map (·.parallelism) = some (.fixed 1) := by
  obtain ⟨plan, result, created, accepted, _, finished, apart⟩ := mergeRun_finishes
  exact ⟨plan, created, accepted, result, finished, apart⟩

end ElasticJob.Scheduler
