import ElasticJob.Proofs.Scheduler.Finalization
import Mathlib.Data.List.Perm.Basic

/-!
Decisions in any order. A decision is judged by what the plan says of its own vertex, which no
decision for another vertex touches; and two of them meet at an edge only where both hold a payload
for it. So where no two do, as among the decisions of built-in managers, an order decides nothing.
-/

namespace ElasticJob

namespace Plan

def applyEach (plan : Plan) :
    List (String × Reconfiguration) → Plan × List (String × Except JobError Unit)
  | [] => (plan, [])
  | entry :: rest =>
      let (next, verdict) := plan.applyReconfiguration entry.1 entry.2
      let (last, verdicts) := next.applyEach rest
      (last, (entry.1, verdict) :: verdicts)

def verdict (plan : Plan) (entry : String × Reconfiguration) : Except JobError Unit :=
  (plan.applyReconfiguration entry.1 entry.2).2

def after (plan : Plan) (entry : String × Reconfiguration) : Plan :=
  (plan.applyReconfiguration entry.1 entry.2).1

theorem applyEach_cons (plan : Plan) (entry : String × Reconfiguration)
    (rest : List (String × Reconfiguration)) :
    plan.applyEach (entry :: rest) =
      (((plan.after entry).applyEach rest).1,
        (entry.1, plan.verdict entry) :: ((plan.after entry).applyEach rest).2) := rfl

theorem verdict_eq (plan : Plan) (entry : String × Reconfiguration) :
    plan.verdict entry =
      if plan.resolved.contains entry.1 then
        .error (.invalidState s!"vertex `{entry.1}` already reconfigured")
      else
        match plan.vertex? entry.1 with
        | none => .error (.vertexNotFound entry.1)
        | some vertex =>
            match foreignEdge? vertex entry.2 with
            | some id => .error (.invalidArgument
                s!"edge `{id.text}` is not connected to vertex `{entry.1}`")
            | none => .ok () := by
  unfold verdict applyReconfiguration
  split
  · rfl
  · cases plan.vertex? entry.1 with
    | none => rfl
    | some vertex => cases foreign : foreignEdge? vertex entry.2 <;> simp [foreign]

theorem after_eq (plan : Plan) (entry : String × Reconfiguration) :
    plan.after entry =
      if plan.verdict entry = .ok () then plan.resolve entry.1 entry.2 else plan := by
  unfold after verdict applyReconfiguration
  by_cases decided : plan.resolved.contains entry.1 = true
  · simp [decided]
  · cases plan.vertex? entry.1 with
    | none => simp [decided]
    | some vertex => cases foreign : foreignEdge? vertex entry.2 <;> simp [decided, foreign]

structure Independent (entries : List (String × Reconfiguration)) : Prop where
  names : (entries.map Prod.fst).Nodup
  payloads : entries.Pairwise fun one other =>
    ∀ id ∈ one.2.payloads.keys, id ∉ other.2.payloads.keys

theorem Independent.tail {entry : String × Reconfiguration}
    {rest : List (String × Reconfiguration)} (independent : Independent (entry :: rest)) :
    Independent rest :=
  ⟨(List.nodup_cons.mp independent.names).2, (List.pairwise_cons.mp independent.payloads).2⟩

theorem Independent.permute {first second : List (String × Reconfiguration)}
    (independent : Independent first) (permuted : first.Perm second) : Independent second :=
  ⟨(permuted.map Prod.fst).nodup_iff.mp independent.names,
    permuted.pairwise independent.payloads fun apart id named held => apart id held named⟩

section Resolving

variable {plan : Plan} (keyed : plan.Keyed) {name other : String}
  (decision later : Reconfiguration) (apart : name ≠ other)

include keyed

theorem Keyed.resolve : (plan.resolve name decision).Keyed := by
  rw [keyed.resolve_eq]
  refine keyed.mapped rfl rfl (fun vertex => ?_) fun edge => (edge.withPayloads_frame _).1
  split <;> rfl

include apart

theorem Keyed.resolve_vertex? :
    (plan.resolve name decision).vertex? other = plan.vertex? other := by
  rw [keyed.resolve_eq]
  simp only [vertex?, List.find?_map]
  have same : (fun vertex : Vertex => decide (vertex.name = other)) ∘ (fun vertex : Vertex =>
      if vertex.name = name then vertex.setParallelism (.fixed decision.parallelism)
      else vertex) = fun vertex => decide (vertex.name = other) := by
    funext vertex
    dsimp only [Function.comp]
    split <;> rfl
  rw [same]
  cases found : plan.vertices.find? fun vertex => decide (vertex.name = other) with
  | none => rfl
  | some vertex =>
      have named : vertex.name = other := by simpa using List.find?_some found
      rw [Option.map_some, if_neg (named.trans_ne apart.symm)]

theorem Keyed.resolve_verdict :
    (plan.resolve name decision).verdict (other, later) = plan.verdict (other, later) := by
  have contained : (plan.resolve name decision).resolved.contains other =
      plan.resolved.contains other := by
    change ((plan.resolved.insert name decision).get? other).isSome = _
    rw [SortedMap.get?_insert_ne _ _ apart.symm]
    rfl
  simp only [verdict_eq, contained, keyed.resolve_vertex? decision apart]

theorem Keyed.resolve_comm
    (disjoint : ∀ id ∈ decision.payloads.keys, id ∉ later.payloads.keys) :
    (plan.resolve name decision).resolve other later =
      (plan.resolve other later).resolve name decision := by
  rw [(keyed.resolve decision).resolve_eq, (keyed.resolve later).resolve_eq, keyed.resolve_eq,
    keyed.resolve_eq]
  simp only [List.map_map, mk.injEq, true_and]
  refine ⟨List.map_congr_left fun vertex _ => ?_, List.map_congr_left fun edge _ => ?_, ?_⟩
  · dsimp only [Function.comp]
    by_cases first : vertex.name = name
    · have kept : (vertex.setParallelism (.fixed decision.parallelism)).name = vertex.name := rfl
      simp [first, kept, apart]
    · by_cases second : vertex.name = other
      · have kept : (vertex.setParallelism (.fixed later.parallelism)).name = vertex.name := rfl
        simp [second, kept, apart.symm]
      · simp [first, second]
  · dsimp only [Function.comp]
    by_cases named : edge.id ∈ decision.payloads.keys
    · have unnamed := disjoint _ named
      rw [Edge.withPayloads_of_notMem unnamed, Edge.withPayloads_of_notMem]
      rwa [(edge.withPayloads_frame _).1]
    · rw [Edge.withPayloads_of_notMem named]
      refine (Edge.withPayloads_of_notMem ?_).symm
      rwa [(edge.withPayloads_frame _).1]
  · apply SortedMap.ext_get?
    intro key
    by_cases first : key = name
    · subst first
      rw [SortedMap.get?_insert_ne _ _ apart, SortedMap.get?_insert_self, SortedMap.get?_insert_self]
    · rw [SortedMap.get?_insert_ne _ _ first]
      by_cases second : key = other
      · subst second
        rw [SortedMap.get?_insert_self, SortedMap.get?_insert_self]
      · rw [SortedMap.get?_insert_ne _ _ second, SortedMap.get?_insert_ne _ _ second,
          SortedMap.get?_insert_ne _ _ first]

end Resolving

section Applying

variable {plan : Plan} (keyed : plan.Keyed)

include keyed

theorem Keyed.after (entry : String × Reconfiguration) : (plan.after entry).Keyed := by
  rw [after_eq]
  split
  · exact keyed.resolve entry.2
  · exact keyed

theorem Keyed.after_verdict {entry other : String × Reconfiguration} (apart : entry.1 ≠ other.1) :
    (plan.after entry).verdict other = plan.verdict other := by
  rw [after_eq]
  split
  · exact keyed.resolve_verdict entry.2 other.2 apart
  · rfl

theorem Keyed.after_comm {entry other : String × Reconfiguration} (apart : entry.1 ≠ other.1)
    (disjoint : ∀ id ∈ entry.2.payloads.keys, id ∉ other.2.payloads.keys) :
    (plan.after entry).after other = (plan.after other).after entry := by
  rw [after_eq (plan.after entry), keyed.after_verdict apart, after_eq (plan.after other),
    keyed.after_verdict apart.symm, after_eq, after_eq]
  by_cases first : plan.verdict entry = .ok ()
  · by_cases second : plan.verdict other = .ok ()
    · simp only [first, second, if_true]
      exact keyed.resolve_comm entry.2 other.2 apart disjoint
    · simp [first, second]
  · by_cases second : plan.verdict other = .ok ()
    · simp [first, second]
    · simp [first, second]

theorem Keyed.applyEach_verdicts {entries : List (String × Reconfiguration)}
    (distinct : (entries.map Prod.fst).Nodup) :
    (plan.applyEach entries).2 = entries.map fun entry => (entry.1, plan.verdict entry) := by
  induction entries generalizing plan with
  | nil => rfl
  | cons entry rest ih =>
      obtain ⟨alone, others⟩ := List.nodup_cons.mp distinct
      simp only [applyEach_cons, ih (keyed.after entry) others, List.map_cons, List.cons.injEq,
        true_and]
      refine List.map_congr_left fun other listed => ?_
      have apart : entry.1 ≠ other.1 := fun same =>
        alone (same ▸ List.mem_map_of_mem listed)
      rw [keyed.after_verdict apart]

theorem Keyed.applyEach_perm {first second : List (String × Reconfiguration)}
    (permuted : first.Perm second) (independent : Independent first) :
    (plan.applyEach first).1 = (plan.applyEach second).1 := by
  induction permuted generalizing plan with
  | nil => rfl
  | cons entry _ ih =>
      rw [applyEach_cons, applyEach_cons]
      exact ih (keyed.after entry) independent.tail
  | swap other entry rest =>
      have apart : entry.1 ≠ other.1 := fun same =>
        (List.nodup_cons.mp independent.names).1 (same ▸ List.mem_cons_self)
      have disjoint := (List.pairwise_cons.mp independent.payloads).1 other List.mem_cons_self
      simp only [applyEach_cons, keyed.after_comm apart disjoint]
  | trans earlier _ ih ih' =>
      exact (ih keyed independent).trans (ih' keyed (independent.permute earlier))

/-- Neither the plan after a family of decisions nor a verdict depends on their order. -/
theorem Keyed.applyEach_comm {first second : List (String × Reconfiguration)}
    (permuted : first.Perm second) (independent : Independent first) :
    (plan.applyEach first).1 = (plan.applyEach second).1 ∧
      (plan.applyEach first).2.Perm (plan.applyEach second).2 := by
  refine ⟨keyed.applyEach_perm permuted independent, ?_⟩
  rw [keyed.applyEach_verdicts independent.names,
    keyed.applyEach_verdicts (independent.permute permuted).names]
  exact permuted.map _

end Applying

theorem foldlM_applyDecision_eq_ok_iff {entries : List (String × Reconfiguration)}
    {plan result : Plan} :
    entries.foldlM Scheduler.applyDecision plan = .ok result ↔
      plan.applyEach entries = (result, entries.map fun entry => (entry.1, .ok ())) := by
  induction entries generalizing plan with
  | nil => simp [applyEach, pure, Except.pure]
  | cons entry rest ih =>
      rw [List.foldlM_cons, applyEach_cons, bind_eq_ok_iff, List.map_cons]
      have applied : ∀ next, Scheduler.applyDecision plan entry = .ok next ↔
          plan.after entry = next ∧ plan.verdict entry = .ok () := by
        intro next
        unfold Scheduler.applyDecision after verdict
        rcases plan.applyReconfiguration entry.1 entry.2 with ⟨after, error | ⟨⟩⟩ <;> simp
      simp only [applied, ih]
      constructor
      · rintro ⟨_, ⟨rfl, judged⟩, later⟩
        rw [judged, later]
      · intro same
        obtain ⟨last, verdicts⟩ := Prod.mk.inj same
        obtain ⟨judged, later⟩ := List.cons.inj verdicts
        exact ⟨_, ⟨rfl, (Prod.mk.inj judged).2⟩, Prod.ext last later⟩

/-- Decisions that keep to the edges into their vertices never meet at an edge. -/
theorem independent_of_own {plan : Plan} {entries : List (String × Reconfiguration)}
    (entering : ∀ vertex ∈ plan.vertices, ∀ id ∈ vertex.inputEdges, id.destination = vertex.name)
    (distinct : (entries.map Prod.fst).Nodup)
    (own : ∀ entry ∈ entries, ∃ vertex ∈ plan.vertices, vertex.name = entry.1 ∧
      ∀ id ∈ entry.2.payloads.keys, id ∈ vertex.inputEdges) : Independent entries := by
  have home : ∀ entry ∈ entries, ∀ id ∈ entry.2.payloads.keys, id.destination = entry.1 := by
    intro entry listed id named
    obtain ⟨vertex, member, name, inside⟩ := own entry listed
    rw [← name]
    exact entering vertex member id (inside id named)
  refine ⟨distinct, (List.pairwise_map.mp distinct).imp_of_mem ?_⟩
  intro one other first second apart id named held
  exact apart ((home one first id named).symm.trans (home other second id held))

end Plan

inductive BuiltIn.Decides (context : Context) (decision : Reconfiguration) : Prop where
  | start (manager : BuiltIn)
      (decided : (behaviour.start context manager).2 = .ok (.finalize decision))
  | onEvent (manager : BuiltIn) (event : ManagerEvent)
      (decided : (behaviour.onEvent context event manager).2 = .ok (.finalize decision))

theorem BuiltIn.Decides.confined {context : Context} {decision : Reconfiguration}
    (decides : BuiltIn.Decides context decision) : decision.Confined context.edges := by
  cases decides with
  | start manager decided => exact BuiltIn.start_confined decided
  | onEvent manager event decided => exact BuiltIn.onEvent_confined decided

theorem JobGraph.createPlan_inputEdges {graph : JobGraph} {plan : Plan}
    (adjacent : Adjacent graph) (created : graph.createPlan = .ok plan) (vertex : Vertex)
    (member : vertex ∈ plan.vertices) (id : EdgeId) (listed : id ∈ vertex.inputEdges) :
    id.destination = vertex.name := by
  obtain ⟨_, _, looked⟩ := createPlan_names adjacent created
  rw [(adjacent.incoming _ vertex (looked vertex member)).2] at listed
  obtain ⟨edge, into, rfl⟩ := List.mem_map.mp listed
  obtain ⟨stored, enters⟩ := List.mem_filter.mp into
  rw [(adjacent.ends edge stored).1]
  exact of_decide_eq_true enters

namespace Scheduler

/-- Decisions for distinct vertices of a created plan come to the same plan and to the same verdicts
in every order, where no two hold a payload for one edge. What built-in managers decide is such a
family, so a finished plan is the same in whatever order the decisions are applied. The edges of the
plan are made from their ends: with ids that do not tell them, two edges into different vertices
could share one id, and two decisions hold a payload for it. -/
theorem decisions_commute {ι : Type} (name : String) (policy : NamespacePolicy)
    (mutations : List Mutation) (plan : Plan)
    (created : ((JobGraph.create name policy).assemble mutations).createPlan = .ok plan) :
    (∀ first second : List (String × Reconfiguration), first.Perm second →
      (first.map Prod.fst).Nodup →
      (first.Pairwise fun one other =>
        ∀ id ∈ one.2.payloads.keys, id ∉ other.2.payloads.keys) →
      (plan.applyEach first).1 = (plan.applyEach second).1 ∧
        (plan.applyEach first).2.Perm (plan.applyEach second).2) ∧
    (∀ entries : List (String × Reconfiguration), (entries.map Prod.fst).Nodup →
      (∀ entry ∈ entries, ∃ vertex ∈ plan.vertices, vertex.name = entry.1 ∧
        ∃ context, context.edges = (Context.ofPlan plan vertex).edges ∧
          BuiltIn.Decides context entry.2) →
      entries.Pairwise fun one other =>
        ∀ id ∈ one.2.payloads.keys, id ∉ other.2.payloads.keys) ∧
    ∀ (managers : Registry BuiltIn) (initializers : Registry ι) (actions : List Action)
      (result : Plan) (entries : List (String × Reconfiguration)),
      (submit plan managers initializers).result = .ok () →
      let final := run BuiltIn.behaviour (submit plan managers initializers).scheduler actions
      final.finalizedPlan = .ok (some result) →
      (entries.map Prod.fst).Perm (plan.vertices.map (·.name)) →
      (∀ entry ∈ entries, final.outcome? entry.1 = some (.finalized entry.2)) →
      (plan.applyEach entries).1 = result ∧
        ∀ verdict ∈ (plan.applyEach entries).2, verdict.2 = .ok () := by
  have adjacent := JobGraph.assemble_adjacent _ mutations (JobGraph.create_adjacent name policy)
  have keyed := JobGraph.createPlan_keyed adjacent created
  have entering := JobGraph.createPlan_inputEdges adjacent created
  refine ⟨fun first second permuted distinct disjoint => ?_, fun entries distinct decided => ?_,
    fun managers initializers actions result entries accepted => ?_⟩
  · exact keyed.applyEach_comm permuted ⟨distinct, disjoint⟩
  · refine (Plan.independent_of_own entering distinct fun entry listed => ?_).payloads
    obtain ⟨vertex, member, same, context, edges, decides⟩ := decided entry listed
    refine ⟨vertex, member, same, fun id named => ?_⟩
    have among := decides.confined id named
    rw [edges, Context.ofPlan_edges] at among
    exact Context.edgesOf_ids plan _ id among
  · intro final finished named published
    obtain ⟨decisions, inOrder, applied⟩ := finalizedPlan_eq_some_iff.mp finished
    rw [run_plan created accepted actions] at inOrder applied
    -- the entries are those that the plan was finished with, in another order
    obtain ⟨rfl, _⟩ := published_iff.mp inOrder
    have shown : ∀ entry ∈ entries, (entry.1, final.decisionOf entry.1) = entry := by
      intro entry listed
      rw [decisionOf, published entry listed]
    have listed : (entries.map Prod.fst).map (fun name => (name, final.decisionOf name)) =
        entries := by
      rw [List.map_map]
      exact (List.map_congr_left shown).trans (List.map_id' entries)
    have permuted := named.map fun name => (name, final.decisionOf name)
    rw [listed, ← zip_map_decisions] at permuted
    have independent : Plan.Independent entries :=
      Plan.independent_of_own entering (named.nodup_iff.mpr keyed.names) fun entry listed => by
        obtain ⟨vertex, member, same⟩ :=
          List.mem_map.mp (named.subset (List.mem_map_of_mem listed))
        exact ⟨vertex, member, same, run_own created accepted actions member
          (same ▸ published entry listed)⟩
    obtain ⟨plans, verdicts⟩ := keyed.applyEach_comm permuted independent
    rw [Plan.foldlM_applyDecision_eq_ok_iff.mp applied] at plans verdicts
    refine ⟨plans, fun verdict listed => ?_⟩
    obtain ⟨entry, _, rfl⟩ := List.mem_map.mp (verdicts.subset listed)
    rfl

/-- The decisions of a finished job, applied from the last stage to the first. -/
theorem merged_job_is_finished_backwards :
    ∃ plan result decisions, ((JobGraph.create "merge" .shared).assemble mergeJob).createPlan =
        .ok plan ∧
      (run BuiltIn.behaviour (submit plan BuiltIn.registry (.empty : Registry Unit)).scheduler
        mergeRun).finalizedPlan = .ok (some result) ∧
      decisions.map Prod.fst = (plan.vertices.map (·.name)).reverse ∧
      (plan.applyEach decisions).1 = result := by
  obtain ⟨plan, result, created, accepted, _, finished, _⟩ := mergeRun_finishes
  obtain ⟨_, _, anyOrder⟩ := @decisions_commute Unit "merge" .shared mergeJob plan created
  obtain ⟨decisions, inOrder, _⟩ := finalizedPlan_eq_some_iff.mp finished
  rw [run_plan created accepted mergeRun] at inOrder
  have published := (published_iff.mp inOrder).2
  let final := run BuiltIn.behaviour
    (submit plan BuiltIn.registry (.empty : Registry Unit)).scheduler mergeRun
  have names : (((plan.vertices.map (·.name)).map fun vertex =>
      (vertex, final.decisionOf vertex)).reverse).map Prod.fst =
        (plan.vertices.map (·.name)).reverse := by
    simp [Function.comp_def]
  refine ⟨plan, result, _, created, finished, names, ?_⟩
  refine (anyOrder BuiltIn.registry (.empty : Registry Unit) mergeRun result _ accepted
    finished (names ▸ List.reverse_perm _) fun entry listed => ?_).1
  obtain ⟨vertex, member, rfl⟩ := List.mem_map.mp (List.mem_reverse.mp listed)
  exact published vertex member

end Scheduler

end ElasticJob
