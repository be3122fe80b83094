import ElasticJob.Proofs.Collection.Listing
import ElasticJob.Proofs.Plan.Creation
import ElasticJob.Scheduler.Basic

/-!
What decisions do to a plan. A decision rewrites one vertex and the edges that it names, each on its
own, and is accepted where its vertex has none yet, whatever other vertices decided. So where every
decision names only edges into its own vertex, the decisions of distinct vertices all go through,
and the plan after them is the first one with every vertex and every edge rewritten once.
-/

namespace ElasticJob

namespace Edge

def withPayloads (payloads : SortedMap EdgeId Bytes) (edge : Edge) : Edge :=
  match payloads.get? edge.id with
  | some payload => edge.withOutputPayload payload
  | none => edge

theorem withPayloads_frame (payloads : SortedMap EdgeId Bytes) (edge : Edge) :
    (edge.withPayloads payloads).id = edge.id ∧
      (edge.withPayloads payloads).source = edge.source ∧
      (edge.withPayloads payloads).destination = edge.destination ∧
      (edge.withPayloads payloads).property.movement = edge.property.movement := by
  unfold withPayloads
  split <;> exact ⟨rfl, rfl, rfl, rfl⟩

theorem withPayloads_of_notMem {payloads : SortedMap EdgeId Bytes} {edge : Edge}
    (unnamed : edge.id ∉ payloads.keys) : edge.withPayloads payloads = edge := by
  have absent : payloads.get? edge.id = none := by
    rw [← Option.not_isSome_iff_eq_none]
    exact fun present => unnamed (SortedMap.contains_iff.mp present)
  rw [withPayloads, absent]

end Edge

namespace Plan

section Updates

variable {α κ : Type} [DecidableEq κ] (key : α → κ) (wanted : κ) (change : α → α)

theorem updateFirst_eq_map (items : List α) (unique : (items.map key).Nodup) :
    updateFirst (fun item => key item = wanted) change items =
      items.map fun item => if key item = wanted then change item else item := by
  induction items with
  | nil => rfl
  | cons first rest ih =>
      obtain ⟨alone, others⟩ := List.nodup_cons.mp unique
      rw [updateFirst, List.map_cons]
      by_cases here : key first = wanted
      · have unchanged : ∀ item ∈ rest,
            (if key item = wanted then change item else item) = item := by
          intro item member
          rw [if_neg]
          rintro same
          exact alone (List.mem_map.mpr ⟨item, member, same.trans here.symm⟩)
        rw [List.map_congr_left unchanged, List.map_id']
        simp [here]
      · simp [here, ih others]

end Updates

theorem foldl_putPayload (entries : List (EdgeId × Bytes)) (edges : List Edge)
    (distinct : (entries.map Prod.fst).Nodup) (unique : (edges.map (·.id)).Nodup) :
    entries.foldl putPayload edges = edges.map fun edge =>
      match SortedMap.lookup edge.id entries with
      | some payload => edge.withOutputPayload payload
      | none => edge := by
  induction entries generalizing edges with
  | nil => simp [SortedMap.lookup]
  | cons entry rest ih =>
      obtain ⟨alone, others⟩ := List.nodup_cons.mp distinct
      -- the first entry changes no id, so the later ones find the same edges as without it
      have first : putPayload edges entry = edges.map fun edge =>
          if edge.id = entry.1 then edge.withOutputPayload entry.2 else edge :=
        updateFirst_eq_map Edge.id entry.1 _ edges unique
      have ids : (putPayload edges entry).map (·.id) = edges.map (·.id) := by
        rw [first, List.map_map]
        refine List.map_congr_left fun edge _ => ?_
        dsimp only [Function.comp]
        split <;> rfl
      rw [List.foldl_cons, ih _ others (ids ▸ unique), first, List.map_map]
      refine List.map_congr_left fun edge _ => ?_
      by_cases here : edge.id = entry.1
      · have same : (edge.withOutputPayload entry.2).id = entry.1 := here
        simp [here, same, SortedMap.lookup_eq_none_iff.mpr alone, SortedMap.lookup]
      · have apart : compare edge.id entry.1 ≠ .eq :=
          fun same => here (SortedMap.compare_eq_iff.mp same)
        simp [here, apart, SortedMap.lookup]

structure Keyed (plan : Plan) : Prop where
  names : (plan.vertices.map (·.name)).Nodup
  ids : (plan.edges.map (·.id)).Nodup

theorem Keyed.mapped {plan next : Plan} (keyed : plan.Keyed) {onVertex : Vertex → Vertex}
    {onEdge : Edge → Edge} (vertices : next.vertices = plan.vertices.map onVertex)
    (edges : next.edges = plan.edges.map onEdge)
    (names : ∀ vertex, (onVertex vertex).name = vertex.name)
    (ids : ∀ edge, (onEdge edge).id = edge.id) : next.Keyed := by
  have named : next.vertices.map (·.name) = plan.vertices.map (·.name) := by
    rw [vertices, List.map_map]
    exact List.map_congr_left fun vertex _ => names vertex
  have known : next.edges.map (·.id) = plan.edges.map (·.id) := by
    rw [edges, List.map_map]
    exact List.map_congr_left fun edge _ => ids edge
  exact ⟨named ▸ keyed.names, known ▸ keyed.ids⟩

theorem Keyed.resolve_eq {plan : Plan} (keyed : plan.Keyed) (name : String)
    (decision : Reconfiguration) :
    plan.resolve name decision = { plan with
      vertices := plan.vertices.map fun vertex =>
        if vertex.name = name then vertex.setParallelism (.fixed decision.parallelism) else vertex
      edges := plan.edges.map (·.withPayloads decision.payloads)
      resolved := plan.resolved.insert name decision } := by
  rw [resolve, updateFirst_eq_map Vertex.name name _ _ keyed.names,
    foldl_putPayload _ _ decision.payloads.keys_nodup keyed.ids]
  rfl

theorem applyReconfiguration_eq_ok {plan : Plan} {name : String} {vertex : Vertex}
    {decision : Reconfiguration} (undecided : ¬ plan.resolved.contains name = true)
    (found : plan.vertex? name = some vertex)
    (own : ∀ id ∈ decision.payloads.keys, id ∈ vertex.inputEdges ∨ id ∈ vertex.outputEdges) :
    plan.applyReconfiguration name decision = (plan.resolve name decision, .ok ()) := by
  have domestic : foreignEdge? vertex decision = none := by
    rw [foreignEdge?, List.find?_eq_none]
    intro id listed
    simpa [Bool.or_eq_true, or_iff_not_imp_left] using own id listed
  simp only [applyReconfiguration, if_neg undecided, found, domestic]

/-- Decisions for the vertices of a plan that has none, each of which names only edges into the
vertex that it is for. -/
structure Separate (plan : Plan) (decisionOf : String → Reconfiguration) : Prop
    extends Keyed plan where
  undecided : plan.resolved = .empty
  entering : ∀ vertex ∈ plan.vertices, ∀ edge ∈ plan.edges, edge.id ∈ vertex.inputEdges →
    edge.destination = vertex.name
  own : ∀ vertex ∈ plan.vertices, ∀ id ∈ (decisionOf vertex.name).payloads.keys,
    id ∈ vertex.inputEdges

def decided (plan : Plan) (decisionOf : String → Reconfiguration) (done : List String) : Plan :=
  { plan with
    vertices := plan.vertices.map fun vertex =>
      if vertex.name ∈ done then
        vertex.setParallelism (.fixed (decisionOf vertex.name).parallelism)
      else vertex
    edges := plan.edges.map fun edge =>
      if edge.destination ∈ done then edge.withPayloads (decisionOf edge.destination).payloads
      else edge
    resolved := .ofList (done.map fun name => (name, decisionOf name)) }

section Decided

variable {plan : Plan} {decisionOf : String → Reconfiguration} {done : List String}

theorem decided_contains {name : String} :
    (plan.decided decisionOf done).resolved.contains name = true ↔ name ∈ done := by
  change (SortedMap.ofList _).contains name = true ↔ _
  rw [SortedMap.contains, SortedMap.ofList, SortedMap.get?_insertMany_map]
  split <;> simp [*]

theorem Separate.decided_nil (separate : plan.Separate decisionOf) :
    plan.decided decisionOf [] = plan := by
  obtain ⟨name, vertices, edges, groups, topology, resolved⟩ := plan
  obtain rfl : resolved = .empty := separate.undecided
  simp [decided]
  rfl

theorem Keyed.decided (keyed : plan.Keyed) : (plan.decided decisionOf done).Keyed := by
  refine keyed.mapped rfl rfl (fun vertex => ?_) fun edge => ?_
  · split <;> rfl
  · split
    · exact (edge.withPayloads_frame _).1
    · rfl

theorem Keyed.decided_vertex? (keyed : plan.Keyed) {vertex : Vertex}
    (member : vertex ∈ plan.vertices) (waiting : vertex.name ∉ done) :
    (plan.decided decisionOf done).vertex? vertex.name = some vertex := by
  have kept : vertex ∈ (plan.decided decisionOf done).vertices :=
    List.mem_map.mpr ⟨vertex, member, if_neg waiting⟩
  exact find?_key Vertex.name _ vertex keyed.decided.names kept

theorem Separate.decide_next (separate : plan.Separate decisionOf) {vertex : Vertex}
    (member : vertex ∈ plan.vertices) (waiting : vertex.name ∉ done) :
    (plan.decided decisionOf done).applyReconfiguration vertex.name (decisionOf vertex.name) =
      (plan.decided decisionOf (done ++ [vertex.name]), .ok ()) := by
  have keyed : (plan.decided decisionOf done).Keyed := separate.toKeyed.decided
  rw [applyReconfiguration_eq_ok (fun present => waiting (decided_contains.mp present))
    (separate.decided_vertex? member waiting)
    (fun id named => .inl (separate.own vertex member id named)), keyed.resolve_eq]
  congr 1
  simp only [decided, List.map_map, mk.injEq, true_and, List.map_append, List.map_cons,
    List.map_nil]
  refine ⟨List.map_congr_left fun other _ => ?_, List.map_congr_left fun edge stored => ?_, ?_⟩
  · dsimp only [Function.comp]
    by_cases before : other.name ∈ done
    · have apart : other.name ≠ vertex.name := fun same => waiting (same ▸ before)
      have kept : (other.setParallelism (.fixed (decisionOf other.name).parallelism)).name =
        other.name := rfl
      simp [before, kept, apart]
    · by_cases here : other.name = vertex.name
      · simp [here, waiting]
      · simp [before, here]
  · dsimp only [Function.comp]
    by_cases here : edge.destination = vertex.name
    · simp [here, waiting]
    · -- the decision names no edge into another vertex, whether that vertex has decided or not
      have unnamed : edge.id ∉ (decisionOf vertex.name).payloads.keys := fun named =>
        here (separate.entering vertex member edge stored (separate.own vertex member _ named))
      by_cases before : edge.destination ∈ done
      · rw [if_pos before, if_pos (List.mem_append_left _ before)]
        refine Edge.withPayloads_of_notMem ?_
        rwa [(edge.withPayloads_frame _).1]
      · rw [if_neg before, if_neg (by simp [before, here])]
        exact Edge.withPayloads_of_notMem unnamed
  · rw [SortedMap.ofList, SortedMap.ofList, SortedMap.insertMany, SortedMap.insertMany,
      List.foldl_append]
    rfl

/-- The decisions of distinct vertices all go through, one after the other. -/
theorem Separate.decide_all (separate : plan.Separate decisionOf) (done names : List String)
    (known : ∀ name ∈ names, name ∈ plan.vertices.map (·.name)) (distinct : (done ++ names).Nodup) :
    (names.map fun name => (name, decisionOf name)).foldlM Scheduler.applyDecision
      (plan.decided decisionOf done) = .ok (plan.decided decisionOf (done ++ names)) := by
  induction names generalizing done with
  | nil =>
      rw [List.append_nil]
      rfl
  | cons name rest ih =>
      obtain ⟨vertex, member, rfl⟩ := List.mem_map.mp (known name List.mem_cons_self)
      have waiting : vertex.name ∉ done := fun before =>
        (List.nodup_append.mp distinct).2.2 _ before _ List.mem_cons_self rfl
      have next : Scheduler.applyDecision (plan.decided decisionOf done)
          (vertex.name, decisionOf vertex.name) =
            .ok (plan.decided decisionOf (done ++ [vertex.name])) := by
        rw [Scheduler.applyDecision, separate.decide_next member waiting]
      rw [List.map_cons, List.foldlM_cons, next]
      change List.foldlM _ _ _ = _
      rw [ih _ (fun later listed => known later (List.mem_cons_of_mem _ listed))
        (by rwa [List.append_assoc]), List.append_assoc]
      rfl

def finished (plan : Plan) (decisionOf : String → Reconfiguration) : Plan :=
  { plan with
    vertices := plan.vertices.map fun vertex =>
      vertex.setParallelism (.fixed (decisionOf vertex.name).parallelism)
    edges := plan.edges.map fun edge =>
      edge.withPayloads (decisionOf edge.destination).payloads
    resolved := .ofList
      ((plan.vertices.map (·.name)).map fun name => (name, decisionOf name)) }

theorem finished_resolved (plan : Plan) (decisionOf : String → Reconfiguration) (name : String) :
    (plan.finished decisionOf).resolved.get? name =
      if name ∈ plan.vertices.map (·.name) then some (decisionOf name) else none :=
  SortedMap.get?_insertMany_map _ _ _ _

theorem finished_vertex? (plan : Plan) (decisionOf : String → Reconfiguration) (name : String) :
    (plan.finished decisionOf).vertex? name = (plan.vertex? name).map fun vertex =>
      vertex.setParallelism (.fixed (decisionOf vertex.name).parallelism) := by
  rw [vertex?, finished, List.find?_map]
  rfl

theorem Separate.finish (separate : plan.Separate decisionOf)
    (closed : ∀ edge ∈ plan.edges, edge.destination ∈ plan.vertices.map (·.name)) :
    ((plan.vertices.map (·.name)).map fun name => (name, decisionOf name)).foldlM
      Scheduler.applyDecision plan = .ok (plan.finished decisionOf) := by
  have all := separate.decide_all [] (plan.vertices.map (·.name)) (fun _ listed => listed)
    (List.nil_append _ ▸ separate.names)
  rw [separate.decided_nil, List.nil_append] at all
  rw [all, decided, finished]
  congr 2
  · exact List.map_congr_left fun vertex member => if_pos (List.mem_map_of_mem member)
  · exact List.map_congr_left fun edge stored => if_pos (closed edge stored)

end Decided

end Plan

namespace JobGraph

section Creation

variable {graph : JobGraph} {plan : Plan} (adjacent : Adjacent graph)
  (created : graph.createPlan = .ok plan)

include adjacent created

theorem createPlan_keyed : plan.Keyed := by
  obtain ⟨_, _, _, edges, _⟩ := createPlan_ok created
  exact ⟨(createPlan_names adjacent created).1, edges ▸ adjacent.ids⟩

/-- In a created plan, decisions that keep to the edges into their vertices do not meet. -/
theorem createPlan_separate {decisionOf : String → Reconfiguration}
    (own : ∀ vertex ∈ plan.vertices, ∀ id ∈ (decisionOf vertex.name).payloads.keys,
      id ∈ vertex.inputEdges) : plan.Separate decisionOf :=
  ⟨createPlan_keyed adjacent created, (createPlan_verified created).2,
    fun vertex member edge stored =>
      (createPlan_entering adjacent created vertex member edge stored).mp, own⟩

end Creation

end JobGraph

end ElasticJob
