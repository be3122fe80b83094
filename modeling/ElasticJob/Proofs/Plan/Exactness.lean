import ElasticJob.Proofs.Plan.HintCover

/-!
One decision and all of a plan. A plan refuses a decision for a vertex that has one, for a name that
is no vertex, and where a payload is for an edge that neither leaves nor enters the vertex; then it
stays as it is. Otherwise the number of tasks of that vertex, its entry among the decisions and the
payloads of the listed edges are all that changes. The lists kept at a vertex, which decide what is
refused, name the same edges as the list of the plan, which is the one that is written to.
-/

namespace ElasticJob

namespace Edge

def ends (edge : Edge) : EdgeId × String × String :=
  (edge.id, edge.source, edge.destination)

def blank (ids : List EdgeId) (edge : Edge) : Edge :=
  if edge.id ∈ ids then edge.withOutputPayload [] else edge

end Edge

namespace Plan

section Updates

variable {α β : Type} {fits : α → Bool} {change : α → α}

theorem map_updateFirst {view : α → β}
    (keeps : ∀ item, fits item = true → view (change item) = view item) (items : List α) :
    (updateFirst fits change items).map view = items.map view := by
  induction items with
  | nil => rfl
  | cons first rest ih =>
      rw [updateFirst]
      split
      next fit => rw [List.map_cons, List.map_cons, keeps first fit]
      next => rw [List.map_cons, List.map_cons, ih]

theorem find?_updateFirst_other {wanted : α → Bool}
    (keeps : ∀ item, wanted (change item) = wanted item)
    (apart : ∀ item, fits item = true → wanted item = false) (items : List α) :
    (updateFirst fits change items).find? wanted = items.find? wanted := by
  induction items with
  | nil => rfl
  | cons first rest ih =>
      rw [updateFirst]
      split
      next fit => rw [List.find?_cons, List.find?_cons, keeps, apart first fit]
      next => rw [List.find?_cons, List.find?_cons, ih]

end Updates

section Payloads

/-- What no payload for these ids is part of stays as it is. -/
theorem foldl_putPayload_map {β : Type} (view : Edge → β) (entries : List (EdgeId × Bytes))
    (edges : List Edge)
    (keeps : ∀ entry ∈ entries, ∀ edge : Edge, edge.id = entry.1 →
      view (edge.withOutputPayload entry.2) = view edge) :
    (entries.foldl putPayload edges).map view = edges.map view := by
  induction entries generalizing edges with
  | nil => rfl
  | cons entry rest ih =>
      obtain ⟨first, others⟩ := List.forall_mem_cons.mp keeps
      rw [List.foldl_cons, ih _ others]
      exact map_updateFirst (fun edge fit => first edge (of_decide_eq_true fit)) edges

theorem putPayload_find? (edges : List Edge) (entry : EdgeId × Bytes) (id : EdgeId) :
    (putPayload edges entry).find? (·.id = id) =
      (edges.find? (·.id = id)).map fun edge =>
        if id = entry.1 then edge.withOutputPayload entry.2 else edge := by
  have kept : ∀ edge : Edge, decide ((edge.withOutputPayload entry.2).id = id) =
      decide (edge.id = id) := fun _ => rfl
  by_cases here : id = entry.1
  · subst here
    simp only [if_true]
    exact find?_updateFirst kept edges
  · simp only [if_neg here, Option.map_id']
    refine find?_updateFirst_other kept (fun edge fit => ?_) edges
    exact decide_eq_false fun same => here (same.symm.trans (of_decide_eq_true fit))

theorem foldl_putPayload_find? (entries : List (EdgeId × Bytes)) (edges : List Edge)
    (distinct : (entries.map Prod.fst).Nodup) (id : EdgeId) :
    (entries.foldl putPayload edges).find? (·.id = id) =
      (edges.find? (·.id = id)).map fun edge =>
        match SortedMap.lookup id entries with
        | some payload => edge.withOutputPayload payload
        | none => edge := by
  induction entries generalizing edges with
  | nil => simp [SortedMap.lookup]
  | cons entry rest ih =>
      obtain ⟨alone, others⟩ := List.nodup_cons.mp distinct
      rw [List.foldl_cons, ih _ others, putPayload_find?, Option.map_map]
      congr 1
      funext edge
      by_cases here : id = entry.1
      · subst here
        simp [SortedMap.lookup, SortedMap.lookup_eq_none_iff.mpr alone]
      · have apart : compare id entry.1 ≠ .eq := fun same => here (SortedMap.compare_eq_iff.mp same)
        simp [SortedMap.lookup, here, apart]

end Payloads

structure Mirrored (plan : Plan) : Prop where
  names : (plan.vertices.map (·.name)).Nodup
  leaving : ∀ vertex ∈ plan.vertices, vertex.outputEdges =
    (plan.edges.filter (·.source = vertex.name)).map (·.id)
  entering : ∀ vertex ∈ plan.vertices, vertex.inputEdges =
    (plan.edges.filter (·.destination = vertex.name)).map (·.id)

def Touches (plan : Plan) (name : String) (id : EdgeId) : Prop :=
  ∃ edge ∈ plan.edges, edge.id = id ∧ (edge.source = name ∨ edge.destination = name)

section Mirrored

variable {plan : Plan} (mirrored : plan.Mirrored)

theorem filter_map_ends (edges : List Edge) (name : String) :
    (edges.filter (·.source = name)).map (·.id) =
        ((edges.map Edge.ends).filter (·.2.1 = name)).map (·.1) ∧
      (edges.filter (·.destination = name)).map (·.id) =
        ((edges.map Edge.ends).filter (·.2.2 = name)).map (·.1) := by
  rw [List.filter_map, List.filter_map, List.map_map, List.map_map]
  exact ⟨rfl, rfl⟩

include mirrored

theorem Mirrored.touches_iff {vertex : Vertex} (member : vertex ∈ plan.vertices) (id : EdgeId) :
    plan.Touches vertex.name id ↔ id ∈ vertex.inputEdges ∨ id ∈ vertex.outputEdges := by
  rw [mirrored.leaving vertex member, mirrored.entering vertex member]
  simp only [Touches, List.mem_map, List.mem_filter, decide_eq_true_eq]
  constructor
  · rintro ⟨edge, listed, same, leaves | enters⟩
    · exact .inr ⟨edge, ⟨listed, leaves⟩, same⟩
    · exact .inl ⟨edge, ⟨listed, enters⟩, same⟩
  · rintro (⟨edge, ⟨listed, enters⟩, same⟩ | ⟨edge, ⟨listed, leaves⟩, same⟩)
    · exact ⟨edge, listed, same, .inr enters⟩
    · exact ⟨edge, listed, same, .inl leaves⟩

/-- A decision moves no edge, so the lists at the vertices stay right. -/
theorem Mirrored.resolve (name : String) (decision : Reconfiguration) :
    (plan.resolve name decision).Mirrored := by
  have ends : (plan.resolve name decision).edges.map Edge.ends = plan.edges.map Edge.ends :=
    foldl_putPayload_map Edge.ends _ _ fun _ _ _ _ => rfl
  have recorded : ∀ vertex ∈ (plan.resolve name decision).vertices, ∃ old ∈ plan.vertices,
      old.name = vertex.name ∧ old.outputEdges = vertex.outputEdges ∧
        old.inputEdges = vertex.inputEdges := by
    intro vertex member
    rcases mem_updateFirst member with kept | ⟨old, listed, rfl⟩
    · exact ⟨vertex, kept, rfl, rfl, rfl⟩
    · exact ⟨old, listed, rfl, rfl, rfl⟩
  constructor
  · have kept : ∀ vertex : Vertex, decide (vertex.name = name) = true →
        (vertex.setParallelism (.fixed decision.parallelism)).name = vertex.name := fun _ _ => rfl
    have names : (plan.resolve name decision).vertices.map (·.name) =
        plan.vertices.map (·.name) := map_updateFirst kept plan.vertices
    rw [names]
    exact mirrored.names
  · intro vertex member
    obtain ⟨old, listed, name, outputs, _⟩ := recorded vertex member
    rw [← outputs, mirrored.leaving old listed, ← name, (filter_map_ends _ _).1,
      (filter_map_ends _ _).1, ends]
  · intro vertex member
    obtain ⟨old, listed, name, _, inputs⟩ := recorded vertex member
    rw [← inputs, mirrored.entering old listed, ← name, (filter_map_ends _ _).2,
      (filter_map_ends _ _).2, ends]

theorem Mirrored.after (entry : String × Reconfiguration) : (plan.after entry).Mirrored := by
  rw [after_eq]
  split
  · exact mirrored.resolve entry.1 entry.2
  · exact mirrored

theorem Mirrored.applyEach (entries : List (String × Reconfiguration)) :
    (plan.applyEach entries).1.Mirrored := by
  induction entries generalizing plan with
  | nil => exact mirrored
  | cons entry rest ih => exact ih (mirrored.after entry)

end Mirrored

/-- How a decision is answered, with the first of the causes to refuse it that apply. -/
structure Judged (plan : Plan) (name : String) (decision : Reconfiguration)
    (answer : Except JobError Unit) : Prop where
  accepted : answer = .ok () ↔ plan.resolved.get? name = none ∧
    name ∈ plan.vertices.map (·.name) ∧ ∀ id ∈ decision.payloads.keys, plan.Touches name id
  decided : plan.resolved.get? name ≠ none →
    answer = .error (.invalidState s!"vertex `{name}` already reconfigured")
  unknown : plan.resolved.get? name = none → name ∉ plan.vertices.map (·.name) →
    answer = .error (.vertexNotFound name)
  foreign : plan.resolved.get? name = none → name ∈ plan.vertices.map (·.name) →
    ∀ before id rest, decision.payloads.keys = before ++ id :: rest →
      (∀ own ∈ before, plan.Touches name own) → ¬ plan.Touches name id →
        answer = .error (.invalidArgument s!"edge `{id.text}` is not connected to vertex `{name}`")

structure Changed (before : Plan) (name : String) (decision : Reconfiguration) (after : Plan) :
    Prop where
  frame : after.name = before.name ∧ after.groups = before.groups ∧
    after.topology = before.topology
  resolved : ∀ other, after.resolved.get? other =
    if other = name then some decision else before.resolved.get? other
  vertices : after.vertices = before.vertices.map fun vertex =>
    if vertex.name = name then
      { vertex with
        parallelism := .fixed decision.parallelism
        hints := vertex.hints.filter fun hints => hints.length = decision.parallelism.toNat }
    else vertex
  /-- Payloads of the listed ids apart, the list of edges is the same. Of edges that share an id,
  which only edges read from outside can, the first one has the new payload. -/
  edges : after.edges.map (·.blank decision.payloads.keys) =
    before.edges.map (·.blank decision.payloads.keys)
  lookups : ∀ id, after.edge? id = (before.edge? id).map (·.withPayloads decision.payloads)
  carried : ∀ id payload, decision.payloads.get? id = some payload →
    ∃ edge, after.edge? id = some edge ∧ edge.property.output.payload = some payload
  distinct : (before.edges.map (·.id)).Nodup →
    after.edges = before.edges.map (·.withPayloads decision.payloads)

section Judging

variable {plan : Plan} (mirrored : plan.Mirrored) {name : String} {decision : Reconfiguration}

theorem foreignEdge?_eq_none_iff {vertex : Vertex} :
    foreignEdge? vertex decision = none ↔
      ∀ id ∈ decision.payloads.keys, id ∈ vertex.inputEdges ∨ id ∈ vertex.outputEdges := by
  simp [foreignEdge?, or_iff_not_imp_left]

theorem foreignEdge?_eq_some {vertex : Vertex} {before rest : List EdgeId} {id : EdgeId}
    (keys : decision.payloads.keys = before ++ id :: rest)
    (own : ∀ other ∈ before, other ∈ vertex.inputEdges ∨ other ∈ vertex.outputEdges)
    (strange : ¬ (id ∈ vertex.inputEdges ∨ id ∈ vertex.outputEdges)) :
    foreignEdge? vertex decision = some id := by
  rw [foreignEdge?, List.find?_eq_some_iff_append]
  exact ⟨by simpa using strange, before, rest, keys, fun other listed => by
    simpa using own other listed⟩

theorem vertex?_eq_none_iff : plan.vertex? name = none ↔ name ∉ plan.vertices.map (·.name) := by
  simp [vertex?]

include mirrored

theorem Mirrored.judged : plan.Judged name decision (plan.applyReconfiguration name decision).2 := by
  have answer := plan.verdict_eq (name, decision)
  change (plan.applyReconfiguration name decision).2 = _ at answer
  rw [answer, SortedMap.contains]
  cases held : plan.resolved.get? name with
  | some other =>
      refine ⟨?_, ?_, ?_, ?_⟩ <;> simp [held]
  | none =>
      cases found : plan.vertex? name with
      | none =>
          have absent := vertex?_eq_none_iff.mp found
          refine ⟨?_, ?_, ?_, ?_⟩ <;> simp [held, absent]
      | some vertex =>
          have member : vertex ∈ plan.vertices := List.mem_of_find?_eq_some found
          obtain rfl : vertex.name = name := by simpa using List.find?_some found
          have known : vertex.name ∈ plan.vertices.map (·.name) := List.mem_map_of_mem member
          have touches := mirrored.touches_iff member
          refine ⟨?_, fun decided => absurd held decided, fun _ absent => absurd known absent, ?_⟩
          · simp only [held, known, true_and, touches, ← foreignEdge?_eq_none_iff]
            cases foreignEdge? vertex decision <;> simp
          · intro _ _ before id rest keys own strange
            simp only [touches] at own strange
            simp [foreignEdge?_eq_some keys own strange]

omit mirrored

theorem resolve_edge? (id : EdgeId) :
    (plan.resolve name decision).edge? id =
      (plan.edge? id).map (·.withPayloads decision.payloads) := by
  have found := foldl_putPayload_find? decision.payloads.entries plan.edges
    decision.payloads.keys_nodup id
  refine found.trans ?_
  rw [edge?]
  cases looked : plan.edges.find? (·.id = id) with
  | none => rfl
  | some edge =>
      obtain rfl : edge.id = id := by simpa using List.find?_some looked
      rfl

theorem resolve_blank :
    (plan.resolve name decision).edges.map (·.blank decision.payloads.keys) =
      plan.edges.map (·.blank decision.payloads.keys) := by
  refine foldl_putPayload_map _ _ _ fun entry listed edge same => ?_
  have named : edge.id ∈ decision.payloads.keys := same ▸ List.mem_map_of_mem listed
  have kept : (edge.withOutputPayload entry.2).id = edge.id := rfl
  rw [Edge.blank, Edge.blank, kept, if_pos named, if_pos named]
  rfl

theorem resolve_carries {id : EdgeId} {payload : Bytes} (touches : plan.Touches name id)
    (given : decision.payloads.get? id = some payload) :
    ∃ edge, (plan.resolve name decision).edge? id = some edge ∧
      edge.property.output.payload = some payload := by
  obtain ⟨edge, listed, rfl, _⟩ := touches
  obtain ⟨found, looked⟩ : ∃ found, plan.edge? edge.id = some found :=
    Option.isSome_iff_exists.mp (List.find?_isSome.mpr ⟨edge, listed, by simp⟩)
  have same : found.id = edge.id := by simpa using List.find?_some looked
  refine ⟨found.withPayloads decision.payloads, by rw [resolve_edge?, looked]; rfl, ?_⟩
  rw [Edge.withPayloads, same, given]
  rfl

include mirrored

theorem Mirrored.resolve_vertices :
    (plan.resolve name decision).vertices = plan.vertices.map fun vertex =>
      if vertex.name = name then
        { vertex with
          parallelism := .fixed decision.parallelism
          hints := vertex.hints.filter fun hints => hints.length = decision.parallelism.toNat }
      else vertex := by
  refine (updateFirst_eq_map Vertex.name name _ _ mirrored.names).trans ?_
  refine List.map_congr_left fun vertex _ => ?_
  split
  · rw [← Vertex.setParallelism_hints]
    rfl
  · rfl

theorem Mirrored.changed (accepted : (plan.applyReconfiguration name decision).2 = .ok ()) :
    plan.Changed name decision (plan.applyReconfiguration name decision).1 := by
  have resolved : (plan.applyReconfiguration name decision).1 = plan.resolve name decision :=
    (plan.after_eq (name, decision)).trans (if_pos accepted)
  obtain ⟨_, _, own⟩ := mirrored.judged.accepted.mp accepted
  rw [resolved]
  exact {
    frame := ⟨rfl, rfl, rfl⟩
    resolved := fun other => by
      refine (SortedMap.get?_insert plan.resolved name decision other).trans ?_
      simp only [SortedMap.compare_eq_iff]
    vertices := mirrored.resolve_vertices
    edges := resolve_blank
    lookups := resolve_edge?
    carried := fun id payload given =>
      resolve_carries (own id (SortedMap.contains_iff.mp (Option.isSome_of_eq_some given))) given
    distinct := fun unique =>
      congrArg Plan.edges (Keyed.resolve_eq ⟨mirrored.names, unique⟩ name decision) }

end Judging

end Plan

namespace JobGraph

theorem Mirrored.createPlan_mirrored {graph : JobGraph} (mirrored : Mirrored graph) {plan : Plan}
    (created : graph.createPlan = .ok plan) : plan.Mirrored := by
  obtain ⟨names, _, looked⟩ := mirrored.createPlan_names created
  obtain ⟨_, _, _, edges, _⟩ := createPlan_ok created
  have told : ∀ vertex ∈ plan.vertices, vertex.links = graph.ledger vertex.name :=
    fun vertex member => (mirrored.vertex vertex.name vertex (looked vertex member)).2
  simp only [Vertex.links, ledger, edgesFrom, edgesInto, ← edges, Prod.mk.injEq] at told
  exact ⟨names, fun vertex member => (told vertex member).2.1.2,
    fun vertex member => (told vertex member).2.2.2⟩

theorem handleAll_calls (graph : JobGraph) (mutations : List Mutation) :
    graph.handleAll (mutations.map .call) = graph.assemble mutations :=
  List.foldl_map

end JobGraph

namespace Plan

theorem Keyed.applyEach {plan : Plan} (keyed : plan.Keyed)
    (entries : List (String × Reconfiguration)) : (plan.applyEach entries).1.Keyed := by
  induction entries generalizing plan with
  | nil => exact keyed
  | cons entry rest ih => exact ih (keyed.after entry)

/-- Whatever was decided about a created plan, one more decision is answered by what the plan holds,
leaves the plan alone where it is refused, and otherwise changes what it is about. Ids of edges that
are made from their ends are distinct, so then each listed edge is rewritten and no other. -/
theorem decision_is_exact_and_atomic (name : String) (policy : NamespacePolicy)
    (requests : List Request) (plan : Plan) (earlier : List (String × Reconfiguration))
    (created : ((JobGraph.create name policy).handleAll requests).createPlan = .ok plan)
    (vertex : String) (decision : Reconfiguration) :
    let current := (plan.applyEach earlier).1
    let applied := current.applyReconfiguration vertex decision
    current.Judged vertex decision applied.2 ∧
      (applied.2 ≠ .ok () → applied.1 = current) ∧
      (applied.2 = .ok () → current.Changed vertex decision applied.1) ∧
      ∀ mutations : List Mutation, requests = mutations.map .call →
        (current.edges.map (·.id)).Nodup := by
  intro current applied
  have fresh := (JobGraph.handleAll_orderable name policy requests).mirrored
  have mirrored := (fresh.createPlan_mirrored created).applyEach earlier
  refine ⟨mirrored.judged, fun refused => ?_, mirrored.changed, fun mutations calls => ?_⟩
  · exact (after_eq current (vertex, decision)).trans (if_neg refused)
  · rw [calls, JobGraph.handleAll_calls] at created
    have adjacent := JobGraph.assemble_adjacent _ mutations (JobGraph.create_adjacent name policy)
    exact ((JobGraph.createPlan_keyed adjacent created).applyEach earlier).ids

def twoPayloads : Reconfiguration :=
  { parallelism := 2
    payloads := .ofList [(⟨"left", "join"⟩, [1]), (⟨"right", "join"⟩, [2])] }

/-- The stage that both edges enter is rewritten and loses its four hints; the stage that one of
them leaves is refused for the other one. -/
theorem joined_stage_is_rewritten :
    ∃ plan, ((JobGraph.create "merge" .shared).handleAll
        (Scheduler.mergeJob.map .call)).createPlan = .ok plan ∧
      ∃ current after, current = (plan.applyEach [("right", { parallelism := 1 })]).1 ∧
        current.applyReconfiguration "join" twoPayloads = (after, .ok ()) ∧
        current.Changed "join" twoPayloads after ∧
        after.edges = current.edges.map (·.withPayloads twoPayloads.payloads) ∧
        (after.vertex? "join").map (fun vertex => (vertex.parallelism, vertex.hints)) =
          some (.fixed 2, none) ∧
        current.applyReconfiguration "left" twoPayloads =
          (current, .error (.invalidArgument
            "edge `right->join` is not connected to vertex `left`")) := by
  obtain ⟨plan, made, accepted, hinted, refused⟩ :
      ∃ plan ∈ ((JobGraph.create "merge" .shared).handleAll
          (Scheduler.mergeJob.map .call)).createPlan.toOption,
        ((plan.applyEach [("right", { parallelism := 1 })]).1.applyReconfiguration "join"
          twoPayloads).2 = .ok () ∧
        ((((plan.applyEach [("right", { parallelism := 1 })]).1.applyReconfiguration "join"
          twoPayloads).1.vertex? "join").map fun vertex => (vertex.parallelism, vertex.hints)) =
            some (.fixed 2, none) ∧
        ((plan.applyEach [("right", { parallelism := 1 })]).1.applyReconfiguration "left"
          twoPayloads).2 = .error (.invalidArgument
            "edge `right->join` is not connected to vertex `left`") := by
    decide +kernel
  have created := toOption_eq_some_iff.mp made
  obtain ⟨_, _, changes, distinct⟩ := decision_is_exact_and_atomic "merge" .shared _ plan
    [("right", { parallelism := 1 })] created "join" twoPayloads
  obtain ⟨_, kept, _⟩ := decision_is_exact_and_atomic "merge" .shared _ plan
    [("right", { parallelism := 1 })] created "left" twoPayloads
  have changed := changes accepted
  exact ⟨plan, created, _, _, rfl, Prod.ext rfl accepted, changed,
    changed.distinct (distinct Scheduler.mergeJob rfl), hinted,
    Prod.ext (kept (by rw [refused]; simp)) refused⟩

end Plan

end ElasticJob
