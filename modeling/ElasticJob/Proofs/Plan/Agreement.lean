import ElasticJob.Proofs.Plan.Creation

/-!
A plan against the graph it was made of. Verification is all that can refuse a graph that requests
have built, and what a plan tells of the neighbours of a vertex, by way of its topology, is what
the vertex itself and the list of edges tell.
-/

namespace ElasticJob

namespace JobGraph

variable {graph : JobGraph} {plan : Plan}

theorem Orderable.createPlan_isOk_iff (orderable : Orderable graph) :
    (∃ plan, graph.createPlan = .ok plan) ↔ graph.verify = .ok () := by
  constructor
  · rintro ⟨_, created⟩
    exact (createPlan_verified created).1
  · intro verified
    obtain ⟨order, listed⟩ := orderable.topologicalOrder_isOk
    rw [createPlan, verified]
    exact ⟨_, by rw [listed]; rfl⟩

section Created

variable (mirrored : Mirrored graph) (created : graph.createPlan = .ok plan)

include mirrored created

theorem Mirrored.createPlan_vertices : plan.vertices.Perm graph.vertices := by
  obtain ⟨order, checked, vertices, _, _⟩ := createPlan_ok created
  obtain ⟨distinct, complete, _⟩ := topologicalOrder_ok graph mirrored order checked
  have rearranged : order.Perm graph.order :=
    (List.perm_ext_iff_of_nodup distinct mirrored.names).mpr complete
  rw [vertices, JobGraph.vertices]
  exact rearranged.filterMap _

theorem Mirrored.createPlan_vertex? (name : String) : plan.vertex? name = graph.vertex? name := by
  obtain ⟨distinct, names, stored⟩ := mirrored.createPlan_names created
  cases found : plan.vertex? name with
  | some vertex =>
      have member := List.mem_of_find?_eq_some found
      obtain rfl : vertex.name = name := by simpa using List.find?_some found
      exact (stored vertex member).symm
  | none =>
      have unknown : name ∉ graph.order := by
        rw [← names name]
        intro listed
        obtain ⟨vertex, member, same⟩ := List.mem_map.mp listed
        exact List.find?_eq_none.mp found vertex member (decide_eq_true same)
      rw [mirrored.known, Option.not_isSome_iff_eq_none] at unknown
      exact unknown.symm

/-- The topology, the lists that a vertex keeps and the list of edges name the same neighbours in
the same order. -/
theorem Mirrored.createPlan_neighbours (vertex : Vertex) (member : vertex ∈ plan.vertices) :
    (plan.destinationsOf vertex.name = vertex.outputVertices ∧
      vertex.outputVertices =
        (plan.edges.filter (·.source = vertex.name)).map (·.destination)) ∧
    plan.sourcesOf vertex.name = vertex.inputVertices ∧
      vertex.inputVertices =
        (plan.edges.filter (·.destination = vertex.name)).map (·.source) := by
  obtain ⟨_, _, _, edges, _⟩ := createPlan_ok created
  obtain ⟨_, _, stored⟩ := mirrored.createPlan_names created
  obtain ⟨known, told⟩ := mirrored.vertex vertex.name vertex (stored vertex member)
  simp only [Vertex.links, ledger, Prod.mk.injEq, true_and] at told
  obtain ⟨⟨outputs, _⟩, inputs, _⟩ := told
  rw [mirrored.createPlan_destinations created _ known, mirrored.createPlan_sources created _ known,
    outputs, inputs, edges]
  exact ⟨⟨rfl, rfl⟩, rfl, rfl⟩

end Created

/-- A graph that requests have built becomes a plan exactly where it passes verification. Such a
plan holds the vertices of the graph, unchanged and each once. The neighbours of a vertex in its
topology are those that the vertex and the list of edges name, in their order, and a name without a
vertex has none. -/
theorem created_plan_agrees (name : String) (policy : NamespacePolicy)
    (requests : List Request) :
    let graph := (create name policy).handleAll requests
    ((∃ plan, graph.createPlan = .ok plan) ↔ graph.verify = .ok ()) ∧
    ∀ plan, graph.createPlan = .ok plan →
      (plan.vertices.Perm graph.vertices ∧ (plan.vertices.map (·.name)).Nodup ∧
        ∀ name, plan.vertex? name = graph.vertex? name) ∧
      (∀ vertex ∈ plan.vertices,
        (plan.destinationsOf vertex.name = vertex.outputVertices ∧
          vertex.outputVertices =
            (plan.edges.filter (·.source = vertex.name)).map (·.destination)) ∧
        plan.sourcesOf vertex.name = vertex.inputVertices ∧
          vertex.inputVertices =
            (plan.edges.filter (·.destination = vertex.name)).map (·.source)) ∧
      ∀ stranger, plan.vertex? stranger = none →
        plan.destinationsOf stranger = [] ∧ plan.sourcesOf stranger = [] := by
  intro graph
  have orderable : Orderable graph := handleAll_orderable name policy requests
  have mirrored := orderable.mirrored
  refine ⟨orderable.createPlan_isOk_iff, fun plan created => ?_⟩
  have found := mirrored.createPlan_vertex? created
  refine ⟨⟨mirrored.createPlan_vertices created, (mirrored.createPlan_names created).1, found⟩,
    mirrored.createPlan_neighbours created, fun stranger absent => ?_⟩
  apply mirrored.createPlan_strangers created stranger
  rw [mirrored.known, ← found, absent]
  exact Bool.false_ne_true

end JobGraph

end ElasticJob
