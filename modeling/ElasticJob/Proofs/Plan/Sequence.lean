import ElasticJob.Proofs.Plan.Creation

/-!
The order in which a graph, and then its plan, lists the vertices. There always is one, since no
request closes a cycle; and where the search of the network ranks one node before another, the names
of the two stand in the list in that order.
-/

namespace ElasticJob

theorem pair_sublist_of_idxOf_lt {α : Type} [DecidableEq α] {first second : α} {items : List α}
    (before : items.idxOf first < items.idxOf second) (listed : second ∈ items) :
    [first, second].Sublist items := by
  induction items with
  | nil => cases listed
  | cons head rest ih =>
      have later : head ≠ second := by
        rintro rfl
        simp at before
      have remains := (List.mem_cons.mp listed).resolve_left later.symm
      by_cases here : head = first
      · subst here
        exact (List.singleton_sublist.mpr remains).cons_cons head
      · rw [List.idxOf_cons_ne _ here, List.idxOf_cons_ne _ later] at before
        exact (ih (Nat.lt_of_succ_lt_succ before) remains).cons head

structure Follows (names : List String) (edges : List Edge) : Prop where
  once : names.Nodup
  forward : ∀ edge ∈ edges, [edge.source, edge.destination].Sublist names

namespace JobGraph

theorem topologicalOrder_eq {graph : JobGraph} {order : List String}
    (checked : graph.topologicalOrder = .ok order) :
    order = graph.network.depthOrder.filterMap (graph.network.nodes[·]?) := by
  unfold topologicalOrder at checked
  dsimp only at checked
  split at checked <;> cases checked
  rfl

/-- The nodes of the ends are listed one after the other, and the names are those of the nodes. -/
theorem Mirrored.topologicalOrder_follows {graph : JobGraph} (mirrored : Mirrored graph)
    {order : List String} (checked : graph.topologicalOrder = .ok order) :
    Follows order graph.edges := by
  obtain ⟨once, _, ranked⟩ := topologicalOrder_ok graph mirrored order checked
  refine ⟨once, fun edge listed => ?_⟩
  have named : ∀ name ∈ graph.order, graph.network.nodes[graph.position name]? = some name := by
    intro name known
    rw [mirrored.nodes]
    exact List.getElem?_idxOf known
  obtain ⟨source, destination⟩ := mirrored.ends edge listed
  have reached : graph.position edge.destination ∈ graph.network.depthOrder := by
    apply graph.network.depthOrder_complete
    exact (List.getElem?_eq_some_iff.mp (named _ destination)).1
  have nodes := pair_sublist_of_idxOf_lt (ranked edge listed) reached
  have names := nodes.filterMap (graph.network.nodes[·]?)
  rwa [← topologicalOrder_eq checked, List.filterMap_cons_some (named _ source),
    List.filterMap_cons_some (named _ destination), List.filterMap_nil] at names

/-- Whatever requests a graph has handled, its vertices have an order that all recorded edges
follow, and every plan that is made of it lists the vertices in this order. -/
theorem vertices_are_listed_along_edges (name : String) (policy : NamespacePolicy)
    (requests : List Request) :
    let graph := (create name policy).handleAll requests
    (∃ order, graph.topologicalOrder = .ok order ∧
      (∀ vertex, vertex ∈ order ↔ (graph.vertex? vertex).isSome) ∧ Follows order graph.edges) ∧
    ∀ plan, graph.createPlan = .ok plan →
      graph.topologicalOrder = .ok (plan.vertices.map (·.name)) ∧ plan.edges = graph.edges ∧
        Follows (plan.vertices.map (·.name)) plan.edges := by
  intro graph
  have orderable : Orderable graph := handleAll_orderable name policy requests
  have mirrored := orderable.mirrored
  constructor
  · obtain ⟨order, checked⟩ := orderable.topologicalOrder_isOk
    obtain ⟨_, complete, _⟩ := topologicalOrder_ok graph mirrored order checked
    exact ⟨order, checked, fun vertex => (complete vertex).trans (mirrored.known vertex),
      mirrored.topologicalOrder_follows checked⟩
  · intro plan created
    obtain ⟨_, _, _, edges, _⟩ := createPlan_ok created
    have ordered := mirrored.createPlan_order created
    exact ⟨ordered, edges, edges ▸ mirrored.topologicalOrder_follows ordered⟩

/-- A diamond with a vertex that stands alone. The vertices come in against the edges. -/
theorem diamond_is_listed_along_edges :
    let stage := fun (name : String) =>
      ({ name := name, processor := ⟨"Step", none⟩, parallelism := .fixed 1
         resource := ⟨64, 1⟩ } : Vertex)
    let property : EdgeProperty :=
      ⟨.scatterGather, .persisted, .sequential, ⟨"Out", none⟩, ⟨"In", none⟩, none⟩
    let graph := (create "diamond" .shared).handleAll
      [.call (.addVertex (stage "join")), .call (.addVertex (stage "left")),
        .call (.addVertex (stage "alone")), .call (.addVertex (stage "right")),
        .call (.addVertex (stage "fork")), .call (.addEdge "fork" "left" property),
        .call (.addEdge "fork" "right" property), .call (.addEdge "left" "join" property),
        .call (.addEdge "right" "join" property)]
    ∃ plan, graph.createPlan = .ok plan ∧
      plan.vertices.map (·.name) = ["fork", "right", "alone", "left", "join"] ∧
      Follows ["fork", "right", "alone", "left", "join"] graph.edges := by
  intro stage property graph
  obtain ⟨plan, created, names⟩ : ∃ plan ∈ graph.createPlan.toOption,
      plan.vertices.map (·.name) = ["fork", "right", "alone", "left", "join"] := by
    decide +kernel
  have created := toOption_eq_some_iff.mp created
  obtain ⟨_, listed⟩ := vertices_are_listed_along_edges "diamond" .shared
    [.call (.addVertex (stage "join")), .call (.addVertex (stage "left")),
      .call (.addVertex (stage "alone")), .call (.addVertex (stage "right")),
      .call (.addVertex (stage "fork")), .call (.addEdge "fork" "left" property),
      .call (.addEdge "fork" "right" property), .call (.addEdge "left" "join" property),
      .call (.addEdge "right" "join" property)]
  obtain ⟨_, edges, follows⟩ := listed plan created
  rw [names, edges] at follows
  exact ⟨plan, created, names, follows⟩

end JobGraph

end ElasticJob
