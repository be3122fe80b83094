import ElasticJob.Proofs.Graph.Mirror

/-!
The agreement of everything that a graph records about its vertices and edges. To what any graph
says about the ends of its edges, a graph whose edges are all made from their ends adds that an
edge is known by its two ends. It holds in the empty graph, every call keeps it whether it is
refused or not, and so it holds in every graph that can be assembled.
-/

namespace ElasticJob

namespace JobGraph

structure Adjacent (graph : JobGraph) : Prop where
  names : graph.order.Nodup
  known : ∀ name, name ∈ graph.order ↔ (graph.vertex? name).isSome
  /-- Every vertex is stored under its own name. -/
  named : ∀ name vertex, graph.vertex? name = some vertex → vertex.name = name
  /-- The index of a name is its place in the order. -/
  indices : ∀ name index, graph.vertexIndex? name = some index ↔ graph.order[index]? = some name
  ids : (graph.edges.map (·.id)).Nodup
  /-- An edge is known by its two ends, and both are vertices of the graph. -/
  ends : ∀ edge ∈ graph.edges, edge.id = ⟨edge.source, edge.destination⟩ ∧
    edge.source ∈ graph.order ∧ edge.destination ∈ graph.order
  outgoing : ∀ name vertex, graph.vertex? name = some vertex →
    vertex.outputVertices = (graph.edgesFrom name).map (·.destination) ∧
    vertex.outputEdges = (graph.edgesFrom name).map (·.id)
  incoming : ∀ name vertex, graph.vertex? name = some vertex →
    vertex.inputVertices = (graph.edgesInto name).map (·.source) ∧
    vertex.inputEdges = (graph.edgesInto name).map (·.id)
  /-- One node for every vertex, in the same order. -/
  nodes : graph.network.nodes = graph.order
  /-- One arc for every edge, in the same order. -/
  arcs : graph.network.arcs = graph.edges.map graph.arcOf

theorem adjacent_iff {graph : JobGraph} :
    Adjacent graph ↔ Mirrored graph ∧ (graph.edges.map (·.id)).Nodup ∧
      ∀ edge ∈ graph.edges, edge.id = ⟨edge.source, edge.destination⟩ := by
  constructor
  · intro adjacent
    refine ⟨⟨adjacent.names, adjacent.indices, fun edge listed => (adjacent.ends edge listed).2,
      fun name => ?_, adjacent.nodes, adjacent.arcs⟩, adjacent.ids,
      fun edge listed => (adjacent.ends edge listed).1⟩
    cases found : graph.vertex? name with
    | none =>
        have unlisted : name ∉ graph.order := by
          rw [adjacent.known, found]
          exact Bool.false_ne_true
        rw [if_neg unlisted]
        rfl
    | some vertex =>
        have listed := (adjacent.known name).mpr (found ▸ rfl)
        obtain ⟨outputs, out⟩ := adjacent.outgoing name vertex found
        obtain ⟨inputs, into⟩ := adjacent.incoming name vertex found
        rw [if_pos listed, Option.map_some, Vertex.links, ledger, outputs, out, inputs, into,
          adjacent.named name vertex found]
  · rintro ⟨mirrored, ids, ends⟩
    have told : ∀ name vertex, graph.vertex? name = some vertex →
        vertex.links = graph.ledger name :=
      fun name vertex found => (mirrored.vertex name vertex found).2
    simp only [Vertex.links, ledger, Prod.mk.injEq] at told
    exact ⟨mirrored.names, mirrored.known, mirrored.named, mirrored.indices, ids,
      fun edge listed => ⟨ends edge listed, mirrored.ends edge listed⟩,
      fun name vertex found => (told name vertex found).2.1,
      fun name vertex found => (told name vertex found).2.2, mirrored.nodes, mirrored.arcs⟩

theorem Adjacent.mirrored {graph : JobGraph} (adjacent : Adjacent graph) : Mirrored graph :=
  (adjacent_iff.mp adjacent).1

theorem Adjacent.looked_up {graph : JobGraph} (adjacent : Adjacent graph) (names : List String)
    (known : ∀ name ∈ names, name ∈ graph.order) :
    (names.filterMap graph.vertex?).map (·.name) = names :=
  adjacent.mirrored.looked_up names known

theorem Adjacent.of_edges {before after : JobGraph} (adjacent : Adjacent before)
    (mirrored : Mirrored after) (edges : after.edges = before.edges) : Adjacent after := by
  obtain ⟨_, ids, ends⟩ := adjacent_iff.mp adjacent
  exact adjacent_iff.mpr ⟨mirrored, edges ▸ ids, edges ▸ ends⟩

theorem SameLinks.adjacent {before after : JobGraph} (same : SameLinks before after)
    (adjacent : Adjacent before) : Adjacent after :=
  adjacent.of_edges (same.mirrored adjacent.mirrored) same.edges

theorem create_adjacent (name : String) (policy : NamespacePolicy) :
    Adjacent (create name policy) :=
  adjacent_iff.mpr ⟨create_mirrored name policy, List.nodup_nil, by simp [create]⟩

theorem addVertex_edges (graph : JobGraph) (vertex : Vertex) :
    (graph.addVertex vertex).1.edges = graph.edges := by
  rcases addVertex_cases graph vertex with ⟨_, refused⟩ | ⟨_, _, _, added⟩
  · rw [refused, refuse]
  · rw [added, done]

theorem addVertex_adjacent (graph : JobGraph) (vertex : Vertex) (adjacent : Adjacent graph) :
    Adjacent (graph.addVertex vertex).1 :=
  adjacent.of_edges (addVertex_mirrored graph vertex adjacent.mirrored)
    (addVertex_edges graph vertex)

theorem addEdge_adjacent (graph : JobGraph) (source destination : String)
    (property : EdgeProperty) (adjacent : Adjacent graph) :
    Adjacent (graph.addEdge (.between source destination property)).1 := by
  obtain ⟨mirrored, ids, ends⟩ := adjacent_iff.mp adjacent
  have added := addEdge_mirrored graph (.between source destination property) mirrored
  refine adjacent_iff.mpr ⟨added, ?_⟩
  rcases addEdge_cases graph (.between source destination property) with
    ⟨_, _, refused⟩ | ⟨start, goal, checked, recorded⟩
  · rw [refused]
    exact ⟨ids, ends⟩
  · have fresh : graph.edge? ⟨source, destination⟩ = none :=
      (checkEdge_ok _ _ _ _ _ _ checked).2.2.2.1
    have unknown : ∀ other ∈ graph.edges, other.id ≠ ⟨source, destination⟩ := by
      simpa [edge?] using fresh
    rw [recorded, done, (record_frame graph _ start goal).2.2.1]
    constructor
    · rw [List.map_append, List.nodup_append_comm]
      exact List.nodup_cons.mpr ⟨by simpa [Edge.between] using unknown, ids⟩
    · intro other member
      rcases List.mem_append.mp member with old | new
      · exact ends other old
      · rw [List.mem_singleton.mp new]
        rfl

theorem Adjacent.regroup {graph : JobGraph} (adjacent : Adjacent graph) (groups : List Group)
    (groupEdges : List GroupEdge) :
    Adjacent { graph with groups := groups, groupEdges := groupEdges } := by
  cases adjacent
  constructor <;> assumption

theorem addGroupEdge_adjacent (graph : JobGraph) (edge : GroupEdge) (adjacent : Adjacent graph) :
    Adjacent (graph.addGroupEdge edge).1 :=
  addGroupEdge_keeps Adjacent edge (fun graph member => addEdge_adjacent graph member _ _)
    (fun _ groups groupEdges kept => kept.regroup groups groupEdges) graph adjacent

theorem mutate_adjacent (graph : JobGraph) (mutation : Mutation) (adjacent : Adjacent graph) :
    Adjacent (graph.mutate mutation).1 := by
  cases mutation with
  | addVertex vertex => exact addVertex_adjacent graph vertex adjacent
  | editVertex name edit =>
      exact (editVertex_sameLinks graph name edit).adjacent adjacent
  | addEdge source destination property =>
      exact addEdge_adjacent graph source destination property adjacent
  | createGroup name members =>
      exact (createGroup_sameLinks graph name members).adjacent adjacent
  | addGroupEdge edge => exact addGroupEdge_adjacent graph edge adjacent

theorem assemble_adjacent (graph : JobGraph) (mutations : List Mutation)
    (adjacent : Adjacent graph) : Adjacent (graph.assemble mutations) := by
  induction mutations generalizing graph with
  | nil => exact adjacent
  | cons mutation rest ih => exact ih _ (mutate_adjacent graph mutation adjacent)

/-- Whatever calls assembled a graph, all it records about its edges agrees; so both ends of every
edge are found among the vertices, where the checks of a plan look them up. Edges are made from
their ends here, and each is known under the id of its ends. -/
theorem assembled_records_agree (name : String) (policy : NamespacePolicy)
    (mutations : List Mutation) :
    let graph := (create name policy).assemble mutations
    Adjacent graph ∧ graph.vertices.map (·.name) = graph.order ∧
      ∀ edge ∈ graph.edges, ∃ source destination,
        graph.vertex? edge.source = some source ∧
        graph.vertex? edge.destination = some destination := by
  intro graph
  have adjacent : Adjacent graph := assemble_adjacent _ mutations (create_adjacent name policy)
  refine ⟨adjacent, adjacent.looked_up graph.order fun _ listed => listed, ?_⟩
  intro edge member
  obtain ⟨_, left, right⟩ := adjacent.ends edge member
  rw [adjacent.known, Option.isSome_iff_exists] at left right
  obtain ⟨source, foundSource⟩ := left
  obtain ⟨destination, foundDestination⟩ := right
  exact ⟨source, destination, foundSource, foundDestination⟩

end JobGraph

end ElasticJob
