import ElasticJob.Manager.Basic
import ElasticJob.Proofs.Graph.Adjacency
import ElasticJob.Proofs.Graph.Snapshot
import ElasticJob.Proofs.Graph.TopologicalOrder
import ElasticJob.Proofs.Graph.Verification

/-!
What a created plan keeps of its graph, as far as a scheduler relies on it: every vertex once, the
vertices that a vertex feeds, the edges that feed it, and an order that all edges follow. Neither
the graph nor its order is needed once these facts are known.
-/

namespace ElasticJob

namespace Context

def edgesOf (plan : Plan) (ids : List EdgeId) : List InputEdge :=
  ids.filterMap fun id => (plan.edge? id).map (InputEdge.ofEdge id)

theorem edgesOf_ids (plan : Plan) (ids : List EdgeId) (id : EdgeId)
    (listed : id ∈ (edgesOf plan ids).map (·.id)) : id ∈ ids := by
  obtain ⟨edge, shown, rfl⟩ := List.mem_map.mp listed
  obtain ⟨known, member, found⟩ := List.mem_filterMap.mp shown
  obtain ⟨_, _, rfl⟩ := Option.map_eq_some_iff.mp found
  exact member

/-- The number of tasks of a source, where nothing will change it. -/
def settledTasks? (plan : Plan) (source : String) : Option UInt32 :=
  (settledSource? plan source).map (·.2)

theorem settledSource?_name (plan : Plan) (source name : String) (tasks : UInt32)
    (settled : settledSource? plan source = some (name, tasks)) : name = source := by
  unfold settledSource? at settled
  split at settled
  · cases settled
  · rename_i vertex found
    split at settled
    · cases settled
    · obtain ⟨_, _, same⟩ := Option.map_eq_some_iff.mp settled
      cases same
      simpa using List.find?_some found

theorem addEdge_edges (plan : Plan) (context : Context) (id : EdgeId) :
    (addEdge plan context id).edges = context.edges ++ edgesOf plan [id] ∧
      (addEdge plan context id).inputs = context.inputs := by
  unfold addEdge
  cases found : plan.edge? id with
  | none => simp [edgesOf, found]
  | some edge =>
      dsimp only
      split <;> simp [edgesOf, found, setSource]

theorem addEdge_sources (plan : Plan) (context : Context) (id : EdgeId) (source : String) :
    (addEdge plan context id).sources.get? source =
      if source ∈ (edgesOf plan [id]).map (·.source) then
        (settledTasks? plan source).or (context.sources.get? source)
      else context.sources.get? source := by
  unfold addEdge
  cases found : plan.edge? id with
  | none => simp [edgesOf, found]
  | some edge =>
      have only : source ∈ (edgesOf plan [id]).map (·.source) ↔ source = edge.source := by
        simp [edgesOf, found, InputEdge.ofEdge]
      simp only [only]
      cases settled : settledSource? plan edge.source with
      | none =>
          by_cases here : source = edge.source
          · simp [here, settledTasks?, settled]
          · simp [here]
      | some entry =>
          obtain ⟨name, tasks⟩ := entry
          obtain rfl := settledSource?_name plan edge.source name tasks settled
          by_cases here : source = edge.source
          · simp [here, settledTasks?, settled, setSource]
          · simp [here, setSource, SortedMap.get?_insert_ne _ _ here]

theorem foldl_addEdge_edges (plan : Plan) (ids : List EdgeId) (context : Context) :
    (ids.foldl (addEdge plan) context).edges = context.edges ++ edgesOf plan ids ∧
      (ids.foldl (addEdge plan) context).inputs = context.inputs := by
  induction ids generalizing context with
  | nil => simp [edgesOf]
  | cons first rest ih =>
      obtain ⟨edges, inputs⟩ := addEdge_edges plan context first
      obtain ⟨later, kept⟩ := ih (addEdge plan context first)
      refine ⟨?_, kept.trans inputs⟩
      rw [List.foldl_cons, later, edges, List.append_assoc]
      simp [edgesOf, ← List.filterMap_append]

theorem foldl_addEdge_sources (plan : Plan) (ids : List EdgeId) (context : Context)
    (source : String) :
    (ids.foldl (addEdge plan) context).sources.get? source =
      if source ∈ (edgesOf plan ids).map (·.source) then
        (settledTasks? plan source).or (context.sources.get? source)
      else context.sources.get? source := by
  induction ids generalizing context with
  | nil => simp [edgesOf]
  | cons first rest ih =>
      have whole : edgesOf plan (first :: rest) = edgesOf plan [first] ++ edgesOf plan rest := by
        simp [edgesOf, ← List.filterMap_append]
      rw [List.foldl_cons, ih, addEdge_sources, whole]
      by_cases now : source ∈ (edgesOf plan [first]).map (·.source)
      · by_cases later : source ∈ (edgesOf plan rest).map (·.source)
        · cases settledTasks? plan source <;> simp [now, later]
        · simp [now, later]
      · simp [now]

theorem ofPlan_edges (plan : Plan) (vertex : Vertex) :
    (ofPlan plan vertex).edges = edgesOf plan vertex.inputEdges :=
  (foldl_addEdge_edges plan vertex.inputEdges _).1

theorem ofPlan_inputs (plan : Plan) (vertex : Vertex) :
    (ofPlan plan vertex).inputs = vertex.initializedInputs.map (·.name) :=
  (foldl_addEdge_edges plan vertex.inputEdges _).2

/-- A fresh context knows exactly the settled sources of its edges. -/
theorem ofPlan_sources (plan : Plan) (vertex : Vertex) (source : String) :
    (ofPlan plan vertex).sources.get? source =
      if source ∈ (ofPlan plan vertex).edges.map (·.source) then settledTasks? plan source
      else none := by
  rw [ofPlan_edges, ofPlan, foldl_addEdge_sources]
  simp [SortedMap.get?_empty]

end Context

theorem find?_key {α κ : Type} [DecidableEq κ] (key : α → κ) (items : List α) (item : α)
    (unique : (items.map key).Nodup) (member : item ∈ items) :
    items.find? (fun other => key other = key item) = some item := by
  have hit : (items.find? fun other => key other = key item).isSome := by
    rw [List.find?_isSome]
    exact ⟨item, member, by simp⟩
  obtain ⟨found, first⟩ := Option.isSome_iff_exists.mp hit
  have same : key found = key item := by simpa using List.find?_some first
  have stored := List.mem_of_find?_eq_some first
  rw [first, List.inj_on_of_nodup_map unique stored member same]

namespace Plan

structure Routed (plan : Plan) : Prop where
  names : (plan.vertices.map (·.name)).Nodup
  feeds : ∀ vertex ∈ plan.vertices, ∀ name ∈ plan.destinationsOf vertex.name,
    name ∈ plan.vertices.map (·.name)
  /-- Every edge into a vertex comes from a vertex that feeds it. -/
  fed : ∀ vertex ∈ plan.vertices, ∀ edge ∈ (Context.ofPlan plan vertex).edges,
    edge.source ∈ plan.vertices.map (·.name) ∧
      vertex.name ∈ plan.destinationsOf edge.source
  /-- Edges follow one order. -/
  ranked : ∃ rank : String → Nat, ∀ vertex ∈ plan.vertices,
    ∀ edge ∈ (Context.ofPlan plan vertex).edges, rank edge.source < rank vertex.name

theorem vertex?_of_mem {plan : Plan} (distinct : (plan.vertices.map (·.name)).Nodup)
    {vertex : Vertex} (member : vertex ∈ plan.vertices) :
    plan.vertex? vertex.name = some vertex :=
  find?_key Vertex.name plan.vertices vertex distinct member

theorem Routed.vertex? {plan : Plan} (routed : plan.Routed) (vertex : Vertex)
    (member : vertex ∈ plan.vertices) : plan.vertex? vertex.name = some vertex :=
  vertex?_of_mem routed.names member

/-- What a vertex hears of, it hears of once: every edge feeds its own end, and the context of a
fed vertex holds an edge from each vertex that feeds it. -/
structure Linked (plan : Plan) : Prop extends Routed plan where
  once : ∀ vertex ∈ plan.vertices, (plan.destinationsOf vertex.name).Nodup
  read : ∀ source ∈ plan.vertices.map (·.name), ∀ vertex ∈ plan.vertices,
    vertex.name ∈ plan.destinationsOf source →
      source ∈ (Context.ofPlan plan vertex).edges.map (·.source)
  joined : ∀ edge ∈ plan.edges, edge.destination ∈ plan.destinationsOf edge.source

end Plan

namespace JobGraph

section Creation

variable {graph : JobGraph} {plan : Plan} (adjacent : Adjacent graph)
  (created : graph.createPlan = .ok plan)

include created in
theorem createPlan_ok :
    ∃ order, graph.topologicalOrder = .ok order ∧
      plan.vertices = order.filterMap graph.vertex? ∧ plan.edges = graph.edges ∧
      plan.topology = .ofDigraph graph.network := by
  obtain ⟨_, _, ordered⟩ := bind_eq_ok_iff.mp created
  obtain ⟨order, listed, made⟩ := bind_eq_ok_iff.mp ordered
  cases made
  exact ⟨order, listed, rfl, rfl, rfl⟩

include created in
theorem createPlan_verified : graph.verify = .ok () ∧ plan.resolved = .empty := by
  obtain ⟨_, verified, ordered⟩ := bind_eq_ok_iff.mp created
  obtain ⟨_, _, made⟩ := bind_eq_ok_iff.mp ordered
  cases made
  exact ⟨verified, rfl⟩

section Mirrored

variable (mirrored : Mirrored graph)

include mirrored created

theorem Mirrored.createPlan_order :
    graph.topologicalOrder = .ok (plan.vertices.map (·.name)) := by
  obtain ⟨order, checked, vertices, _, _⟩ := createPlan_ok created
  obtain ⟨_, complete, _⟩ := topologicalOrder_ok graph mirrored order checked
  rw [checked, vertices, mirrored.looked_up order fun name listed => (complete name).mp listed]

theorem Mirrored.createPlan_names :
    (plan.vertices.map (·.name)).Nodup ∧
      (∀ name, name ∈ plan.vertices.map (·.name) ↔ name ∈ graph.order) ∧
      ∀ vertex ∈ plan.vertices, graph.vertex? vertex.name = some vertex := by
  obtain ⟨_, _, vertices, _, _⟩ := createPlan_ok created
  obtain ⟨distinct, complete, _⟩ :=
    topologicalOrder_ok graph mirrored _ (mirrored.createPlan_order created)
  refine ⟨distinct, complete, fun vertex member => ?_⟩
  rw [vertices, List.mem_filterMap] at member
  obtain ⟨name, _, found⟩ := member
  rw [mirrored.named name vertex found, found]

theorem Mirrored.createPlan_checked : ∀ vertex ∈ plan.vertices, vertex.Checked := by
  obtain ⟨_, _, stored⟩ := mirrored.createPlan_names created
  have verified := graph.verify_decides.eq_ok_iff.mp (createPlan_verified created).1
  intro vertex member
  exact verified.2.1 vertex ((mirrored.mem_vertices vertex).mpr (stored vertex member))

theorem Mirrored.createPlan_node (name : String) (known : name ∈ graph.order) :
    plan.topologyNode? name = some ⟨Snapshot.indexText (graph.position name), name⟩ := by
  obtain ⟨_, _, _, _, topology⟩ := createPlan_ok created
  have found := Snapshot.find?_numbered_detail graph.order 0 name known
  rw [Nat.zero_add] at found
  simpa [Plan.topologyNode?, topology, Snapshot.ofDigraph, mirrored.nodes, position] using found

omit created in
/-- Going from the ends of edges at a vertex to their other ends, by way of the nodes that stand for
them. -/
theorem Mirrored.cross_edges (near far : Edge → String) (name : String)
    (known : ∀ edge ∈ graph.edges, near edge ∈ graph.order ∧ far edge ∈ graph.order) :
    ((graph.edges.filter fun edge => graph.position (near edge) = graph.position name).map
        fun edge => graph.position (far edge)).filterMap (graph.network.nodes[·]?) =
      (graph.edges.filter (near · = name)).map far := by
  have here : (graph.edges.filter fun edge => graph.position (near edge) = graph.position name) =
      graph.edges.filter (near · = name) := by
    apply List.filter_congr
    intro edge listed
    exact decide_eq_decide.mpr (List.idxOf_inj (known edge listed).1)
  rw [here, List.filterMap_map]
  apply List.filterMap_eq_map_iff_forall_eq_some.mpr
  intro edge listed
  rw [Function.comp_apply, mirrored.nodes]
  exact List.getElem?_idxOf (known edge (List.mem_filter.mp listed).1).2

theorem Mirrored.createPlan_destinations (name : String) (known : name ∈ graph.order) :
    plan.destinationsOf name = (graph.edgesFrom name).map (·.destination) := by
  obtain ⟨_, _, _, _, topology⟩ := createPlan_ok created
  simp only [Plan.destinationsOf, mirrored.createPlan_node created name known, topology]
  rw [Snapshot.children_ofDigraph, mirrored.arcs, List.filter_map, List.map_map]
  exact mirrored.cross_edges (·.source) (·.destination) name mirrored.ends

theorem Mirrored.createPlan_sources (name : String) (known : name ∈ graph.order) :
    plan.sourcesOf name = (graph.edgesInto name).map (·.source) := by
  obtain ⟨_, _, _, _, topology⟩ := createPlan_ok created
  simp only [Plan.sourcesOf, mirrored.createPlan_node created name known, topology]
  rw [Snapshot.parents_ofDigraph, mirrored.arcs, List.filter_map, List.map_map]
  exact mirrored.cross_edges (·.destination) (·.source) name fun edge listed =>
    (mirrored.ends edge listed).symm

theorem Mirrored.createPlan_strangers (name : String) (unknown : name ∉ graph.order) :
    plan.destinationsOf name = [] ∧ plan.sourcesOf name = [] := by
  obtain ⟨_, _, _, _, topology⟩ := createPlan_ok created
  have absent : plan.topologyNode? name = none := by
    rw [Plan.topologyNode?, topology, List.find?_eq_none]
    intro node listed same
    apply unknown
    rw [← mirrored.nodes, ← Snapshot.map_detail_numbered graph.network.nodes 0]
    exact List.mem_map.mpr ⟨node, listed, of_decide_eq_true same⟩
  simp [Plan.destinationsOf, Plan.sourcesOf, absent]

end Mirrored

include adjacent created

theorem createPlan_names :
    (plan.vertices.map (·.name)).Nodup ∧
      (∀ name, name ∈ plan.vertices.map (·.name) ↔ name ∈ graph.order) ∧
      ∀ vertex ∈ plan.vertices, graph.vertex? vertex.name = some vertex :=
  adjacent.mirrored.createPlan_names created

theorem createPlan_destinations (name : String) (known : name ∈ graph.order) :
    plan.destinationsOf name = (graph.edgesFrom name).map (·.destination) :=
  adjacent.mirrored.createPlan_destinations created name known

theorem createPlan_edges (vertex : Vertex) (known : graph.vertex? vertex.name = some vertex)
    (edge : InputEdge) (listed : edge ∈ (Context.ofPlan plan vertex).edges) :
    ∃ found ∈ graph.edges, found.source = edge.source ∧ found.destination = vertex.name := by
  obtain ⟨_, _, _, edges, _⟩ := createPlan_ok created
  rw [Context.ofPlan_edges, Context.edgesOf, List.mem_filterMap] at listed
  obtain ⟨id, recorded, shown⟩ := listed
  obtain ⟨found, looked, rfl⟩ := Option.map_eq_some_iff.mp shown
  rw [(adjacent.incoming vertex.name vertex known).2] at recorded
  obtain ⟨kept, into, rfl⟩ := List.mem_map.mp recorded
  obtain ⟨stored, goal⟩ := List.mem_filter.mp into
  rw [Plan.edge?, edges, find?_key Edge.id graph.edges kept adjacent.ids stored] at looked
  obtain rfl : kept = found := Option.some.inj looked
  exact ⟨kept, stored, rfl, of_decide_eq_true goal⟩

theorem createPlan_routed : plan.Routed := by
  obtain ⟨order, checked, vertices, _, _⟩ := createPlan_ok created
  obtain ⟨_, _, ranked⟩ := topologicalOrder_ok graph adjacent.mirrored order checked
  obtain ⟨distinct, names, stored⟩ := createPlan_names adjacent created
  refine ⟨distinct, ?_, ?_, graph.rank, ?_⟩
  · intro vertex member name fed
    have known := (names vertex.name).mp (List.mem_map_of_mem member)
    rw [createPlan_destinations adjacent created _ known] at fed
    obtain ⟨edge, leaves, rfl⟩ := List.mem_map.mp fed
    exact (names _).mpr (adjacent.ends edge (List.mem_filter.mp leaves).1).2.2
  · intro vertex member edge listed
    obtain ⟨found, recorded, source, goal⟩ :=
      createPlan_edges adjacent created vertex (stored vertex member) edge listed
    have known := (adjacent.ends found recorded).2.1
    rw [← source, createPlan_destinations adjacent created _ known]
    exact ⟨(names _).mpr known,
      List.mem_map.mpr ⟨found, List.mem_filter.mpr ⟨recorded, by simp⟩, goal⟩⟩
  · intro vertex member edge listed
    obtain ⟨found, recorded, source, goal⟩ :=
      createPlan_edges adjacent created vertex (stored vertex member) edge listed
    rw [← source, ← goal]
    exact ranked found recorded

theorem createPlan_entering (vertex : Vertex) (member : vertex ∈ plan.vertices) (edge : Edge)
    (stored : edge ∈ plan.edges) :
    edge.id ∈ vertex.inputEdges ↔ edge.destination = vertex.name := by
  obtain ⟨_, _, _, edges, _⟩ := createPlan_ok created
  obtain ⟨_, _, looked⟩ := createPlan_names adjacent created
  rw [edges] at stored
  rw [(adjacent.incoming _ vertex (looked vertex member)).2, List.mem_map]
  constructor
  · rintro ⟨other, into, same⟩
    obtain ⟨kept, goal⟩ := List.mem_filter.mp into
    rw [← List.inj_on_of_nodup_map adjacent.ids kept stored same]
    exact of_decide_eq_true goal
  · intro goal
    exact ⟨edge, List.mem_filter.mpr ⟨stored, decide_eq_true goal⟩, rfl⟩

theorem createPlan_ends (edge : Edge) (stored : edge ∈ plan.edges) :
    edge.source ∈ plan.vertices.map (·.name) ∧
      edge.destination ∈ plan.vertices.map (·.name) := by
  obtain ⟨_, _, _, edges, _⟩ := createPlan_ok created
  obtain ⟨_, names, _⟩ := createPlan_names adjacent created
  obtain ⟨_, source, destination⟩ := adjacent.ends edge (edges ▸ stored)
  exact ⟨(names _).mpr source, (names _).mpr destination⟩

theorem createPlan_linked : plan.Linked := by
  obtain ⟨_, _, _, edges, _⟩ := createPlan_ok created
  obtain ⟨_, names, looked⟩ := createPlan_names adjacent created
  refine ⟨createPlan_routed adjacent created, ?_, ?_, ?_⟩
  · intro vertex member
    have known := (names vertex.name).mp (List.mem_map_of_mem member)
    rw [createPlan_destinations adjacent created _ known]
    -- edges that leave one vertex differ in their destinations, as their ids differ
    refine List.Nodup.map_on ?_ (adjacent.ids.of_map.filter _)
    intro first leaves second others same
    obtain ⟨stored, source⟩ := List.mem_filter.mp leaves
    obtain ⟨kept, equal⟩ := List.mem_filter.mp others
    apply List.inj_on_of_nodup_map adjacent.ids stored kept
    rw [(adjacent.ends first stored).1, (adjacent.ends second kept).1, same,
      of_decide_eq_true source, of_decide_eq_true equal]
  · intro source listed vertex member fed
    rw [createPlan_destinations adjacent created _ ((names source).mp listed)] at fed
    obtain ⟨edge, leaves, goal⟩ := List.mem_map.mp fed
    obtain ⟨stored, same⟩ := List.mem_filter.mp leaves
    have found : plan.edge? edge.id = some edge := by
      rw [Plan.edge?, edges, find?_key Edge.id graph.edges edge adjacent.ids stored]
    have into := (createPlan_entering adjacent created vertex member edge (edges ▸ stored)).mpr goal
    rw [Context.ofPlan_edges, Context.edgesOf]
    exact List.mem_map.mpr ⟨_, List.mem_filterMap.mpr ⟨edge.id, into, by rw [found]; rfl⟩,
      of_decide_eq_true same⟩
  · intro edge stored
    rw [edges] at stored
    rw [createPlan_destinations adjacent created _ (adjacent.ends edge stored).2.1]
    exact List.mem_map.mpr ⟨edge, List.mem_filter.mpr ⟨stored, by simp⟩, rfl⟩

theorem createPlan_oneToOne (edge : Edge) (stored : edge ∈ plan.edges)
    (paired : edge.property.movement = .oneToOne) (source destination : Vertex)
    (leaves : plan.vertex? edge.source = some source)
    (enters : plan.vertex? edge.destination = some destination) (first second : UInt32)
    (sends : source.parallelism = .fixed first) (takes : destination.parallelism = .fixed second) :
    first = second := by
  obtain ⟨_, _, _, edges, _⟩ := createPlan_ok created
  obtain ⟨_, _, looked⟩ := createPlan_names adjacent created
  have known : ∀ name vertex, plan.vertex? name = some vertex →
      graph.vertex? name = some vertex := by
    intro name vertex found
    obtain rfl : vertex.name = name := by simpa using List.find?_some found
    exact looked vertex (List.mem_of_find?_eq_some found)
  have verified := graph.verify_decides.eq_ok_iff.mp (createPlan_verified created).1
  exact verified.2.2 edge (edges ▸ stored) paired first second
    (graph.fixedTasks?_eq_some_iff.mpr ⟨source, known _ _ leaves, sends⟩)
    (graph.fixedTasks?_eq_some_iff.mpr ⟨destination, known _ _ enters, takes⟩)

end Creation

end JobGraph

end ElasticJob
