import ElasticJob.Proofs.Graph.Assembly
import Mathlib.Data.List.Nodup

/-!
The agreement of what a graph records about the ends of its edges: the order of names, the vertices
by name, their indices, the list of edges, the lists kept at both ends of every edge, and the
network. Ids do not matter to it, so edges read from outside are covered: it holds in the empty
graph, and every call keeps it whether it is refused or not.
-/

namespace ElasticJob

def Vertex.links (vertex : Vertex) :
    String × (List String × List EdgeId) × (List String × List EdgeId) :=
  (vertex.name, (vertex.outputVertices, vertex.outputEdges),
    (vertex.inputVertices, vertex.inputEdges))

namespace JobGraph

def edgesFrom (graph : JobGraph) (name : String) : List Edge :=
  graph.edges.filter (·.source = name)

def edgesInto (graph : JobGraph) (name : String) : List Edge :=
  graph.edges.filter (·.destination = name)

/-- What a vertex of the name has to record, by the list of edges. -/
def ledger (graph : JobGraph) (name : String) :
    String × (List String × List EdgeId) × (List String × List EdgeId) :=
  (name, ((graph.edgesFrom name).map (·.destination), (graph.edgesFrom name).map (·.id)),
    ((graph.edgesInto name).map (·.source), (graph.edgesInto name).map (·.id)))

def arcOf (graph : JobGraph) (edge : Edge) : Arc EdgeId :=
  ⟨graph.position edge.source, graph.position edge.destination, edge.id⟩

theorem arcOf_congr {left right : JobGraph} (order : left.order = right.order) :
    left.arcOf = right.arcOf := by
  funext edge
  simp [arcOf, position, order]

structure Mirrored (graph : JobGraph) : Prop where
  names : graph.order.Nodup
  indices : ∀ name index, graph.vertexIndex? name = some index ↔ graph.order[index]? = some name
  ends : ∀ edge ∈ graph.edges, edge.source ∈ graph.order ∧ edge.destination ∈ graph.order
  /-- The listed names have a vertex each, which tells of the edges what the list of edges does. -/
  ledgers : ∀ name, (graph.vertex? name).map Vertex.links =
    if name ∈ graph.order then some (graph.ledger name) else none
  nodes : graph.network.nodes = graph.order
  arcs : graph.network.arcs = graph.edges.map graph.arcOf

section Mirrored

variable {graph : JobGraph} (mirrored : Mirrored graph)

include mirrored

theorem Mirrored.known (name : String) : name ∈ graph.order ↔ (graph.vertex? name).isSome := by
  have present := congrArg Option.isSome (mirrored.ledgers name)
  rw [Option.isSome_map] at present
  rw [present]
  by_cases listed : name ∈ graph.order <;> simp [listed]

theorem Mirrored.vertex (name : String) (vertex : Vertex)
    (found : graph.vertex? name = some vertex) :
    name ∈ graph.order ∧ vertex.links = graph.ledger name := by
  have listed := (mirrored.known name).mpr (found ▸ rfl)
  have told := mirrored.ledgers name
  rw [found, if_pos listed] at told
  exact ⟨listed, Option.some.inj told⟩

theorem Mirrored.named (name : String) (vertex : Vertex)
    (found : graph.vertex? name = some vertex) : vertex.name = name :=
  congrArg Prod.fst (mirrored.vertex name vertex found).2

theorem Mirrored.position_eq (name : String) (index : Nat)
    (found : graph.vertexIndex? name = some index) :
    name ∈ graph.order ∧ index = graph.position name := by
  obtain ⟨inside, rfl⟩ := List.getElem?_eq_some_iff.mp ((mirrored.indices name index).mp found)
  exact ⟨List.getElem_mem inside, (mirrored.names.idxOf_getElem index inside).symm⟩

theorem Mirrored.mem_vertices (vertex : Vertex) :
    vertex ∈ graph.vertices ↔ graph.vertex? vertex.name = some vertex := by
  rw [vertices, List.mem_filterMap]
  constructor
  · rintro ⟨name, _, found⟩
    rwa [mirrored.named name vertex found]
  · intro found
    exact ⟨vertex.name, (mirrored.known _).mpr (found ▸ rfl), found⟩

theorem Mirrored.looked_up (names : List String) (known : ∀ name ∈ names, name ∈ graph.order) :
    (names.filterMap graph.vertex?).map (·.name) = names := by
  have named : ∀ name ∈ names, (graph.vertex? name).map (·.name) = some name := by
    intro name listed
    obtain ⟨vertex, found⟩ :=
      Option.isSome_iff_exists.mp ((mirrored.known name).mp (known name listed))
    rw [found, Option.map_some, mirrored.named name vertex found]
  rw [List.map_filterMap]
  simpa using List.filterMap_eq_map_iff_forall_eq_some.mpr named

theorem Mirrored.arcs_inside : ∀ arc ∈ graph.network.arcs,
    arc.source < graph.network.nodes.length ∧ arc.target < graph.network.nodes.length := by
  intro arc listed
  rw [mirrored.arcs] at listed
  obtain ⟨edge, stored, rfl⟩ := List.mem_map.mp listed
  obtain ⟨source, destination⟩ := mirrored.ends edge stored
  rw [mirrored.nodes]
  exact ⟨List.idxOf_lt_length_iff.mpr source, List.idxOf_lt_length_iff.mpr destination⟩

theorem Mirrored.ledger_of_fresh (name : String) (fresh : name ∉ graph.order) :
    graph.ledger name = (name, ([], []), ([], [])) := by
  have noneFrom : graph.edgesFrom name = [] := by
    apply List.filter_eq_nil_iff.mpr
    intro edge member same
    exact fresh (of_decide_eq_true same ▸ (mirrored.ends edge member).1)
  have noneInto : graph.edgesInto name = [] := by
    apply List.filter_eq_nil_iff.mpr
    intro edge member same
    exact fresh (of_decide_eq_true same ▸ (mirrored.ends edge member).2)
  simp [ledger, noneFrom, noneInto]

end Mirrored

structure SameLinks (before after : JobGraph) : Prop where
  order : after.order = before.order
  indices : after.indices = before.indices
  links : ∀ name, (after.vertex? name).map Vertex.links = (before.vertex? name).map Vertex.links
  edges : after.edges = before.edges
  network : after.network = before.network

theorem SameLinks.refl (graph : JobGraph) : SameLinks graph graph :=
  ⟨rfl, rfl, fun _ => rfl, rfl, rfl⟩

theorem SameLinks.trans {first middle last : JobGraph} (earlier : SameLinks first middle)
    (later : SameLinks middle last) : SameLinks first last :=
  ⟨later.order.trans earlier.order, later.indices.trans earlier.indices,
    fun name => (later.links name).trans (earlier.links name),
    later.edges.trans earlier.edges, later.network.trans earlier.network⟩

theorem SameLinks.mirrored {before after : JobGraph} (same : SameLinks before after)
    (mirrored : Mirrored before) : Mirrored after where
  names := same.order ▸ mirrored.names
  indices name index := by
    rw [vertexIndex?, same.indices, same.order]
    exact mirrored.indices name index
  ends := by
    rw [same.edges, same.order]
    exact mirrored.ends
  ledgers name := by
    rw [same.links, same.order]
    simpa only [ledger, edgesFrom, edgesInto, same.edges] using mirrored.ledgers name
  nodes := by rw [same.network, same.order, mirrored.nodes]
  arcs := by rw [same.network, same.edges, arcOf_congr same.order, mirrored.arcs]

theorem putVertex_sameLinks (graph : JobGraph) (name : String) (vertex edited : Vertex)
    (found : graph.vertex? name = some vertex) (links : edited.links = vertex.links) :
    SameLinks graph (graph.putVertex name edited) :=
  ⟨rfl, rfl, putVertex_map Vertex.links found links, rfl, rfl⟩

structure Edited (vertex edited : Vertex) : Prop where
  links : edited.links = vertex.links
  groups : edited.groups = vertex.groups
  parallelism : edited.parallelism = vertex.parallelism
  hints : edited.hints = vertex.hints ∨
    ∃ hints, edited.hints = some hints ∧ vertex.parallelism.matchesCount hints.length = true

theorem edit_keeps (vertex edited : Vertex) (edit : VertexEdit)
    (done : vertex.edit edit = .ok edited) : Edited vertex edited := by
  cases edit with
  | hints hints =>
      cases hints with
      | none => cases done; exact ⟨rfl, rfl, rfl, .inl rfl⟩
      | some hints =>
          simp only [Vertex.edit, Vertex.setHints] at done
          split at done
          · rename_i matching
            cases done
            exact ⟨rfl, rfl, rfl, .inr ⟨hints, rfl, matching⟩⟩
          · cases done
  | files files => cases done; exact ⟨rfl, rfl, rfl, .inl rfl⟩
  | environment values => cases done; exact ⟨rfl, rfl, rfl, .inl rfl⟩
  | launchOptions options => cases done; exact ⟨rfl, rfl, rfl, .inl rfl⟩
  | input input =>
      simp only [Vertex.edit, Vertex.addInput] at done
      split at done <;> cases done
      exact ⟨rfl, rfl, rfl, .inl rfl⟩
  | output output =>
      simp only [Vertex.edit, Vertex.addOutput] at done
      split at done <;> cases done
      exact ⟨rfl, rfl, rfl, .inl rfl⟩
  | manager manager => cases done; exact ⟨rfl, rfl, rfl, .inl rfl⟩

theorem addGroup_links (vertex marked : Vertex) (info : GroupInfo)
    (done : vertex.addGroup info = .ok marked) : marked.links = vertex.links := by
  simp only [Vertex.addGroup] at done
  split at done <;> cases done
  rfl

theorem editVertex_sameLinks (graph : JobGraph) (name : String) (edit : VertexEdit) :
    SameLinks graph (graph.editVertex name edit).1 := by
  apply editVertex_keeps (SameLinks graph) (.refl graph)
  intro vertex edited found result
  exact putVertex_sameLinks graph name vertex edited found
    (edit_keeps vertex edited edit result).links

theorem markMembers_sameLinks (info : GroupInfo) (members : List String) (graph : JobGraph) :
    SameLinks graph (markMembers info graph members).1 := by
  induction members generalizing graph with
  | nil => exact .refl graph
  | cons member rest ih =>
      simp only [markMembers]
      cases found : graph.vertex? member with
      | none => exact ih graph
      | some vertex =>
          cases added : vertex.addGroup info with
          | error error => simpa [added, refuse] using SameLinks.refl graph
          | ok marked =>
              have put := putVertex_sameLinks graph member vertex marked found
                (addGroup_links vertex marked info added)
              simpa [added] using put.trans (ih (graph.putVertex member marked))

theorem createGroup_sameLinks (graph : JobGraph) (name : String) (members : List String) :
    SameLinks graph (graph.createGroup name members).1 := by
  unfold createGroup
  split
  · exact .refl graph
  · have marked := markMembers_sameLinks (Group.info { name := name, members := members })
      members graph
    dsimp only
    split
    -- the list of groups is no part of the links
    next after result =>
      rw [result] at marked
      exact ⟨marked.order, marked.indices, marked.links, marked.edges, marked.network⟩
    next after error result =>
      rw [result] at marked
      exact marked

theorem create_mirrored (name : String) (policy : NamespacePolicy) :
    Mirrored (create name policy) where
  names := List.nodup_nil
  indices := by simp [create, vertexIndex?]
  ends := by simp [create]
  ledgers := by simp [create, vertex?]
  nodes := rfl
  arcs := rfl

theorem isConnected_eq_false (vertex : Vertex) (free : vertex.isConnected = false) :
    vertex.inputVertices = [] ∧ vertex.outputVertices = [] ∧
      vertex.inputEdges = [] ∧ vertex.outputEdges = [] := by
  simp only [Vertex.isConnected, Bool.or_eq_false_iff, Bool.not_eq_eq_eq_not, Bool.not_false,
    List.isEmpty_iff] at free
  obtain ⟨⟨⟨⟨inputs, outputs⟩, into⟩, leaving⟩, _⟩ := free
  exact ⟨inputs, outputs, into, leaving⟩

theorem getElem?_concat_eq_some_iff {α : Type} (items : List α) (last item : α) (index : Nat) :
    (items ++ [last])[index]? = some item ↔
      items[index]? = some item ∨ index = items.length ∧ last = item := by
  rcases Nat.lt_trichotomy index items.length with inside | rfl | beyond
  · rw [List.getElem?_append_left inside]
    simp [Nat.ne_of_lt inside]
  · simp
  · have long : (items ++ [last])[index]? = none := by
      rw [List.getElem?_eq_none_iff, List.length_append, List.length_singleton]
      omega
    have short : items[index]? = none := List.getElem?_eq_none_iff.mpr (Nat.le_of_lt beyond)
    rw [long, short]
    simp [Nat.ne_of_gt beyond]

theorem append_mirrored (graph : JobGraph) (vertex : Vertex) (mirrored : Mirrored graph)
    (fresh : vertex.name ∉ graph.order) (free : vertex.isConnected = false) :
    Mirrored { graph with
      order := graph.order ++ [vertex.name]
      stored := graph.stored.insert vertex.name vertex
      indices := graph.indices.insert vertex.name graph.network.nodes.length
      network := graph.network.addNode vertex.name } := by
  obtain ⟨inputs, outputs, into, out⟩ := isConnected_eq_false vertex free
  have looked : ∀ name, (graph.stored.insert vertex.name vertex).get? name =
      if name = vertex.name then some vertex else graph.vertex? name :=
    fun name => putVertex_vertex? graph vertex.name name vertex
  constructor
  case names =>
    rw [List.nodup_append_comm]
    exact List.nodup_cons.mpr ⟨fresh, mirrored.names⟩
  case indices =>
    intro name index
    simp only [vertexIndex?, getElem?_concat_eq_some_iff, mirrored.nodes]
    by_cases here : name = vertex.name
    · have absent : graph.order[index]? ≠ some name := fun found =>
        fresh (here ▸ List.mem_of_getElem? found)
      simp [here, here ▸ absent, eq_comm]
    · rw [SortedMap.get?_insert_ne _ _ here]
      simpa [Ne.symm here, vertexIndex?] using mirrored.indices name index
  case ends =>
    intro edge member
    obtain ⟨source, destination⟩ := mirrored.ends edge member
    exact ⟨List.mem_append_left _ source, List.mem_append_left _ destination⟩
  case ledgers =>
    intro name
    change Option.map Vertex.links ((graph.stored.insert vertex.name vertex).get? name) =
      if name ∈ graph.order ++ [vertex.name] then some (graph.ledger name) else none
    rw [looked]
    by_cases here : name = vertex.name
    · rw [here, mirrored.ledger_of_fresh vertex.name fresh]
      simp [Vertex.links, inputs, outputs, into, out]
    · simpa [here] using mirrored.ledgers name
  case nodes =>
    simp [Digraph.addNode, mirrored.nodes]
  case arcs =>
    simp only [Digraph.addNode, mirrored.arcs]
    apply List.map_congr_left
    intro edge member
    obtain ⟨source, destination⟩ := mirrored.ends edge member
    -- positions are kept where a name comes at the end
    simp [arcOf, position, List.idxOf_append_of_mem, source, destination]

theorem addVertex_mirrored (graph : JobGraph) (vertex : Vertex) (mirrored : Mirrored graph) :
    Mirrored (graph.addVertex vertex).1 := by
  rcases addVertex_cases graph vertex with ⟨_, refused⟩ | ⟨unknown, _, free, added⟩
  · rw [refused]
    exact mirrored
  · have fresh : vertex.name ∉ graph.order := by
      rw [mirrored.known, unknown]
      exact Bool.false_ne_true
    rw [added]
    exact append_mirrored graph vertex mirrored fresh free

def atEnd {α : Type} (here name : String) (item : α) : List α :=
  if here = name then [item] else []

def linkEnds (edge : Edge) (name : String) (vertex : Vertex) : Vertex :=
  { vertex with
    outputVertices := vertex.outputVertices ++ atEnd edge.source name edge.destination
    outputEdges := vertex.outputEdges ++ atEnd edge.source name edge.id
    inputVertices := vertex.inputVertices ++ atEnd edge.destination name edge.source
    inputEdges := vertex.inputEdges ++ atEnd edge.destination name edge.id }

theorem record_vertex? (graph : JobGraph) (edge : Edge) (start goal : Nat) (name : String) :
    (graph.record edge start goal).vertex? name =
      (graph.vertex? name).map (linkEnds edge name) := by
  have looked : (graph.record edge start goal).vertex? name =
      ((graph.mapVertex edge.source (·.addOutgoing edge.destination edge.id)).mapVertex
        edge.destination (·.addIncoming edge.source edge.id)).vertex? name := rfl
  rw [looked, mapVertex_vertex?, mapVertex_vertex?, Option.map_map]
  congr 1
  funext vertex
  simp only [linkEnds, atEnd, Function.comp_apply, eq_comm (b := name)]
  by_cases source : name = edge.source
  · simp only [if_pos source, Vertex.addOutgoing]
    split <;> simp [Vertex.addIncoming]
  · simp only [if_neg source]
    split <;> simp [Vertex.addIncoming]

theorem record_frame (graph : JobGraph) (edge : Edge) (start goal : Nat) :
    (graph.record edge start goal).order = graph.order ∧
      (graph.record edge start goal).indices = graph.indices ∧
      (graph.record edge start goal).edges = graph.edges ++ [edge] ∧
      (graph.record edge start goal).network = graph.network.addArc start goal edge.id := by
  simp [record, mapVertex_frame]

/-- The edge is added to the same end of all lists that must tell of it. -/
theorem record_mirrored (graph : JobGraph) (edge : Edge) (mirrored : Mirrored graph)
    (source : edge.source ∈ graph.order) (destination : edge.destination ∈ graph.order) :
    Mirrored
      (graph.record edge (graph.position edge.source) (graph.position edge.destination)) := by
  generalize recorded : graph.record edge _ _ = after
  obtain ⟨order, indices, edges, network⟩ := record_frame graph edge
    (graph.position edge.source) (graph.position edge.destination)
  have looked := record_vertex? graph edge (graph.position edge.source)
    (graph.position edge.destination)
  rw [recorded] at order indices edges network looked
  constructor
  case names => exact order ▸ mirrored.names
  case indices =>
    intro name index
    rw [vertexIndex?, indices, order]
    exact mirrored.indices name index
  case ends =>
    intro other member
    rw [order]
    rw [edges] at member
    rcases List.mem_append.mp member with old | new
    · exact mirrored.ends other old
    · rw [List.mem_singleton.mp new]
      exact ⟨source, destination⟩
  case ledgers =>
    intro name
    rw [looked, order]
    cases found : graph.vertex? name with
    | none =>
        have unlisted : name ∉ graph.order := by
          rw [mirrored.known, found]
          exact Bool.false_ne_true
        rw [if_neg unlisted]
        rfl
    | some vertex =>
        obtain ⟨listed, told⟩ := mirrored.vertex name vertex found
        simp only [Vertex.links, ledger, Prod.mk.injEq] at told
        obtain ⟨named, ⟨outputs, out⟩, inputs, into⟩ := told
        rw [if_pos listed]
        simp only [Option.map_some, Vertex.links, linkEnds, ledger, edgesFrom, edgesInto, edges,
          named, outputs, out, inputs, into, List.filter_append, List.map_append]
        by_cases leaves : edge.source = name <;> by_cases enters : edge.destination = name <;>
          simp [leaves, enters, atEnd]
  case nodes => rw [network, order]; exact mirrored.nodes
  case arcs =>
    rw [network, edges, arcOf_congr order]
    simp [Digraph.addArc, mirrored.arcs, arcOf]

theorem addEdge_mirrored (graph : JobGraph) (edge : Edge) (mirrored : Mirrored graph) :
    Mirrored (graph.addEdge edge).1 := by
  apply addEdge_keeps Mirrored mirrored
  intro start goal checked
  obtain ⟨first, second, _⟩ := checkEdge_ok _ _ _ _ _ _ checked
  obtain ⟨left, rfl⟩ := mirrored.position_eq edge.source start first
  obtain ⟨right, rfl⟩ := mirrored.position_eq edge.destination goal second
  exact record_mirrored graph edge mirrored left right

theorem Mirrored.regroup {graph : JobGraph} (mirrored : Mirrored graph) (groups : List Group)
    (groupEdges : List GroupEdge) :
    Mirrored { graph with groups := groups, groupEdges := groupEdges } := by
  cases mirrored
  constructor <;> assumption

theorem handle_mirrored (graph : JobGraph) (request : Request) (mirrored : Mirrored graph) :
    Mirrored (graph.handle request).1 := by
  cases request with
  | foreignEdge edge => exact addEdge_mirrored graph edge mirrored
  | call mutation =>
      cases mutation with
      | addVertex vertex => exact addVertex_mirrored graph vertex mirrored
      | editVertex name edit => exact (editVertex_sameLinks graph name edit).mirrored mirrored
      | addEdge source destination property => exact addEdge_mirrored graph _ mirrored
      | createGroup name members =>
          exact (createGroup_sameLinks graph name members).mirrored mirrored
      | addGroupEdge edge =>
          exact addGroupEdge_keeps Mirrored edge (fun graph _ => addEdge_mirrored graph _)
            (fun _ groups groupEdges kept => kept.regroup groups groupEdges) graph mirrored

end JobGraph

end ElasticJob
