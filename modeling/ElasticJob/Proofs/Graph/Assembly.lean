import ElasticJob.Graph.JobGraph

/-!
A graph under assembly: the calls a client makes on it, in any order and with any arguments, and
what the helpers of these calls do to the vertices. Names stand for positions: the index of a name
in the order of names is the node of that vertex in the network. What every added edge keeps, an
edge of a group keeps.
-/

namespace ElasticJob

inductive Mutation where
  | addVertex (vertex : Vertex)
  | editVertex (name : String) (edit : VertexEdit)
  | addEdge (source destination : String) (property : EdgeProperty)
  | createGroup (name : String) (members : List String)
  | addGroupEdge (edge : GroupEdge)

/-- A call, or one that adds an edge read from outside: its id need not tell its ends, and then the
pair is not known as recorded. -/
inductive Request where
  | call (mutation : Mutation)
  | foreignEdge (edge : Edge)

namespace JobGraph

def mutate (graph : JobGraph) : Mutation → Attempt
  | .addVertex vertex => graph.addVertex vertex
  | .editVertex name edit => graph.editVertex name edit
  | .addEdge source destination property => graph.addEdge (.between source destination property)
  | .createGroup name members => graph.createGroup name members
  | .addGroupEdge edge => graph.addGroupEdge edge

/-- The graph that a sequence of calls leaves behind, refused ones among them. Every edge in it is
made from its two ends. Calls that add edges read from outside are run by `handleAll`. -/
def assemble (graph : JobGraph) (mutations : List Mutation) : JobGraph :=
  mutations.foldl (fun current mutation => (current.mutate mutation).1) graph

def mutateAll (graph : JobGraph) : List Mutation → Attempt
  | [] => graph.done
  | mutation :: rest =>
      match graph.mutate mutation with
      | (changed, .ok ()) => changed.mutateAll rest
      | (changed, .error error) => changed.refuse error

def handle (graph : JobGraph) : Request → Attempt
  | .call mutation => graph.mutate mutation
  | .foreignEdge edge => graph.addEdge edge

def handleAll (graph : JobGraph) (requests : List Request) : JobGraph :=
  requests.foldl (fun current request => (current.handle request).1) graph

def position (graph : JobGraph) (name : String) : Nat :=
  graph.order.idxOf name

theorem putVertex_vertex? (graph : JobGraph) (name other : String) (vertex : Vertex) :
    (graph.putVertex name vertex).vertex? other =
      if other = name then some vertex else graph.vertex? other := by
  by_cases same : other = name
  · simp [putVertex, vertex?, same]
  · simp [putVertex, vertex?, same, SortedMap.get?_insert_ne _ _ same]

theorem putVertex_map {α : Type} (view : Vertex → α) {graph : JobGraph} {name : String}
    {vertex edited : Vertex} (found : graph.vertex? name = some vertex)
    (same : view edited = view vertex) (other : String) :
    ((graph.putVertex name edited).vertex? other).map view = (graph.vertex? other).map view := by
  rw [putVertex_vertex?]
  by_cases here : other = name
  · simp [here, found, same]
  · simp [here]

theorem mapVertex_vertex? (graph : JobGraph) (name other : String) (change : Vertex → Vertex) :
    (graph.mapVertex name change).vertex? other =
      (graph.vertex? other).map fun vertex => if other = name then change vertex else vertex := by
  unfold mapVertex
  cases found : graph.vertex? name with
  | none =>
      by_cases same : other = name
      · simp [same, found]
      · simp [same]
  | some vertex =>
      rw [putVertex_vertex?]
      by_cases same : other = name
      · simp [same, found]
      · simp [same]

theorem mapVertex_frame (graph : JobGraph) (name : String) (change : Vertex → Vertex) :
    (graph.mapVertex name change).order = graph.order ∧
      (graph.mapVertex name change).indices = graph.indices ∧
      (graph.mapVertex name change).edges = graph.edges ∧
      (graph.mapVertex name change).network = graph.network := by
  unfold mapVertex
  split <;> exact ⟨rfl, rfl, rfl, rfl⟩

theorem addVertex_cases (graph : JobGraph) (vertex : Vertex) :
    (∃ error, graph.addVertex vertex = graph.refuse error) ∨
      graph.vertex? vertex.name = none ∧
        (graph.policy = .shared → graph.group? vertex.name = none) ∧
        vertex.isConnected = false ∧
        graph.addVertex vertex = done { graph with
          order := graph.order ++ [vertex.name]
          stored := graph.stored.insert vertex.name vertex
          indices := graph.indices.insert vertex.name graph.network.nodes.length
          network := graph.network.addNode vertex.name } := by
  unfold addVertex
  split
  · exact .inl ⟨_, rfl⟩
  · rename_i unknown
    split
    · exact .inl ⟨_, rfl⟩
    · rename_i apart
      split
      · exact .inl ⟨_, rfl⟩
      · rename_i free
        refine .inr ⟨by simpa using unknown, fun shared => ?_, by simpa using free, rfl⟩
        simpa [shared] using apart

theorem editVertex_cases (graph : JobGraph) (name : String) (edit : VertexEdit) :
    (∃ error, graph.editVertex name edit = graph.refuse error) ∨
      graph.editVertex name edit = graph.done ∨
      ∃ vertex edited, graph.vertex? name = some vertex ∧ vertex.edit edit = .ok edited ∧
        graph.editVertex name edit = done (graph.putVertex name edited) := by
  unfold editVertex
  split
  · exact .inr (.inl rfl)
  · rename_i vertex found
    split
    next edited result => exact .inr (.inr ⟨vertex, edited, found, result, rfl⟩)
    next => exact .inl ⟨_, rfl⟩

theorem editVertex_keeps (keeps : JobGraph → Prop) {graph : JobGraph} (holds : keeps graph)
    (name : String) (edit : VertexEdit)
    (step : ∀ vertex edited, graph.vertex? name = some vertex → vertex.edit edit = .ok edited →
      keeps (graph.putVertex name edited)) :
    keeps (graph.editVertex name edit).1 := by
  rcases editVertex_cases graph name edit with
    ⟨_, refused⟩ | absent | ⟨vertex, edited, found, result, replaced⟩
  · rw [refused]
    exact holds
  · rw [absent]
    exact holds
  · rw [replaced]
    exact step vertex edited found result

theorem checkEdge_ok (graph : JobGraph) (source destination : String) (pending : List EdgeId)
    (start goal : Nat) (checked : graph.checkEdge source destination pending = .ok (start, goal)) :
    graph.vertexIndex? source = some start ∧ graph.vertexIndex? destination = some goal ∧
      (⟨source, destination⟩ : EdgeId) ∉ pending ∧
      graph.edge? ⟨source, destination⟩ = none ∧
      start ≠ goal ∧ graph.network.hasPath goal start = false := by
  unfold checkEdge at checked
  split at checked
  · cases checked
  · cases checked
  · rename_i i j left right
    dsimp only at checked
    split at checked
    · cases checked
    · rename_i fresh
      split at checked
      · cases checked
      · rename_i acyclic
        cases checked
        simp only [not_or, Bool.not_eq_true, Option.isSome_eq_false_iff, Option.isNone_iff_eq_none]
          at fresh acyclic
        exact ⟨left, right, fresh.1, fresh.2, acyclic.1, acyclic.2⟩

/-- The network has nothing to object to an edge that passed the check. -/
theorem insertEdge_eq (graph : JobGraph) (edge : Edge) :
    graph.insertEdge edge =
      match graph.checkEdge edge.source edge.destination [] with
      | .error error => graph.refuse error
      | .ok (start, goal) => done (graph.record edge start goal) := by
  unfold insertEdge
  cases checked : graph.checkEdge edge.source edge.destination [] with
  | error error => rfl
  | ok ends =>
      obtain ⟨start, goal⟩ := ends
      obtain ⟨_, _, _, _, distinct, apart⟩ := checkEdge_ok _ _ _ _ _ _ checked
      exact if_neg (by simp [distinct, apart])

theorem insertEdge_eq_addEdge (graph : JobGraph) (edge : Edge) :
    graph.insertEdge edge = graph.addEdge edge := by
  unfold addEdge
  split
  next error checked => rw [insertEdge_eq, checked]
  next => rfl

theorem addEdge_cases (graph : JobGraph) (edge : Edge) :
    (∃ error, graph.checkEdge edge.source edge.destination [] = .error error ∧
        graph.addEdge edge = graph.refuse error) ∨
      ∃ start goal, graph.checkEdge edge.source edge.destination [] = .ok (start, goal) ∧
        graph.addEdge edge = done (graph.record edge start goal) := by
  rw [← insertEdge_eq_addEdge, insertEdge_eq]
  cases graph.checkEdge edge.source edge.destination [] with
  | error error => exact .inl ⟨error, rfl, rfl⟩
  | ok ends => exact .inr ⟨ends.1, ends.2, rfl, rfl⟩

theorem addEdge_keeps (keeps : JobGraph → Prop) {graph : JobGraph} (holds : keeps graph)
    (edge : Edge)
    (step : ∀ start goal, graph.checkEdge edge.source edge.destination [] = .ok (start, goal) →
      keeps (graph.record edge start goal)) :
    keeps (graph.addEdge edge).1 := by
  rcases addEdge_cases graph edge with ⟨_, _, refused⟩ | ⟨start, goal, checked, added⟩
  · rw [refused]
    exact holds
  · rw [added]
    exact step start goal checked

theorem addMemberEdges_keeps (keeps : JobGraph → Prop) (destination : String)
    (property : EdgeProperty)
    (step : ∀ graph member, keeps graph →
      keeps (graph.addEdge (.between member destination property)).1)
    (members : List String) (graph : JobGraph) (holds : keeps graph) :
    keeps (addMemberEdges destination property graph members).1 := by
  induction members generalizing graph with
  | nil => exact holds
  | cons member rest ih =>
      have added := step graph member holds
      simp only [addMemberEdges, insertEdge_eq_addEdge]
      split
      next connected result =>
        rw [result] at added
        exact ih connected added
      next connected error result =>
        rw [result] at added
        exact added

theorem addGroupEdge_keeps (keeps : JobGraph → Prop) (edge : GroupEdge)
    (step : ∀ graph member, keeps graph →
      keeps (graph.addEdge (.between member edge.destination edge.property)).1)
    (regroup : ∀ (graph : JobGraph) groups groupEdges, keeps graph →
      keeps { graph with groups := groups, groupEdges := groupEdges })
    (graph : JobGraph) (holds : keeps graph) : keeps (graph.addGroupEdge edge).1 := by
  unfold addGroupEdge
  split
  · exact holds
  · rename_i group _
    split
    · exact holds
    · split
      · exact holds
      · have added := addMemberEdges_keeps keeps _ _ step group.members graph holds
        split
        next connected error result =>
          rw [result] at added
          exact added
        next connected result =>
          rw [result] at added
          exact regroup connected _ _ added

end JobGraph

end ElasticJob
