import ElasticJob.Proofs.Graph.Adjacency
import ElasticJob.Proofs.Graph.Reachability

/-!
The edges of the members of a group, all to one destination. All of them are checked against the
graph as it is, while each is recorded in a graph that the earlier ones have changed. Both come to
the same: an edge to the destination closes no way out of the destination, and its id is among the
pending ones. So recording cannot stop half way.
-/

namespace ElasticJob

namespace JobGraph

structure Wired (graph : JobGraph) : Prop where
  indices : ∀ name index, graph.vertexIndex? name = some index →
    index < graph.network.nodes.length
  arcs : ∀ arc ∈ graph.network.arcs, arc.target < graph.network.nodes.length

theorem create_wired (name : String) (policy : NamespacePolicy) : Wired (create name policy) := by
  constructor
  · intro name index found
    cases found
  · intro arc listed
    cases listed

theorem SameLinks.wired {before after : JobGraph} (same : SameLinks before after)
    (wired : Wired before) : Wired after := by
  constructor
  · intro name index found
    rw [vertexIndex?, same.indices] at found
    rw [same.network]
    exact wired.indices name index found
  · rw [same.network]
    exact wired.arcs

theorem addVertex_wired (graph : JobGraph) (vertex : Vertex) (wired : Wired graph) :
    Wired (graph.addVertex vertex).1 := by
  rcases addVertex_cases graph vertex with ⟨_, refused⟩ | ⟨_, _, _, added⟩
  · rw [refused]
    exact wired
  · rw [added]
    constructor
    · intro name index found
      simp only [vertexIndex?, done, SortedMap.get?_insert] at found
      simp only [done, Digraph.addNode, List.length_append, List.length_singleton]
      split at found
      · cases found
        exact Nat.lt_succ_self _
      · exact Nat.lt_succ_of_lt (wired.indices name index found)
    · intro arc listed
      simp only [done, Digraph.addNode, List.length_append, List.length_singleton]
      exact Nat.lt_succ_of_lt (wired.arcs arc listed)

theorem record_vertexIndex? (graph : JobGraph) (edge : Edge) (start goal : Nat) (name : String) :
    (graph.record edge start goal).vertexIndex? name = graph.vertexIndex? name := by
  simp [vertexIndex?, record_frame]

theorem record_wired (graph : JobGraph) (edge : Edge) (start goal : Nat) (wired : Wired graph)
    (bound : goal < graph.network.nodes.length) : Wired (graph.record edge start goal) := by
  obtain ⟨_, _, _, network⟩ := record_frame graph edge start goal
  constructor
  · intro name index found
    rw [record_vertexIndex?] at found
    rw [network]
    exact wired.indices name index found
  · rw [network]
    intro arc listed
    rcases List.mem_append.mp listed with old | new
    · exact wired.arcs arc old
    · rw [List.mem_singleton.mp new]
      exact bound

theorem addEdge_wired (graph : JobGraph) (edge : Edge) (wired : Wired graph) :
    Wired (graph.addEdge edge).1 := by
  apply addEdge_keeps Wired wired
  intro start goal checked
  obtain ⟨_, found, _⟩ := checkEdge_ok _ _ _ _ _ _ checked
  exact record_wired graph edge start goal wired (wired.indices _ goal found)

theorem handle_wired (graph : JobGraph) (request : Request) (wired : Wired graph) :
    Wired (graph.handle request).1 := by
  cases request with
  | foreignEdge edge => exact addEdge_wired graph edge wired
  | call mutation =>
      cases mutation with
      | addVertex vertex => exact addVertex_wired graph vertex wired
      | editVertex name edit => exact (editVertex_sameLinks graph name edit).wired wired
      | addEdge source destination property => exact addEdge_wired graph _ wired
      | createGroup name members => exact (createGroup_sameLinks graph name members).wired wired
      | addGroupEdge edge =>
          exact addGroupEdge_keeps Wired edge (fun graph _ => addEdge_wired graph _)
            (fun _ _ _ kept => ⟨kept.indices, kept.arcs⟩) graph wired

theorem record_edge?_isSome (graph : JobGraph) (edge : Edge) (start goal : Nat) (id : EdgeId) :
    ((graph.record edge start goal).edge? id).isSome ↔
      (graph.edge? id).isSome ∨ id = edge.id := by
  simp [edge?, record_frame, eq_comm (a := id)]

section Members

variable {graph : JobGraph} {destination : String} {property : EdgeProperty}

/-- An edge that is recorded counts for later edges to its destination just as it did while it was
pending. -/
theorem Wired.checkEdge_record (wired : Wired graph) {first : String} {start goal : Nat}
    (checked : graph.checkEdge first destination [] = .ok (start, goal)) (member : String)
    (pending : List EdgeId) :
    (graph.record (.between first destination property) start goal).checkEdge member destination
        pending =
      graph.checkEdge member destination (⟨first, destination⟩ :: pending) := by
  obtain ⟨_, found, _, _, _, apart⟩ := checkEdge_ok _ _ _ _ _ _ checked
  have bound := wired.indices _ goal found
  simp only [checkEdge, record_vertexIndex?, found]
  cases graph.vertexIndex? member with
  | none => rfl
  | some index =>
      have known : ((⟨member, destination⟩ : EdgeId) ∈ pending ∨
          ((graph.record (.between first destination property) start goal).edge?
            ⟨member, destination⟩).isSome) ↔
          (⟨member, destination⟩ : EdgeId) ∈ (⟨first, destination⟩ :: pending) ∨
            (graph.edge? ⟨member, destination⟩).isSome := by
        rw [record_edge?_isSome, List.mem_cons, Edge.between]
        tauto
      have network := (record_frame graph (.between first destination property) start goal).2.2.2
      have path := Digraph.hasPath_addArc wired.arcs bound
        (Edge.between first destination property).id apart index
      dsimp only
      rw [network, path]
      exact if_congr known rfl rfl

theorem Wired.checkMemberEdges_record (wired : Wired graph) {first : String} {start goal : Nat}
    (checked : graph.checkEdge first destination [] = .ok (start, goal)) (members : List String)
    (pending : List EdgeId) :
    (graph.record (.between first destination property) start goal).checkMemberEdges destination
        pending members =
      graph.checkMemberEdges destination (⟨first, destination⟩ :: pending) members := by
  induction members generalizing pending with
  | nil => rfl
  | cons member rest ih =>
      simp only [checkMemberEdges, wired.checkEdge_record checked, ih, List.cons_append]

end Members

/-- Recording the edges one after the other fails where checking all of them at once fails, and with
the same error. -/
theorem addMemberEdges_outcome (destination : String) (property : EdgeProperty)
    (members : List String) (graph : JobGraph) (wired : Wired graph) :
    (addMemberEdges destination property graph members).2 =
      graph.checkMemberEdges destination [] members := by
  induction members generalizing graph with
  | nil => rfl
  | cons member rest ih =>
      simp only [addMemberEdges, checkMemberEdges, insertEdge_eq, Edge.between]
      cases checked : graph.checkEdge member destination [] with
      | error error => rfl
      | ok ends =>
          obtain ⟨start, goal⟩ := ends
          obtain ⟨_, found, _⟩ := checkEdge_ok _ _ _ _ _ _ checked
          have recorded := record_wired graph (.between member destination property) start goal
            wired (wired.indices _ goal found)
          exact (ih _ recorded).trans (wired.checkMemberEdges_record checked rest [])

theorem checkMemberEdges_ok (graph : JobGraph) (destination : String) (members : List String)
    (pending : List EdgeId)
    (checked : graph.checkMemberEdges destination pending members = .ok ()) :
    ∀ member ∈ members, member ≠ destination ∧ graph.edge? ⟨member, destination⟩ = none := by
  induction members generalizing pending with
  | nil => simp
  | cons first rest ih =>
      simp only [checkMemberEdges] at checked
      split at checked
      · cases checked
      · rename_i ends passed
        obtain ⟨left, right, _, fresh, apart, _⟩ := checkEdge_ok _ _ _ _ _ _ passed
        intro member listed
        rcases List.mem_cons.mp listed with rfl | later
        · refine ⟨?_, fresh⟩
          rintro rfl
          exact apart (Option.some.inj (left.symm.trans right))
        · exact ih _ checked member later

theorem addMemberEdges_edges (destination : String) (property : EdgeProperty)
    (members : List String) (graph connected : JobGraph)
    (added : addMemberEdges destination property graph members = (connected, .ok ())) :
    connected.edges =
      graph.edges ++ members.map fun member => .between member destination property := by
  induction members generalizing graph with
  | nil =>
      cases added
      simp
  | cons member rest ih =>
      simp only [addMemberEdges, insertEdge_eq_addEdge] at added
      rcases addEdge_cases graph (.between member destination property) with
        ⟨_, _, refused⟩ | ⟨start, goal, _, recorded⟩
      · rw [refused] at added
        cases added
      · rw [recorded] at added
        rw [ih _ added, (record_frame graph _ start goal).2.2.1]
        simp

theorem Wired.addGroupEdge_cases {graph : JobGraph} (wired : Wired graph) (edge : GroupEdge) :
    ((∃ error, graph.addGroupEdge edge = graph.refuse error) ∧
      ∀ group, graph.group? edge.group = some group →
        graph.checkMemberEdges edge.destination [] group.members ≠ .ok ()) ∨
    ∃ group connected, graph.group? edge.group = some group ∧
      graph.checkMemberEdges edge.destination [] group.members = .ok () ∧
      graph.addMemberEdges edge.destination edge.property group.members = (connected, .ok ()) ∧
      graph.addGroupEdge edge = done
        { connected.putGroup (group.addOutput edge.destination edge.merged) with
          groupEdges := connected.groupEdges ++ [edge] } := by
  unfold addGroupEdge
  cases found : graph.group? edge.group with
  | none =>
      left
      refine ⟨⟨_, rfl⟩, ?_⟩
      rintro group ⟨⟩
  | some group =>
      by_cases loop : edge.destination ∈ group.members
      · left
        refine ⟨⟨_, if_pos loop⟩, ?_⟩
        rintro _ ⟨⟩ checked
        exact (checkMemberEdges_ok graph _ _ _ checked _ loop).1 rfl
      · simp only [if_neg loop]
        cases checked : graph.checkMemberEdges edge.destination [] group.members with
        | error error =>
            left
            refine ⟨⟨error, rfl⟩, ?_⟩
            rintro _ ⟨⟩
            simp [checked]
        | ok _ =>
            have passed : (graph.addMemberEdges edge.destination edge.property group.members).2 =
                .ok () := (addMemberEdges_outcome _ _ group.members graph wired).trans checked
            right
            cases added : graph.addMemberEdges edge.destination edge.property group.members with
            | mk connected outcome =>
                rw [added] at passed
                cases passed
                exact ⟨group, connected, rfl, checked, added, rfl⟩

end JobGraph

end ElasticJob
