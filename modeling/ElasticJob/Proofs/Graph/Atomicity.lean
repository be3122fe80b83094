import ElasticJob.Proofs.Graph.Groups

/-!
All or nothing. A request that a graph refuses leaves the graph as it was, since nothing is recorded
before everything is checked, and what has passed its check is recorded to the end. So a group edge
does what the edges of its members do in turn, and fails where one of them fails.
-/

namespace ElasticJob

namespace JobGraph

theorem mutateAll_addEdges (destination : String) (property : EdgeProperty)
    (members : List String) (graph : JobGraph) :
    graph.mutateAll (members.map fun member => .addEdge member destination property) =
      addMemberEdges destination property graph members := by
  induction members generalizing graph with
  | nil => rfl
  | cons member rest ih =>
      simp only [List.map_cons, mutateAll, mutate, addMemberEdges, insertEdge_eq_addEdge]
      cases graph.addEdge (.between member destination property) with
      | mk connected outcome =>
          cases outcome with
          | error error => rfl
          | ok _ => exact ih connected

/-- Every request is refused before it changes anything, or carried out. -/
theorem handle_cases {graph : JobGraph} (wired : Wired graph) (grouped : Grouped graph)
    (request : Request) :
    (∃ error, graph.handle request = graph.refuse error) ∨
      ∃ after, graph.handle request = done after := by
  have added : ∀ edge, (∃ error, graph.addEdge edge = graph.refuse error) ∨
      ∃ after, graph.addEdge edge = done after := by
    intro edge
    rcases addEdge_cases graph edge with ⟨_, _, refused⟩ | ⟨_, _, _, recorded⟩
    · exact .inl ⟨_, refused⟩
    · exact .inr ⟨_, recorded⟩
  cases request with
  | foreignEdge edge => exact added edge
  | call mutation =>
      cases mutation with
      | addVertex vertex =>
          rcases addVertex_cases graph vertex with refused | ⟨_, _, _, appended⟩
          · exact .inl refused
          · exact .inr ⟨_, appended⟩
      | editVertex name edit =>
          rcases editVertex_cases graph name edit with refused | absent | ⟨_, _, _, _, replaced⟩
          · exact .inl refused
          · exact .inr ⟨_, absent⟩
          · exact .inr ⟨_, replaced⟩
      | addEdge source destination property => exact added _
      | createGroup name members =>
          rcases grouped.createGroup_cases name members with refused | ⟨_, _, _, created⟩
          · exact .inl refused
          · exact .inr ⟨_, created⟩
      | addGroupEdge edge =>
          rcases wired.addGroupEdge_cases edge with ⟨refused, _⟩ | ⟨_, _, _, _, _, recorded⟩
          · exact .inl refused
          · exact .inr ⟨_, recorded⟩

/-- A group edge is recorded exactly where the edges of its members could be added in turn, and then
the graph differs from the one they leave behind in the edge and in what its group tells of it. -/
theorem group_edge_adds_member_edges (name : String) (policy : NamespacePolicy)
    (requests : List Request) (edge : GroupEdge) (group : Group)
    (found : ((create name policy).handleAll requests).group? edge.group = some group) :
    let graph := (create name policy).handleAll requests
    let inTurn := graph.mutateAll (group.members.map fun member =>
      .addEdge member edge.destination edge.property)
    ((graph.addGroupEdge edge).2 = .ok () ↔ inTurn.2 = .ok ()) ∧
      ((graph.addGroupEdge edge).2 = .ok () → ∃ earlier later,
        inTurn.1.groups = earlier ++ group :: later ∧
          (graph.addGroupEdge edge).1 = { inTurn.1 with
            groups := earlier ++ { group with
              outputs := group.outputs ++ [edge.destination]
              mergedInputs := group.mergedInputs.insert edge.destination edge.merged } :: later
            groupEdges := inTurn.1.groupEdges ++ [edge] }) := by
  intro graph inTurn
  obtain ⟨wired, grouped⟩ := handleAll_sound name policy requests
  have sequence : inTurn = graph.addMemberEdges edge.destination edge.property group.members :=
    mutateAll_addEdges _ _ _ _
  have outcome := addMemberEdges_outcome edge.destination edge.property group.members graph wired
  rw [sequence, outcome]
  rcases wired.addGroupEdge_cases edge with
    ⟨⟨_, refused⟩, unchecked⟩ | ⟨other, connected, same, checked, added, recorded⟩
  · rw [refused]
    constructor
    · constructor
      · rintro ⟨⟩
      · intro checked
        exact absurd checked (unchecked group found)
    · rintro ⟨⟩
  · obtain rfl : group = other := Option.some.inj (found.symm.trans same)
    constructor
    · rw [recorded, done]
      exact ⟨fun _ => checked, fun _ => rfl⟩
    · intro _
      have kept := addMemberEdges_keepsGroups graph edge.destination edge.property group.members
      rw [added] at kept
      have listed : group ∈ connected.groups :=
        kept.groups ▸ (group?_eq_some graph edge.group group found).1
      obtain ⟨earlier, later, before, after, _⟩ := (kept.grouped grouped).putGroup_split listed
        (rfl : (group.addOutput edge.destination edge.merged).name = group.name)
      refine ⟨earlier, later, by rw [added, before], ?_⟩
      rw [recorded, added]
      simp only [done, after]
      rfl

/-- The members are given in the order against their own edge. -/
theorem paired_ends_add_two_edges :
    let stage := fun (name : String) =>
      ({ name := name, processor := ⟨"Step", none⟩, parallelism := .fixed 1
         resource := ⟨64, 1⟩ } : Vertex)
    let property : EdgeProperty :=
      ⟨.scatterGather, .persisted, .sequential, ⟨"Out", none⟩, ⟨"In", none⟩, none⟩
    let graph := (create "ends" .shared).handleAll
      [.call (.addVertex (stage "first")), .call (.addVertex (stage "last")),
        .call (.addVertex (stage "sink")), .call (.addEdge "first" "last" property),
        .call (.createGroup "pair" ["last", "first"])]
    let edge : GroupEdge := ⟨"pair", "sink", property, ⟨"Merge", none⟩⟩
    graph.group? "pair" = some { name := "pair", members := ["last", "first"] } ∧
      (graph.mutateAll [.addEdge "last" "sink" property, .addEdge "first" "sink" property]).2 =
        .ok () ∧
      (graph.addGroupEdge edge).1.edges.map (·.id) =
        [⟨"first", "last"⟩, ⟨"last", "sink"⟩, ⟨"first", "sink"⟩] := by
  intro stage property graph edge
  have found : graph.group? "pair" = some { name := "pair", members := ["last", "first"] } := by
    decide +kernel
  have accepted : (graph.addGroupEdge edge).2 = .ok () := by
    decide +kernel
  obtain ⟨both, extended⟩ := group_edge_adds_member_edges "ends" .shared _ edge _ found
  obtain ⟨_, _, _, result⟩ := extended accepted
  refine ⟨found, both.mp accepted, ?_⟩
  rw [result]
  dsimp only
  decide +kernel

/-- A refused request changes nothing, since no loop over members stops once it has begun. -/
theorem refused_request_changes_nothing (name : String) (policy : NamespacePolicy)
    (requests : List Request) :
    let graph := (create name policy).handleAll requests
    (∀ request error, (graph.handle request).2 = .error error →
      (graph.handle request).1 = graph) ∧
    (∀ group members, graph.checkGroup group members = .ok () →
      (markMembers ⟨group, members⟩ graph members).2 = .ok ()) ∧
    ∀ (edge : GroupEdge) (group : Group), graph.group? edge.group = some group →
      graph.checkMemberEdges edge.destination [] group.members = .ok () →
      (graph.addMemberEdges edge.destination edge.property group.members).2 = .ok () := by
  intro graph
  obtain ⟨wired, grouped⟩ := handleAll_sound name policy requests
  refine ⟨fun request error refused => ?_, fun group members checked => ?_,
    fun edge group _ checked => ?_⟩
  · rcases handle_cases wired grouped request with ⟨_, unchanged⟩ | ⟨_, changed⟩
    · rw [unchanged, refuse]
    · rw [changed] at refused
      cases refused
  · obtain ⟨_, marked, _⟩ := grouped.markMembers_ok group members checked
    rw [marked, done]
  · rw [addMemberEdges_outcome _ _ _ _ wired, checked]

/-- The edge of the first member alone would be fine; that of the second closes a cycle. Members of
another group and edges to another destination pass their checks. -/
theorem cyclic_member_leaves_no_edge :
    let stage := fun (name : String) =>
      ({ name := name, processor := ⟨"Step", none⟩, parallelism := .fixed 1
         resource := ⟨64, 1⟩ } : Vertex)
    let property : EdgeProperty :=
      ⟨.scatterGather, .persisted, .sequential, ⟨"Out", none⟩, ⟨"In", none⟩, none⟩
    let graph := (create "ring" .shared).handleAll
      [.call (.addVertex (stage "one")), .call (.addVertex (stage "two")),
        .call (.addVertex (stage "three")), .call (.addVertex (stage "sink")),
        .call (.addEdge "two" "three" property), .call (.createGroup "pair" ["one", "three"])]
    let request : Request := .call (.addGroupEdge ⟨"pair", "two", property, ⟨"Merge", none⟩⟩)
    (graph.addEdge (.between "one" "two" property)).2 = .ok () ∧
      (graph.handle request).2 = .error (.wouldCycle "three" "two") ∧
      (graph.handle request).1 = graph ∧
      (markMembers ⟨"others", ["two", "one"]⟩ graph ["two", "one"]).2 = .ok () ∧
      (graph.addMemberEdges "sink" property ["one", "three"]).2 = .ok () := by
  intro stage property graph request
  obtain ⟨unchanged, marked, connected⟩ := refused_request_changes_nothing "ring" .shared
    [.call (.addVertex (stage "one")), .call (.addVertex (stage "two")),
      .call (.addVertex (stage "three")), .call (.addVertex (stage "sink")),
      .call (.addEdge "two" "three" property), .call (.createGroup "pair" ["one", "three"])]
  have refused : (graph.handle request).2 = .error (.wouldCycle "three" "two") := by
    decide +kernel
  refine ⟨by decide +kernel, refused, unchanged request _ refused, ?_, ?_⟩
  · exact marked "others" ["two", "one"] (by decide +kernel)
  · exact connected ⟨"pair", "sink", property, ⟨"Merge", none⟩⟩
      { name := "pair", members := ["one", "three"] } (by decide +kernel) (by decide +kernel)

end JobGraph

end ElasticJob
