import ElasticJob.Proofs.Graph.Groups
import ElasticJob.Proofs.Graph.TopologicalOrder
import ElasticJob.Proofs.Graph.Verification

/-!
What verification decides of a graph that requests have built, said of its vertices by name and of
the list of its edges. Every stored vertex is looked at, since the order of names tells them all;
the neighbours that a vertex has on record are those that the edges name; and the list of edges
holds those of the members of every group.
-/

namespace ElasticJob

theorem SortedMap.isEmpty_eq_false_iff {κ : Type} {ν : Type} [KeyOrder κ] {map : SortedMap κ ν} :
    map.isEmpty = false ↔ ∃ key, (map.get? key).isSome := by
  simp only [isEmpty, List.isEmpty_eq_false_iff_exists_mem, Option.isSome_iff_exists,
    get?_eq_some_iff, Prod.exists]

namespace JobGraph

def Expands (graph : JobGraph) (edge : GroupEdge) : Prop :=
  ∃ group ∈ graph.groups, group.name = edge.group ∧
    ∀ member ∈ group.members, .between member edge.destination edge.property ∈ graph.edges

theorem Expands.mono {before after : JobGraph} {edge : GroupEdge} (expands : before.Expands edge)
    (groups : ∀ group ∈ before.groups, ∃ kept ∈ after.groups,
      kept.name = group.name ∧ kept.members = group.members)
    (edges : before.edges ⊆ after.edges) : after.Expands edge := by
  obtain ⟨group, listed, name, joined⟩ := expands
  obtain ⟨kept, stored, sameName, sameMembers⟩ := groups group listed
  exact ⟨kept, stored, sameName.trans name,
    fun member inside => edges (joined member (sameMembers ▸ inside))⟩

theorem KeepsGroups.expands {before after : JobGraph} (same : KeepsGroups before after)
    (expands : ∀ edge ∈ before.groupEdges, before.Expands edge) :
    ∀ edge ∈ after.groupEdges, after.Expands edge := by
  intro edge listed
  refine (expands edge (same.groupEdges ▸ listed)).mono (fun group stored => ?_) same.edges
  exact ⟨group, same.groups ▸ stored, rfl, rfl⟩

theorem Grouped.putGroup_members {graph : JobGraph} (grouped : Grouped graph) {group : Group}
    (listed : group ∈ graph.groups) (destination : String) (merged : Descriptor .input) :
    ∀ old ∈ graph.groups, ∃ kept ∈ (graph.putGroup (group.addOutput destination merged)).groups,
      kept.name = old.name ∧ kept.members = old.members := by
  intro old stored
  refine ⟨_, List.mem_map_of_mem stored, ?_⟩
  split
  next same =>
    obtain rfl : old = group := List.inj_on_of_nodup_map grouped.names stored listed same
    exact ⟨rfl, rfl⟩
  next => exact ⟨rfl, rfl⟩

theorem addGroupEdge_expands {graph : JobGraph} (wired : Wired graph) (grouped : Grouped graph)
    (expands : ∀ edge ∈ graph.groupEdges, graph.Expands edge) (added : GroupEdge) :
    ∀ edge ∈ (graph.addGroupEdge added).1.groupEdges,
      (graph.addGroupEdge added).1.Expands edge := by
  rcases wired.addGroupEdge_cases added with
    ⟨⟨_, refused⟩, _⟩ | ⟨group, connected, found, _, joined, recorded⟩
  · rw [refused]
    exact expands
  · obtain ⟨listed, name⟩ := group?_eq_some graph added.group group found
    have kept : KeepsGroups graph connected := by
      have whole := addMemberEdges_keepsGroups graph added.destination added.property group.members
      rwa [joined] at whole
    have members := (kept.grouped grouped).putGroup_members (kept.groups ▸ listed)
      added.destination added.merged
    rw [recorded]
    intro edge told
    rcases List.mem_append.mp told with old | new
    · exact (kept.expands expands edge old).mono members (List.Subset.refl _)
    · -- the members' edges were recorded before the group took its new output
      obtain rfl := List.mem_singleton.mp new
      have whole : connected.Expands edge := by
        refine ⟨group, kept.groups ▸ listed, name, fun member inside => ?_⟩
        rw [addMemberEdges_edges _ _ _ _ _ joined]
        exact List.mem_append_right _ (List.mem_map_of_mem inside)
      exact whole.mono members (List.Subset.refl _)

theorem handle_expands {graph : JobGraph} (wired : Wired graph) (grouped : Grouped graph)
    (expands : ∀ edge ∈ graph.groupEdges, graph.Expands edge) (request : Request) :
    ∀ edge ∈ (graph.handle request).1.groupEdges, (graph.handle request).1.Expands edge := by
  cases request with
  | foreignEdge edge => exact (addEdge_keepsGroups graph edge).expands expands
  | call mutation =>
      cases mutation with
      | addVertex vertex =>
          rw [handle, mutate]
          rcases addVertex_cases graph vertex with ⟨_, refused⟩ | ⟨_, _, _, added⟩
          · rw [refused]
            exact expands
          · rw [added]
            exact expands
      | editVertex name edit => exact (editVertex_keepsGroups graph name edit).expands expands
      | addEdge source destination property =>
          exact (addEdge_keepsGroups graph _).expands expands
      | createGroup name members =>
          rw [handle, mutate]
          rcases grouped.createGroup_cases name members with ⟨_, refused⟩ | ⟨_, _, _, created⟩
          · rw [refused]
            exact expands
          · rw [created]
            intro edge listed
            refine (expands edge listed).mono (fun group stored => ?_) (List.Subset.refl _)
            exact ⟨group, List.mem_append_left _ stored, rfl, rfl⟩
      | addGroupEdge edge => exact addGroupEdge_expands wired grouped expands edge

theorem create_expands (name : String) (policy : NamespacePolicy) :
    ∀ edge ∈ (create name policy).groupEdges, (create name policy).Expands edge := by
  intro edge listed
  cases listed

theorem handleAll_expands (name : String) (policy : NamespacePolicy) (requests : List Request) :
    ∀ edge ∈ ((create name policy).handleAll requests).groupEdges,
      ((create name policy).handleAll requests).Expands edge := by
  have run := List.foldlRecOn requests (fun current request => (current.handle request).1)
    (motive := fun graph => (Wired graph ∧ Grouped graph) ∧
      ∀ edge ∈ graph.groupEdges, graph.Expands edge)
    ⟨⟨create_wired name policy, create_grouped name policy⟩, create_expands name policy⟩
    fun graph ⟨⟨wired, grouped⟩, expands⟩ request _ =>
      ⟨⟨handle_wired graph request wired, handle_grouped graph request wired grouped⟩,
        handle_expands wired grouped expands request⟩
  exact run.2

/-- What a graph must meet: its vertices each on their own, and against the ends of the edges. -/
structure WellFormed (graph : JobGraph) : Prop where
  inhabited : ∃ name, (graph.vertex? name).isSome
  /-- A manager or an initializer decides what is deferred. -/
  decided : ∀ name vertex, graph.vertex? name = some vertex → vertex.parallelism = .deferred →
    vertex.manager.isSome ∨ ∃ input ∈ vertex.inputs, input.initializer.isSome
  /-- Hints name a place for each of a fixed number of tasks. -/
  covered : ∀ name vertex, graph.vertex? name = some vertex → ∀ hints, vertex.hints = some hints →
    ∃ tasks, vertex.parallelism = .fixed tasks ∧ hints.length = tasks.toNat
  inputs : ∀ edge ∈ graph.edges, ∀ vertex, graph.vertex? edge.destination = some vertex →
    ∀ input ∈ vertex.inputs, input.name ≠ edge.source
  outputs : ∀ edge ∈ graph.edges, ∀ vertex, graph.vertex? edge.source = some vertex →
    ∀ output ∈ vertex.outputs, output.name ≠ edge.destination
  /-- One-to-one edges connect equal numbers of tasks, where both are fixed. -/
  paired : ∀ edge ∈ graph.edges, edge.property.movement = .oneToOne →
    ∀ source destination, graph.vertex? edge.source = some source →
      graph.vertex? edge.destination = some destination →
      ∀ first second, source.parallelism = .fixed first →
        destination.parallelism = .fixed second → first = second

section Mirrored

variable {graph : JobGraph} (mirrored : Mirrored graph)

include mirrored

theorem Mirrored.mem_inputVertices {name source : String} {vertex : Vertex}
    (found : graph.vertex? name = some vertex) :
    source ∈ vertex.inputVertices ↔
      ∃ edge ∈ graph.edges, edge.destination = name ∧ edge.source = source := by
  obtain ⟨_, links⟩ := mirrored.vertex name vertex found
  have inputs : vertex.inputVertices = (graph.edgesInto name).map (·.source) :=
    congrArg (·.2.2.1) links
  simp [inputs, edgesInto, and_assoc]

theorem Mirrored.mem_outputVertices {name destination : String} {vertex : Vertex}
    (found : graph.vertex? name = some vertex) :
    destination ∈ vertex.outputVertices ↔
      ∃ edge ∈ graph.edges, edge.source = name ∧ edge.destination = destination := by
  obtain ⟨_, links⟩ := mirrored.vertex name vertex found
  have outputs : vertex.outputVertices = (graph.edgesFrom name).map (·.destination) :=
    congrArg (·.2.1.1) links
  simp [outputs, edgesFrom, and_assoc]

/-- The conditions that are checked one by one are those on the graph as a whole. -/
theorem Mirrored.wellFormed_iff :
    graph.WellFormed ↔ graph.stored.isEmpty = false ∧
      (∀ vertex ∈ graph.vertices, vertex.Checked) ∧ ∀ edge ∈ graph.edges, graph.Paired edge := by
  constructor
  · intro formed
    refine ⟨SortedMap.isEmpty_eq_false_iff.mpr formed.inhabited, fun vertex member => ?_,
      fun edge listed paired first second sends takes => ?_⟩
    · have found := (mirrored.mem_vertices vertex).mp member
      refine ⟨formed.decided _ vertex found, formed.covered _ vertex found,
        fun input held feeding => ?_, fun output held fed => ?_⟩
      · obtain ⟨edge, listed, enters, same⟩ := (mirrored.mem_inputVertices found).mp feeding
        exact formed.inputs edge listed vertex (enters ▸ found) input held same.symm
      · obtain ⟨edge, listed, leaves, same⟩ := (mirrored.mem_outputVertices found).mp fed
        exact formed.outputs edge listed vertex (leaves ▸ found) output held same.symm
    · obtain ⟨source, leaves, left⟩ := graph.fixedTasks?_eq_some_iff.mp sends
      obtain ⟨destination, enters, right⟩ := graph.fixedTasks?_eq_some_iff.mp takes
      exact formed.paired edge listed paired source destination leaves enters _ _ left right
  · rintro ⟨inhabited, checked, paired⟩
    have sound : ∀ name vertex, graph.vertex? name = some vertex → vertex.Checked := by
      intro name vertex found
      apply checked vertex
      rw [mirrored.mem_vertices, mirrored.named name vertex found, found]
    refine ⟨SortedMap.isEmpty_eq_false_iff.mp inhabited,
      fun name vertex found => (sound name vertex found).decided,
      fun name vertex found => (sound name vertex found).covered,
      fun edge listed vertex found input held same => ?_,
      fun edge listed vertex found output held same => ?_, ?_⟩
    · apply (sound _ vertex found).inputs input held
      exact (mirrored.mem_inputVertices found).mpr ⟨edge, listed, rfl, same.symm⟩
    · apply (sound _ vertex found).outputs output held
      exact (mirrored.mem_outputVertices found).mpr ⟨edge, listed, rfl, same.symm⟩
    · intro edge listed joined source destination leaves enters first second left right
      exact paired edge listed joined first second
        (graph.fixedTasks?_eq_some_iff.mpr ⟨source, leaves, left⟩)
        (graph.fixedTasks?_eq_some_iff.mpr ⟨destination, enters, right⟩)

end Mirrored

/-- Verification passes exactly where a graph is well formed, whatever requests have built it, and
what fails is an invalid argument. Both ends of every edge have a vertex to look at, and the edges
hold those of the members of every group edge. -/
theorem verification_decides_well_formedness (name : String) (policy : NamespacePolicy)
    (requests : List Request) :
    let graph := (create name policy).handleAll requests
    (graph.verify = .ok () ↔ graph.WellFormed) ∧
    (∀ error, graph.verify = .error error → ∃ detail, error = .invalidArgument detail) ∧
    (∀ edge ∈ graph.edges,
      (graph.vertex? edge.source).isSome ∧ (graph.vertex? edge.destination).isSome) ∧
    ∀ edge ∈ graph.groupEdges, ∃ group ∈ graph.groups, group.name = edge.group ∧
      ∀ member ∈ group.members, .between member edge.destination edge.property ∈ graph.edges := by
  intro graph
  have mirrored : Mirrored graph := (handleAll_orderable name policy requests).mirrored
  refine ⟨graph.verify_decides.eq_ok_iff.trans mirrored.wellFormed_iff.symm,
    fun _ => graph.verify_decides.invalidArgument, fun edge listed => ?_,
    handleAll_expands name policy requests⟩
  obtain ⟨source, destination⟩ := mirrored.ends edge listed
  exact ⟨(mirrored.known _).mp source, (mirrored.known _).mp destination⟩

/-- A group of one task and of two feeds one task, one to one: the second member's edge is recorded,
and breaks the rule. -/
theorem mismatched_group_edge_is_refused :
    let stage := fun (name : String) (tasks : UInt32) =>
      ({ name := name, processor := ⟨"Step", none⟩, parallelism := .fixed tasks
         resource := ⟨64, 1⟩ } : Vertex)
    let property : EdgeProperty :=
      ⟨.oneToOne, .persisted, .sequential, ⟨"Out", none⟩, ⟨"In", none⟩, none⟩
    let graph := (create "pairs" .shared).handleAll
      [.call (.addVertex (stage "one" 1)), .call (.addVertex (stage "two" 2)),
        .call (.addVertex (stage "sink" 1)), .call (.createGroup "both" ["one", "two"]),
        .call (.addGroupEdge ⟨"both", "sink", property, ⟨"Merge", none⟩⟩)]
    .between "two" "sink" property ∈ graph.edges ∧ ¬ graph.WellFormed ∧
      ∃ detail, graph.verify = .error (.invalidArgument detail) := by
  intro stage property graph
  obtain ⟨decides, invalid, _, expanded⟩ := verification_decides_well_formedness "pairs" .shared
    [.call (.addVertex (stage "one" 1)), .call (.addVertex (stage "two" 2)),
      .call (.addVertex (stage "sink" 1)), .call (.createGroup "both" ["one", "two"]),
      .call (.addGroupEdge ⟨"both", "sink", property, ⟨"Merge", none⟩⟩)]
  have listed : ⟨"both", "sink", property, ⟨"Merge", none⟩⟩ ∈ graph.groupEdges := by
    decide +kernel
  have sole : ∀ group ∈ graph.groups, group.members = ["one", "two"] := by
    decide +kernel
  have refused : graph.verify ≠ .ok () := by
    decide +kernel
  refine ⟨?_, fun formed => refused (decides.mpr formed), ?_⟩
  · obtain ⟨group, stored, _, joined⟩ := expanded _ listed
    exact joined "two" (by simp [sole group stored])
  · cases outcome : graph.verify with
    | ok _ => exact absurd outcome refused
    | error error =>
        obtain ⟨detail, rfl⟩ := invalid error outcome
        exact ⟨detail, rfl⟩

end JobGraph

end ElasticJob
