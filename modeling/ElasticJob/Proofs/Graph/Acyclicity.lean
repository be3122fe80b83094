import ElasticJob.Proofs.Graph.Adjacency
import ElasticJob.Proofs.Graph.Reachability

/-!
Cycles among the recorded edges. Names stand for nodes: since the network holds the recorded edges
and nothing else, the search in it decides whether recorded edges lead from one vertex to another.
So an edge is refused for a cycle exactly where it would close one, and no graph that can be
assembled has a cycle.
-/

namespace ElasticJob

open Relation (ReflTransGen TransGen)

namespace JobGraph

def Feeds (graph : JobGraph) (source destination : String) : Prop :=
  ∃ edge ∈ graph.edges, edge.source = source ∧ edge.destination = destination

def Acyclic (graph : JobGraph) : Prop :=
  ∀ vertex, ¬ TransGen graph.Feeds vertex vertex

/-- What the vertices and the recorded edges say to one more edge. The first reason to refuse it
counts. -/
inductive Answer (graph : JobGraph) (source destination : String) :
    Except JobError Unit → Prop where
  | noSource (unknown : graph.vertex? source = none) :
      Answer graph source destination (.error (.vertexNotFound source))
  | noDestination (left : (graph.vertex? source).isSome)
      (unknown : graph.vertex? destination = none) :
      Answer graph source destination (.error (.vertexNotFound destination))
  | recorded (left : (graph.vertex? source).isSome) (right : (graph.vertex? destination).isSome)
      (known : graph.Feeds source destination) :
      Answer graph source destination (.error (.duplicateKey
        s!"Edge `{EdgeId.text ⟨source, destination⟩}` already defined"))
  | cycle (left : (graph.vertex? source).isSome) (right : (graph.vertex? destination).isSome)
      (fresh : ¬ graph.Feeds source destination)
      (back : ReflTransGen graph.Feeds destination source) :
      Answer graph source destination (.error (.wouldCycle source destination))
  | added (left : (graph.vertex? source).isSome) (right : (graph.vertex? destination).isSome)
      (fresh : ¬ graph.Feeds source destination)
      (apart : ¬ ReflTransGen graph.Feeds destination source) :
      Answer graph source destination (.ok ())

theorem Answer.unique {graph : JobGraph} {source destination : String}
    {first second : Except JobError Unit} (one : Answer graph source destination first)
    (other : Answer graph source destination second) : first = second := by
  -- the conditions of two different answers exclude each other
  cases one <;> cases other <;> first | rfl | simp_all

theorem addEdge_outcome (graph : JobGraph) (edge : Edge) :
    (graph.addEdge edge).2 =
      (graph.checkEdge edge.source edge.destination []).map fun _ => () := by
  rcases addEdge_cases graph edge with ⟨_, checked, refused⟩ | ⟨_, _, checked, added⟩
  · rw [refused, checked]
    rfl
  · rw [added, checked]
    rfl

theorem position_inj {graph : JobGraph} {first second : String} (listed : first ∈ graph.order) :
    graph.position first = graph.position second ↔ first = second :=
  List.idxOf_inj listed

section Agreement

variable {graph : JobGraph} (adjacent : Adjacent graph)

include adjacent

theorem Adjacent.vertexIndex?_eq (name : String) :
    graph.vertexIndex? name =
      if (graph.vertex? name).isSome then some (graph.position name) else none := by
  cases found : graph.vertexIndex? name with
  | some index =>
      obtain ⟨listed, rfl⟩ := adjacent.mirrored.position_eq name index found
      rw [if_pos ((adjacent.known name).mp listed)]
  | none =>
      have unlisted : name ∉ graph.order := by
        intro listed
        have place : graph.order[graph.position name]? = some name :=
          List.getElem?_idxOf listed
        rw [← adjacent.indices, found] at place
        cases place
      rw [if_neg (mt (adjacent.known name).mpr unlisted)]

theorem Adjacent.edge?_isSome (source destination : String) :
    (graph.edge? ⟨source, destination⟩).isSome ↔ graph.Feeds source destination := by
  rw [edge?, List.find?_isSome]
  constructor
  · rintro ⟨edge, listed, same⟩
    rw [decide_eq_true_eq, (adjacent.ends edge listed).1, EdgeId.mk.injEq] at same
    exact ⟨edge, listed, same⟩
  · rintro ⟨edge, listed, rfl, rfl⟩
    exact ⟨edge, listed, decide_eq_true (adjacent.ends edge listed).1⟩

theorem Adjacent.feeds_arrow {source destination : String}
    (feeds : graph.Feeds source destination) :
    graph.network.Arrow (graph.position source) (graph.position destination) := by
  obtain ⟨edge, listed, rfl, rfl⟩ := feeds
  refine ⟨graph.arcOf edge, ?_, rfl, rfl⟩
  rw [adjacent.arcs]
  exact List.mem_map_of_mem listed

theorem Adjacent.path_named {source : String} (known : source ∈ graph.order) {node : Nat}
    (path : ReflTransGen graph.network.Arrow (graph.position source) node) :
    ∃ name ∈ graph.order, graph.position name = node ∧ ReflTransGen graph.Feeds source name := by
  induction path with
  | refl => exact ⟨source, known, rfl, .refl⟩
  | tail _ step ih =>
      obtain ⟨name, listed, rfl, before⟩ := ih
      obtain ⟨arc, stored, left, rfl⟩ := step
      rw [adjacent.arcs] at stored
      obtain ⟨edge, recorded, rfl⟩ := List.mem_map.mp stored
      obtain ⟨_, first, second⟩ := adjacent.ends edge recorded
      have same : edge.source = name := (position_inj first).mp left
      exact ⟨edge.destination, second, rfl, before.tail ⟨edge, recorded, same, rfl⟩⟩

theorem Adjacent.hasPath_iff {source : String} (left : source ∈ graph.order) (target : String) :
    graph.network.hasPath (graph.position source) (graph.position target) = true ↔
      ReflTransGen graph.Feeds source target := by
  have bound : graph.position source < graph.network.nodes.length := by
    rw [adjacent.nodes]
    exact List.idxOf_lt_length_iff.mpr left
  rw [Digraph.hasPath_iff (fun arc listed => (adjacent.mirrored.arcs_inside arc listed).2) bound]
  constructor
  · intro path
    obtain ⟨name, listed, place, route⟩ := adjacent.path_named left path
    rwa [(position_inj listed).mp place] at route
  · exact ReflTransGen.lift graph.position (fun _ _ => adjacent.feeds_arrow) source target

/-- A vertex leads to itself by a path of no edges, so the search also refuses a loop. -/
theorem Adjacent.closes_cycle {source destination : String} (left : source ∈ graph.order)
    (right : destination ∈ graph.order) :
    (graph.position source = graph.position destination ∨
      graph.network.hasPath (graph.position destination) (graph.position source) = true) ↔
        ReflTransGen graph.Feeds destination source := by
  rw [position_inj left, adjacent.hasPath_iff right]
  constructor
  · rintro (rfl | back)
    · exact .refl
    · exact back
  · exact .inr

theorem Adjacent.answer (edge : Edge) :
    Answer graph edge.source edge.destination (graph.addEdge edge).2 := by
  rw [addEdge_outcome, checkEdge, adjacent.vertexIndex?_eq, adjacent.vertexIndex?_eq]
  by_cases left : (graph.vertex? edge.source).isSome
  · by_cases right : (graph.vertex? edge.destination).isSome
    · have cycle := adjacent.closes_cycle ((adjacent.known _).mpr left)
        ((adjacent.known _).mpr right)
      have known : ((⟨edge.source, edge.destination⟩ : EdgeId) ∈ ([] : List EdgeId) ∨
          (graph.edge? ⟨edge.source, edge.destination⟩).isSome) ↔
          graph.Feeds edge.source edge.destination := by
        simp [adjacent.edge?_isSome]
      simp only [if_pos left, if_pos right]
      split
      next found => exact .recorded left right (known.mp found)
      next missing =>
        have fresh := mt known.mpr missing
        split
        next back => exact .cycle left right fresh (cycle.mp back)
        next apart => exact .added left right fresh (mt cycle.mpr apart)
    · simp only [if_pos left, if_neg right]
      exact .noDestination left (by simpa using right)
  · simp only [if_neg left]
    exact .noSource (by simpa using left)

theorem Adjacent.addEdge_eq_iff (edge : Edge) (outcome : Except JobError Unit) :
    (graph.addEdge edge).2 = outcome ↔ Answer graph edge.source edge.destination outcome := by
  constructor
  · rintro rfl
    exact adjacent.answer edge
  · exact (adjacent.answer edge).unique

end Agreement

theorem record_feeds (graph : JobGraph) (edge : Edge) (start goal : Nat) :
    (graph.record edge start goal).Feeds =
      fun a b => graph.Feeds a b ∨ a = edge.source ∧ b = edge.destination := by
  funext a b
  simp [Feeds, record_frame, or_and_right, exists_or, eq_comm (a := a), eq_comm (a := b)]

theorem Acyclic.of_edges {before after : JobGraph} (acyclic : Acyclic before)
    (same : after.edges = before.edges) : Acyclic after := by
  have feeds : after.Feeds = before.Feeds := by
    funext source destination
    rw [Feeds, Feeds, same]
  rw [Acyclic, feeds]
  exact acyclic

theorem addEdge_acyclic {graph : JobGraph} (adjacent : Adjacent graph) (acyclic : Acyclic graph)
    (edge : Edge) : Acyclic (graph.addEdge edge).1 := by
  have answer := adjacent.answer edge
  rcases addEdge_cases graph edge with ⟨_, _, refused⟩ | ⟨start, goal, _, added⟩
  · rw [refused]
    exact acyclic
  · rw [added] at answer ⊢
    cases answer with
    | added _ _ _ apart =>
        rw [done, Acyclic, record_feeds]
        exact acyclic_insert acyclic apart

theorem mutate_acyclic (graph : JobGraph) (mutation : Mutation) (adjacent : Adjacent graph)
    (acyclic : Acyclic graph) : Acyclic (graph.mutate mutation).1 := by
  cases mutation with
  | addVertex vertex => exact acyclic.of_edges (addVertex_edges graph vertex)
  | editVertex name edit => exact acyclic.of_edges (editVertex_sameLinks graph name edit).edges
  | addEdge source destination property => exact addEdge_acyclic adjacent acyclic _
  | createGroup name members =>
      exact acyclic.of_edges (createGroup_sameLinks graph name members).edges
  | addGroupEdge edge =>
      -- the edges of the members are checked against graphs that agree, too
      have kept := addGroupEdge_keeps (fun graph => Adjacent graph ∧ Acyclic graph) edge
        (fun graph member sound => ⟨addEdge_adjacent graph member _ _ sound.1,
          addEdge_acyclic sound.1 sound.2 _⟩)
        (fun _ groups groupEdges sound => ⟨sound.1.regroup groups groupEdges, sound.2⟩)
        graph ⟨adjacent, acyclic⟩
      exact kept.2

theorem assemble_acyclic (name : String) (policy : NamespacePolicy) (mutations : List Mutation) :
    Adjacent ((create name policy).assemble mutations) ∧
      Acyclic ((create name policy).assemble mutations) := by
  have new : Acyclic (create name policy) := by
    intro vertex cycle
    obtain ⟨_, ⟨edge, listed, _⟩, _⟩ := TransGen.head'_iff.mp cycle
    cases listed
  apply List.foldlRecOn mutations (motive := fun graph => Adjacent graph ∧ Acyclic graph)
  · exact ⟨create_adjacent name policy, new⟩
  · rintro graph ⟨adjacent, acyclic⟩ mutation _
    exact ⟨mutate_adjacent graph mutation adjacent, mutate_acyclic graph mutation adjacent acyclic⟩

/-- An edge is added exactly where both its ends are known, the pair is not recorded and no recorded
edges lead from its destination back to its source, and the first of these that fails is the answer.
So no graph that can be assembled has a cycle. The recorded edges are made from their ends: a pair is
looked up under the id of its ends, so one that was read from outside with another id could be
recorded once more. -/
theorem edges_close_no_cycle (name : String) (policy : NamespacePolicy)
    (mutations : List Mutation) :
    let graph := (create name policy).assemble mutations
    (∀ edge : Edge,
      ((graph.addEdge edge).2 = .ok () ↔
        (graph.vertex? edge.source).isSome ∧ (graph.vertex? edge.destination).isSome ∧
          ¬ graph.Feeds edge.source edge.destination ∧
          ¬ ReflTransGen graph.Feeds edge.destination edge.source) ∧
      ∀ outcome, (graph.addEdge edge).2 = outcome ↔
        Answer graph edge.source edge.destination outcome) ∧
    ∀ vertex, ¬ TransGen graph.Feeds vertex vertex := by
  intro graph
  obtain ⟨adjacent, acyclic⟩ := assemble_acyclic name policy mutations
  refine ⟨fun edge => ⟨?_, adjacent.addEdge_eq_iff edge⟩, acyclic⟩
  rw [adjacent.addEdge_eq_iff]
  constructor
  · intro answer
    cases answer with
    | added left right fresh apart => exact ⟨left, right, fresh, apart⟩
  · rintro ⟨left, right, fresh, apart⟩
    exact .added left right fresh apart

end JobGraph

end ElasticJob
