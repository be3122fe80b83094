import ElasticJob.Proofs.Graph.Snapshot
import Mathlib.Data.List.Nodup

/-!
Arcs and the nodes that a snapshot lists them with. An edge is listed with the node that its far end
names, so what is listed with one node at another is told by the ends of the edges alone, from
either side. In the snapshot of a graph no search for a far end fails, as the ids are the texts of
the places of the nodes and every arc joins two nodes.
-/

namespace ElasticJob

variable {ν ε : Type}

def Digraph.arcsBetween (graph : Digraph ν ε) (source target : Nat) : List (Arc ε) :=
  graph.arcs.filter fun arc => arc.source = source ∧ arc.target = target

theorem map_some_filterMap {α β : Type} (search : α → Option β) (items : List α)
    (succeeds : ∀ item ∈ items, (search item).isSome) :
    (items.filterMap search).map some = items.map search := by
  induction items with
  | nil => rfl
  | cons first rest ih =>
      obtain ⟨found, here⟩ := Option.isSome_iff_exists.mp (succeeds first List.mem_cons_self)
      have later := ih fun item listed => succeeds item (List.mem_cons_of_mem first listed)
      rw [List.filterMap_cons_some here, List.map_cons, List.map_cons, later, here]

namespace Snapshot

def edgesWith (id : String) (listed : List (SnapshotNode ν × SnapshotEdge ε)) :
    List (SnapshotEdge ε) :=
  (listed.filter (·.1.id = id)).map (·.2)

theorem node?_id (snapshot : Snapshot ν ε) (id : String) (node : SnapshotNode ν)
    (found : snapshot.node? id = some node) : node.id = id := by
  simpa using List.find?_some found

theorem edgesWith_across (snapshot : Snapshot ν ε) (near : ArcEnd) (id other : String)
    (known : (snapshot.node? other).isSome) :
    edgesWith other (snapshot.across near id) =
      snapshot.edges.filter fun edge =>
        edge.endAt near = id ∧ edge.endAt near.opposite = other := by
  rw [edgesWith, across]
  induction snapshot.edges with
  | nil => rfl
  | cons edge rest ih =>
      by_cases here : edge.endAt near = id
      · cases found : snapshot.node? (edge.endAt near.opposite) with
        | none =>
            -- the far end names no node, so it is not the other id
            have elsewhere : edge.endAt near.opposite ≠ other := by
              rintro rfl
              rw [found] at known
              cases known
            simpa [here, found, elsewhere] using ih
        | some node =>
            have named := snapshot.node?_id _ node found
            by_cases there : edge.endAt near.opposite = other
            · rw [there] at found named
              simpa [here, there, found, named] using ih
            · simpa [here, there, found, named] using ih
      · simpa [here] using ih

section OfDigraph

variable (graph : Digraph ν ε)

theorem nodes_ofDigraph : (ofDigraph graph).nodes =
    graph.nodes.zipIdx.map fun (node, index) => ⟨indexText index, node⟩ :=
  numbered_eq_map_zipIdx graph.nodes 0

theorem ids_nodup : ((ofDigraph graph).nodes.map (·.id)).Nodup := by
  have ids : (ofDigraph graph).nodes.map (·.id) =
      (graph.nodes.zipIdx.map Prod.snd).map indexText := by
    rw [nodes_ofDigraph, List.map_map, List.map_map]
    rfl
  rw [ids, List.zipIdx_map_snd]
  exact (List.nodup_range' ..).map fun _ _ => indexText_inj.mp

theorem node?_indexText (place : Nat) :
    (ofDigraph graph).node? (indexText place) = (ofDigraph graph).nodes[place]? := by
  rw [node?_ofDigraph, nodes_ofDigraph, List.getElem?_map, List.getElem?_zipIdx, Option.map_map]
  simp only [Nat.zero_add]
  rfl

theorem id_of_getElem? (place : Nat) (node : SnapshotNode ν)
    (found : (ofDigraph graph).nodes[place]? = some node) : node.id = indexText place := by
  rw [← node?_indexText] at found
  exact (ofDigraph graph).node?_id _ node found

/-- The edges that are listed at one node with another are those of the arcs between the two. -/
theorem edgesWith_ofDigraph (near : ArcEnd) (place other : Nat) (first second : SnapshotNode ν)
    (here : (ofDigraph graph).nodes[place]? = some first)
    (there : (ofDigraph graph).nodes[other]? = some second) :
    edgesWith second.id ((ofDigraph graph).across near first.id) =
      (graph.arcs.filter fun arc =>
        arc.endAt near = place ∧ arc.endAt near.opposite = other).map .ofArc := by
  have known : ((ofDigraph graph).node? (indexText other)).isSome := by
    rw [node?_indexText, there]
    rfl
  have edges : (ofDigraph graph).edges = graph.arcs.map .ofArc := rfl
  rw [id_of_getElem? graph place first here, id_of_getElem? graph other second there,
    edgesWith_across _ near _ _ known, edges, List.filter_map]
  simp only [Function.comp_def, SnapshotEdge.endAt_ofArc, indexText_inj]

theorem across_complete (near : ArcEnd)
    (inside : ∀ arc ∈ graph.arcs, arc.endAt near.opposite < graph.nodes.length)
    (place : Nat) (node : SnapshotNode ν)
    (here : (ofDigraph graph).nodes[place]? = some node) :
    ((ofDigraph graph).across near node.id).map some =
      (graph.arcs.filter (·.endAt near = place)).map fun arc =>
        ((ofDigraph graph).nodes[arc.endAt near.opposite]?).map (·, .ofArc arc) := by
  rw [id_of_getElem? graph place node here, across_ofDigraph]
  simp only [node?_indexText]
  apply map_some_filterMap
  intro arc listed
  have known := inside arc (List.mem_filter.mp listed).1
  simpa [nodes_ofDigraph] using known

end OfDigraph

/-- A snapshot has one node for every node of its graph and one edge for every arc. The edges that
are listed with a child at its parent are those that are listed with the parent at its child, in
the same order: one for every arc between the two. Nothing else is listed, and no arc is left out
at either of its ends. -/
theorem arcs_are_listed_at_both_ends (graph : Digraph ν ε)
    (inside : ∀ arc ∈ graph.arcs,
      arc.source < graph.nodes.length ∧ arc.target < graph.nodes.length) :
    let snapshot := ofDigraph graph
    ((snapshot.nodes.map (·.id)).Nodup ∧
      snapshot.nodes = graph.nodes.zipIdx.map (fun (node, index) => ⟨indexText index, node⟩) ∧
      snapshot.edges = graph.arcs.map .ofArc) ∧
    (∀ source parent, snapshot.nodes[source]? = some parent →
      ∀ target child, snapshot.nodes[target]? = some child →
        edgesWith child.id (snapshot.children parent.id) =
          (graph.arcsBetween source target).map .ofArc ∧
        edgesWith parent.id (snapshot.parents child.id) =
          (graph.arcsBetween source target).map .ofArc) ∧
    ∀ place node, snapshot.nodes[place]? = some node →
      (snapshot.children node.id).map some =
        (graph.arcs.filter (·.source = place)).map
          (fun arc => (snapshot.nodes[arc.target]?).map (·, .ofArc arc)) ∧
      (snapshot.parents node.id).map some =
        (graph.arcs.filter (·.target = place)).map
          (fun arc => (snapshot.nodes[arc.source]?).map (·, .ofArc arc)) := by
  intro snapshot
  refine ⟨⟨ids_nodup graph, nodes_ofDigraph graph, rfl⟩, ?_, ?_⟩
  · intro source parent above target child below
    constructor
    · exact edgesWith_ofDigraph graph .source source target parent child above below
    · rw [parents_eq_across, edgesWith_ofDigraph graph .target target source child parent below
        above]
      simp only [Arc.endAt, ArcEnd.opposite, Digraph.arcsBetween, and_comm]
  · intro place node here
    constructor
    · exact across_complete graph .source (fun arc listed => (inside arc listed).2) place node here
    · exact across_complete graph .target (fun arc listed => (inside arc listed).1) place node here

/-- Ids that begin alike, two arcs between the same nodes, and nodes that stand alone. -/
theorem lookalike_ids_are_told_apart :
    let graph : Digraph String String :=
      ⟨List.replicate 12 "stage", [⟨1, 11, "first"⟩, ⟨11, 2, "long"⟩, ⟨1, 2, "short"⟩,
        ⟨1, 11, "second"⟩]⟩
    let snapshot := ofDigraph graph
    (∀ arc ∈ graph.arcs, arc.source < graph.nodes.length ∧ arc.target < graph.nodes.length) ∧
    (snapshot.nodes.map (·.id)).Nodup ∧
    edgesWith "11" (snapshot.children "1") = [⟨"1", "11", "first"⟩, ⟨"1", "11", "second"⟩] ∧
    edgesWith "1" (snapshot.parents "11") = [⟨"1", "11", "first"⟩, ⟨"1", "11", "second"⟩] ∧
    (snapshot.children "1").map some =
      [some (⟨"11", "stage"⟩, ⟨"1", "11", "first"⟩), some (⟨"2", "stage"⟩, ⟨"1", "2", "short"⟩),
        some (⟨"11", "stage"⟩, ⟨"1", "11", "second"⟩)] := by
  intro graph snapshot
  have inside : ∀ arc ∈ graph.arcs,
      arc.source < graph.nodes.length ∧ arc.target < graph.nodes.length := by
    decide
  obtain ⟨⟨distinct, _, _⟩, between, whole⟩ := arcs_are_listed_at_both_ends graph inside
  obtain ⟨below, above⟩ := between 1 ⟨"1", "stage"⟩ rfl 11 ⟨"11", "stage"⟩ rfl
  exact ⟨inside, distinct, below, above, (whole 1 ⟨"1", "stage"⟩ rfl).1⟩

end Snapshot

end ElasticJob
