import ElasticJob.Graph.Snapshot

/-!
A snapshot against the graph it was taken of. The text of an index tells the index, so looking up a
node by its text finds the node at that index. Children and parents are one search that goes from
one end of the edges to the other, so what it finds is said once for both.
-/

namespace ElasticJob

variable {ν ε : Type}

inductive ArcEnd where
  | source
  | target

def ArcEnd.opposite : ArcEnd → ArcEnd
  | .source => .target
  | .target => .source

def Arc.endAt (arc : Arc ε) : ArcEnd → Nat
  | .source => arc.source
  | .target => arc.target

namespace SnapshotEdge

def endAt (edge : SnapshotEdge ε) : ArcEnd → String
  | .source => edge.source
  | .target => edge.target

def ofArc (arc : Arc ε) : SnapshotEdge ε :=
  ⟨Snapshot.indexText arc.source, Snapshot.indexText arc.target, arc.label⟩

theorem endAt_ofArc (arc : Arc ε) (near : ArcEnd) :
    (ofArc arc).endAt near = Snapshot.indexText (arc.endAt near) := by
  cases near <;> rfl

end SnapshotEdge

namespace Snapshot

theorem indexText_inj {first second : Nat} :
    indexText first = indexText second ↔ first = second := by
  -- reading the digits again gives back the index
  refine ⟨fun same => ?_, congrArg indexText⟩
  have read : ∀ index, Nat.ofDigitChars 10 (indexText index).toList 0 = index := by
    intro index
    rw [indexText, Nat.toList_repr, Nat.ofDigitChars_ten_toDigits]
  rw [← read first, ← read second, same]

theorem find?_numbered_id (nodes : List ν) (start index : Nat) :
    (numbered start nodes).find? (·.id = indexText (start + index)) =
      (nodes[index]?).map (⟨indexText (start + index), ·⟩) := by
  induction nodes generalizing start index with
  | nil => simp [numbered]
  | cons first rest ih =>
      cases index with
      | zero => simp [numbered]
      | succ index =>
          have later := ih (start + 1) index
          rw [Nat.add_assoc, Nat.add_comm 1 index] at later
          simpa [numbered, indexText_inj] using later

theorem find?_numbered_detail [DecidableEq ν] (nodes : List ν) (start : Nat) (node : ν)
    (listed : node ∈ nodes) :
    (numbered start nodes).find? (·.detail = node) =
      some ⟨indexText (start + nodes.idxOf node), node⟩ := by
  induction nodes generalizing start with
  | nil => cases listed
  | cons first rest ih =>
      by_cases here : first = node
      · simp [numbered, here]
      · have later := ih (start + 1) ((List.mem_cons.mp listed).resolve_left (Ne.symm here))
        rw [Nat.add_assoc, Nat.add_comm 1] at later
        simpa [numbered, here, List.idxOf_cons, beq_false_of_ne here] using later

theorem numbered_eq_map_zipIdx (nodes : List ν) (start : Nat) :
    numbered start nodes =
      (nodes.zipIdx start).map fun (node, index) => ⟨indexText index, node⟩ := by
  induction nodes generalizing start with
  | nil => rfl
  | cons first rest ih => rw [numbered, ih, List.zipIdx_cons, List.map_cons]

theorem map_detail_numbered (nodes : List ν) (start : Nat) :
    (numbered start nodes).map (·.detail) = nodes := by
  rw [numbered_eq_map_zipIdx, List.map_map]
  exact List.zipIdx_map_fst start nodes

theorem node?_ofDigraph (graph : Digraph ν ε) (index : Nat) :
    (ofDigraph graph).node? (indexText index) =
      (graph.nodes[index]?).map (⟨indexText index, ·⟩) := by
  simpa [node?, ofDigraph] using find?_numbered_id graph.nodes 0 index

/-- The edges with an end at an id, each with the node at its other end. -/
def across (snapshot : Snapshot ν ε) (near : ArcEnd) (id : String) :
    List (SnapshotNode ν × SnapshotEdge ε) :=
  snapshot.edges.filterMap fun edge =>
    if edge.endAt near = id then (snapshot.node? (edge.endAt near.opposite)).map (·, edge)
    else none

theorem children_eq_across (snapshot : Snapshot ν ε) :
    snapshot.children = snapshot.across .source := rfl

theorem parents_eq_across (snapshot : Snapshot ν ε) :
    snapshot.parents = snapshot.across .target := rfl

theorem across_ofDigraph (graph : Digraph ν ε) (near : ArcEnd) (index : Nat) :
    (ofDigraph graph).across near (indexText index) =
      (graph.arcs.filter (·.endAt near = index)).filterMap fun arc =>
        ((ofDigraph graph).node? (indexText (arc.endAt near.opposite))).map (·, .ofArc arc) := by
  have edges : (ofDigraph graph).edges = graph.arcs.map .ofArc := rfl
  rw [across, edges, List.filterMap_map, List.filterMap_filter]
  simp only [Function.comp_def, SnapshotEdge.endAt_ofArc, indexText_inj, decide_eq_true_eq]

theorem details_across (graph : Digraph ν ε) (near : ArcEnd) (index : Nat) :
    ((ofDigraph graph).across near (indexText index)).map (·.1.detail) =
      ((graph.arcs.filter (·.endAt near = index)).map (·.endAt near.opposite)).filterMap
        (graph.nodes[·]?) := by
  rw [across_ofDigraph, List.map_filterMap, List.filterMap_map]
  simp [node?_ofDigraph, Function.comp_def]

theorem children_ofDigraph (graph : Digraph ν ε) (index : Nat) :
    ((ofDigraph graph).children (indexText index)).map (·.1.detail) =
      ((graph.arcs.filter fun arc => arc.source = index).map Arc.target).filterMap
        (graph.nodes[·]?) := by
  rw [children_eq_across, details_across]
  rfl

theorem parents_ofDigraph (graph : Digraph ν ε) (index : Nat) :
    ((ofDigraph graph).parents (indexText index)).map (·.1.detail) =
      ((graph.arcs.filter fun arc => arc.target = index).map Arc.source).filterMap
        (graph.nodes[·]?) := by
  rw [parents_eq_across, details_across]
  rfl

end Snapshot

end ElasticJob
