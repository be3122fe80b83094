import ElasticJob.Proofs.Graph.Mirror
import ElasticJob.Proofs.Graph.Reachability

/-!
What the depth-first order of a network is worth. Every node is in it. In a network without cycles a
node is finished once and after all that it leads to, so every arc leads forward in the order. Since
no request can close a cycle, the order of a graph always passes its check, and a graph that passes
it is listed vertex by vertex.
-/

namespace ElasticJob

open Relation (ReflTransGen TransGen)

namespace Digraph

variable {ν ε : Type} (graph : Digraph ν ε)

theorem mem_successors (node next : Nat) :
    next ∈ graph.successors node ↔ graph.Arrow node next := by
  simp [successors, Arrow, and_assoc]

theorem foldl_visit_keeps (depth : Nat) (nodes finished : List Nat)
    (keeps : ∀ (done : List Nat) (node : Nat), done ⊆ graph.visit depth done node) :
    finished ⊆ nodes.foldl (graph.visit depth) finished := by
  induction nodes generalizing finished with
  | nil => exact List.Subset.refl _
  | cons first rest ih => exact List.Subset.trans (keeps finished first) (ih _)

theorem visit_keeps (depth : Nat) (finished : List Nat) (node : Nat) :
    finished ⊆ graph.visit depth finished node := by
  induction depth generalizing finished node with
  | zero => exact List.Subset.refl _
  | succ depth ih =>
      rw [visit]
      split
      · exact List.Subset.refl _
      · exact List.Subset.trans (graph.foldl_visit_keeps depth _ finished ih)
          (List.subset_append_left _ _)

theorem mem_visit_self (depth : Nat) (finished : List Nat) (node : Nat) :
    node ∈ graph.visit (depth + 1) finished node := by
  rw [visit]
  split
  · assumption
  · simp

theorem mem_foldl_visit (depth : Nat) (nodes finished : List Nat) (node : Nat)
    (listed : node ∈ nodes) : node ∈ nodes.foldl (graph.visit (depth + 1)) finished := by
  induction nodes generalizing finished with
  | nil => cases listed
  | cons first rest ih =>
      rw [List.foldl_cons]
      rcases List.mem_cons.mp listed with rfl | later
      · exact graph.foldl_visit_keeps _ rest _ (graph.visit_keeps _)
          (graph.mem_visit_self depth finished node)
      · exact ih _ later

theorem depthOrder_complete (node : Nat) (inside : node < graph.nodes.length) :
    node ∈ graph.depthOrder :=
  List.mem_reverse.mpr (graph.mem_foldl_visit _ _ _ node (List.mem_range.mpr inside))

def Acyclic : Prop :=
  ∀ node, ¬ TransGen graph.Arrow node node

variable {graph} in
theorem Acyclic.of_rank (rank : Nat → Nat)
    (ranked : ∀ arc ∈ graph.arcs, rank arc.source < rank arc.target) : graph.Acyclic := by
  have climbs : ∀ first last, TransGen graph.Arrow first last → rank first < rank last := by
    intro first last path
    induction path with
    | single step =>
        obtain ⟨arc, listed, rfl, rfl⟩ := step
        exact ranked arc listed
    | tail _ step ih =>
        obtain ⟨arc, listed, rfl, rfl⟩ := step
        exact Nat.lt_trans ih (ranked arc listed)
  exact fun node cycle => Nat.lt_irrefl _ (climbs node node cycle)

/-- Nodes that are finished one by one, each after all that it leads to. -/
inductive Finished : List Nat → Prop where
  | start : Finished []
  | next {earlier : List Nat} {node : Nat} (before : Finished earlier) (fresh : node ∉ earlier)
      (below : ∀ target, graph.Arrow node target → target ∈ earlier) :
      Finished (earlier ++ [node])

variable {graph} in
theorem Finished.nodup {finished : List Nat} (done : graph.Finished finished) :
    finished.Nodup := by
  induction done with
  | start => exact List.nodup_nil
  | next _ fresh _ ih =>
      rw [List.nodup_append_comm]
      exact List.nodup_cons.mpr ⟨fresh, ih⟩

variable {graph} in
theorem Finished.forward {finished : List Nat} (done : graph.Finished finished) {source : Nat}
    (listed : source ∈ finished) {target : Nat} (arrow : graph.Arrow source target) :
    target ∈ finished ∧
      finished.reverse.idxOf source < finished.reverse.idxOf target := by
  induction done with
  | start => cases listed
  | @next earlier node _ fresh below ih =>
      have here : source ∈ earlier ∨ source = node := by simpa using listed
      have known : target ∈ earlier := by
        rcases here with before | rfl
        · exact (ih before).1
        · exact below target arrow
      have other : node ≠ target := fun same => fresh (same ▸ known)
      refine ⟨List.mem_append_left _ known, ?_⟩
      rw [List.reverse_append, List.reverse_singleton, List.singleton_append,
        List.idxOf_cons_ne _ other]
      rcases here with before | rfl
      · have apart : node ≠ source := fun same => fresh (same ▸ before)
        rw [List.idxOf_cons_ne _ apart]
        exact Nat.succ_lt_succ (ih before).2
      · rw [List.idxOf_cons_self]
        exact Nat.succ_pos _

theorem mem_foldl_visit_path (depth found : Nat) (nodes finished : List Nat)
    (visits : ∀ done node, found ∈ graph.visit depth done node →
      found ∈ done ∨ ReflTransGen graph.Arrow node found)
    (member : found ∈ nodes.foldl (graph.visit depth) finished) :
    found ∈ finished ∨ ∃ node ∈ nodes, ReflTransGen graph.Arrow node found := by
  induction nodes generalizing finished with
  | nil => exact .inl member
  | cons first rest ih =>
      rcases ih _ member with visited | ⟨node, later, path⟩
      · rcases visits finished first visited with old | path
        · exact .inl old
        · exact .inr ⟨first, List.mem_cons_self, path⟩
      · exact .inr ⟨node, List.mem_cons_of_mem _ later, path⟩

theorem mem_visit_path (depth : Nat) (finished : List Nat) (node found : Nat)
    (member : found ∈ graph.visit depth finished node) :
    found ∈ finished ∨ ReflTransGen graph.Arrow node found := by
  induction depth generalizing finished node with
  | zero => exact .inl member
  | succ depth ih =>
      rw [visit] at member
      split at member
      · exact .inl member
      · rcases List.mem_append.mp member with visited | same
        · refine (graph.mem_foldl_visit_path depth found _ finished ih visited).imp id ?_
          rintro ⟨next, listed, path⟩
          exact .head ((graph.mem_successors node next).mp listed) path
        · rw [List.mem_singleton.mp same]
          exact .inr .refl

theorem foldl_visit_finished (depth : Nat) (nodes finished : List Nat)
    (visits : ∀ node ∈ nodes, ∀ done, graph.Finished done →
      graph.Finished (graph.visit depth done node) ∧ node ∈ graph.visit depth done node)
    (done : graph.Finished finished) :
    graph.Finished (nodes.foldl (graph.visit depth) finished) ∧
      nodes ⊆ nodes.foldl (graph.visit depth) finished := by
  induction nodes generalizing finished with
  | nil => exact ⟨done, List.nil_subset _⟩
  | cons first rest ih =>
      obtain ⟨visited, reached⟩ := visits first List.mem_cons_self finished done
      obtain ⟨whole, others⟩ :=
        ih _ (fun node later => visits node (List.mem_cons_of_mem _ later)) visited
      refine ⟨whole, List.cons_subset.mpr ⟨?_, others⟩⟩
      exact graph.foldl_visit_keeps depth rest _ (graph.visit_keeps depth) reached

section Acyclic

variable {graph} (acyclic : graph.Acyclic)
  (inside : ∀ arc ∈ graph.arcs, arc.target < graph.nodes.length)

include acyclic inside

/-- The nodes above a visit are different nodes of the network, so the bound on the depth is never
met while one of them is left to be finished. -/
theorem visit_finished (depth : Nat) (above finished : List Nat) (node : Nat)
    (distinct : above.Nodup)
    (leads : ∀ start ∈ above, start < graph.nodes.length ∧ TransGen graph.Arrow start node)
    (deep : graph.nodes.length < depth + above.length) (known : node < graph.nodes.length)
    (done : graph.Finished finished) :
    graph.Finished (graph.visit depth finished node) ∧ node ∈ graph.visit depth finished node := by
  induction depth generalizing above finished node with
  | zero =>
      have few : above.length ≤ (List.range graph.nodes.length).length :=
        distinct.length_le_of_subset fun start listed => List.mem_range.mpr (leads start listed).1
      rw [List.length_range] at few
      omega
  | succ depth ih =>
      refine ⟨?_, graph.mem_visit_self depth finished node⟩
      rw [visit]
      split
      · exact done
      · rename_i fresh
        have single : node ∉ above := fun again => acyclic node (leads node again).2
        have visits : ∀ next ∈ graph.successors node, ∀ done, graph.Finished done →
            graph.Finished (graph.visit depth done next) ∧ next ∈ graph.visit depth done next := by
          intro next listed done
          have arrow := (graph.mem_successors node next).mp listed
          apply ih (node :: above) done next (List.nodup_cons.mpr ⟨single, distinct⟩)
          · intro start member
            rcases List.mem_cons.mp member with rfl | earlier
            · exact ⟨known, .single arrow⟩
            · exact ⟨(leads start earlier).1, (leads start earlier).2.tail arrow⟩
          · rw [List.length_cons]
            omega
          · obtain ⟨arc, stored, _, rfl⟩ := arrow
            exact inside arc stored
        obtain ⟨below, reached⟩ :=
          graph.foldl_visit_finished depth (graph.successors node) finished visits done
        refine .next below (fun found => ?_) fun target arrow => ?_
        · -- a node found again below itself would be on a cycle
          rcases graph.mem_foldl_visit_path depth node _ finished
            (fun done next => graph.mem_visit_path depth done next node) found with
            old | ⟨next, listed, path⟩
          · exact fresh old
          · exact acyclic node (.head' ((graph.mem_successors node next).mp listed) path)
        · exact reached ((graph.mem_successors node target).mpr arrow)

theorem depthOrder_finished : graph.Finished graph.depthOrder.reverse := by
  rw [depthOrder, List.reverse_reverse]
  refine (graph.foldl_visit_finished _ _ _ (fun node listed done before => ?_) .start).1
  exact visit_finished acyclic inside _ [] done node List.nodup_nil (by simp) (by simp)
    (List.mem_range.mp listed) before

theorem depthOrder_nodup : graph.depthOrder.Nodup :=
  List.nodup_reverse.mp (depthOrder_finished acyclic inside).nodup

end Acyclic

theorem backward?_eq_none_iff (order : List Nat) :
    graph.backward? order = none ↔
      ∀ arc ∈ graph.arcs, order.idxOf arc.source < order.idxOf arc.target := by
  simp [backward?, isForward]

theorem backward?_depthOrder (acyclic : graph.Acyclic)
    (inside : ∀ arc ∈ graph.arcs,
      arc.source < graph.nodes.length ∧ arc.target < graph.nodes.length) :
    graph.backward? graph.depthOrder = none := by
  rw [backward?_eq_none_iff]
  intro arc listed
  obtain ⟨bound, _⟩ := inside arc listed
  have order := depthOrder_finished acyclic fun arc listed => (inside arc listed).2
  have known := List.mem_reverse.mpr (graph.depthOrder_complete arc.source bound)
  simpa using (order.forward known ⟨arc, listed, rfl, rfl⟩).2

end Digraph

namespace JobGraph

def rank (graph : JobGraph) (name : String) : Nat :=
  graph.network.depthOrder.idxOf (graph.position name)

/-- A checked order lists every vertex once and ranks the ends of every edge. -/
theorem topologicalOrder_ok (graph : JobGraph) (mirrored : Mirrored graph) (order : List String)
    (checked : graph.topologicalOrder = .ok order) :
    order.Nodup ∧ (∀ name, name ∈ order ↔ name ∈ graph.order) ∧
      ∀ edge ∈ graph.edges, graph.rank edge.source < graph.rank edge.destination := by
  unfold topologicalOrder at checked
  dsimp only at checked
  split at checked
  · cases checked
  · rename_i forward
    cases checked
    rw [Digraph.backward?_eq_none_iff] at forward
    -- the order that was checked is itself a rank that all arcs follow
    have acyclic : graph.network.Acyclic :=
      .of_rank (fun node => graph.network.depthOrder.idxOf node) forward
    have distinct := Digraph.depthOrder_nodup acyclic fun arc listed =>
      (mirrored.arcs_inside arc listed).2
    refine ⟨?_, fun name => ?_, fun edge listed => ?_⟩
    · refine distinct.filterMap fun first second name one other => ?_
      rw [mirrored.nodes] at one other
      exact (List.getElem?_inj (List.getElem?_eq_some_iff.mp one).1 mirrored.names).mp
        (one.trans other.symm)
    · rw [List.mem_filterMap, ← mirrored.nodes, List.mem_iff_getElem?]
      refine ⟨fun ⟨node, _, found⟩ => ⟨node, found⟩, fun ⟨node, found⟩ => ⟨node, ?_, found⟩⟩
      exact graph.network.depthOrder_complete node (List.getElem?_eq_some_iff.mp found).1
    · have arc : graph.arcOf edge ∈ graph.network.arcs :=
        mirrored.arcs ▸ List.mem_map_of_mem listed
      exact forward _ arc

structure Orderable (graph : JobGraph) : Prop where
  mirrored : Mirrored graph
  acyclic : graph.network.Acyclic

theorem Orderable.topologicalOrder_isOk {graph : JobGraph} (orderable : Orderable graph) :
    ∃ order, graph.topologicalOrder = .ok order := by
  have forward := Digraph.backward?_depthOrder _ orderable.acyclic orderable.mirrored.arcs_inside
  exact ⟨_, by rw [topologicalOrder, forward]⟩

theorem Orderable.of_arcs {before after : JobGraph} (orderable : Orderable before)
    (mirrored : Mirrored after) (arcs : after.network.arcs = before.network.arcs) :
    Orderable after := by
  have same : after.network.Arrow = before.network.Arrow := by
    funext source target
    rw [Digraph.Arrow, Digraph.Arrow, arcs]
  refine ⟨mirrored, ?_⟩
  rw [Digraph.Acyclic, same]
  exact orderable.acyclic

/-- The search for a path has kept out an arc that closes a cycle, also that of an edge with a
foreign id. -/
theorem addEdge_orderable (graph : JobGraph) (edge : Edge) (orderable : Orderable graph) :
    Orderable (graph.addEdge edge).1 := by
  refine ⟨addEdge_mirrored graph edge orderable.mirrored, ?_⟩
  apply addEdge_keeps (·.network.Acyclic) orderable.acyclic
  intro start goal checked
  obtain ⟨_, found, _, _, _, apart⟩ := checkEdge_ok _ _ _ _ _ _ checked
  have bound : goal < graph.network.nodes.length := by
    rw [orderable.mirrored.nodes]
    exact (List.getElem?_eq_some_iff.mp ((orderable.mirrored.indices _ goal).mp found)).1
  rw [(record_frame graph edge start goal).2.2.2, Digraph.Acyclic, Digraph.arrow_addArc]
  rw [← Bool.not_eq_true, Digraph.hasPath_iff
    (fun arc listed => (orderable.mirrored.arcs_inside arc listed).2) bound] at apart
  exact acyclic_insert orderable.acyclic apart

theorem addVertex_arcs (graph : JobGraph) (vertex : Vertex) :
    (graph.addVertex vertex).1.network.arcs = graph.network.arcs := by
  rcases addVertex_cases graph vertex with ⟨_, refused⟩ | ⟨_, _, _, added⟩
  · rw [refused, refuse]
  · rw [added, done, Digraph.addNode]

theorem handle_orderable (graph : JobGraph) (request : Request) (orderable : Orderable graph) :
    Orderable (graph.handle request).1 := by
  have mirrored := handle_mirrored graph request orderable.mirrored
  cases request with
  | foreignEdge edge => exact addEdge_orderable graph edge orderable
  | call mutation =>
      cases mutation with
      | addVertex vertex => exact orderable.of_arcs mirrored (addVertex_arcs graph vertex)
      | editVertex name edit =>
          have same := (editVertex_sameLinks graph name edit).network
          exact orderable.of_arcs mirrored (congrArg Digraph.arcs same)
      | addEdge source destination property => exact addEdge_orderable graph _ orderable
      | createGroup name members =>
          have same := (createGroup_sameLinks graph name members).network
          exact orderable.of_arcs mirrored (congrArg Digraph.arcs same)
      | addGroupEdge edge =>
          exact addGroupEdge_keeps Orderable edge (fun graph _ => addEdge_orderable graph _)
            (fun _ groups groupEdges kept =>
              ⟨kept.mirrored.regroup groups groupEdges, kept.acyclic⟩) graph orderable

theorem handleAll_orderable (name : String) (policy : NamespacePolicy)
    (requests : List Request) : Orderable ((create name policy).handleAll requests) := by
  have new : (create name policy).network.Acyclic := by
    intro node cycle
    obtain ⟨_, ⟨arc, listed, _⟩, _⟩ := TransGen.head'_iff.mp cycle
    cases listed
  apply List.foldlRecOn requests (motive := Orderable)
  · exact ⟨create_mirrored name policy, new⟩
  · exact fun graph orderable request _ => handle_orderable graph request orderable

end JobGraph

end ElasticJob
