import ElasticJob.Graph.Digraph
import ElasticJob.Json.Value

/-!
A graph as plain data: nodes by the decimal text of their index, arcs by those texts. Isolated
nodes are kept.
-/

namespace ElasticJob

structure SnapshotNode (ν : Type) where
  id : String
  detail : ν
  deriving DecidableEq

structure SnapshotEdge (ε : Type) where
  source : String
  target : String
  detail : ε
  deriving DecidableEq

structure Snapshot (ν ε : Type) where
  nodes : List (SnapshotNode ν)
  edges : List (SnapshotEdge ε)
  deriving DecidableEq

namespace Snapshot

variable {ν ε : Type}

def indexText (index : Nat) : String :=
  Nat.repr index

def numbered (start : Nat) : List ν → List (SnapshotNode ν)
  | [] => []
  | node :: rest => ⟨indexText start, node⟩ :: numbered (start + 1) rest

def ofDigraph (graph : Digraph ν ε) : Snapshot ν ε :=
  ⟨numbered 0 graph.nodes,
   graph.arcs.map fun arc => ⟨indexText arc.source, indexText arc.target, arc.label⟩⟩

def node? (snapshot : Snapshot ν ε) (id : String) : Option (SnapshotNode ν) :=
  snapshot.nodes.find? (·.id = id)

def parents (snapshot : Snapshot ν ε) (id : String) :
    List (SnapshotNode ν × SnapshotEdge ε) :=
  snapshot.edges.filterMap fun edge =>
    if edge.target = id then (snapshot.node? edge.source).map (·, edge) else none

def children (snapshot : Snapshot ν ε) (id : String) :
    List (SnapshotNode ν × SnapshotEdge ε) :=
  snapshot.edges.filterMap fun edge =>
    if edge.source = id then (snapshot.node? edge.target).map (·, edge) else none

def toJson (node : ν → Json) (edge : ε → Json) (snapshot : Snapshot ν ε) : Json :=
  .obj [
    ("nodes", .list (fun n => .obj [("id", .str n.id), ("detail", node n.detail)])
      snapshot.nodes),
    ("edges", .list (fun e => .obj [("source", .str e.source), ("target", .str e.target),
      ("detail", edge e.detail)]) snapshot.edges)]

def nodeOfJson? (node : Json → Option ν) (json : Json) : Option (SnapshotNode ν) := do
  let [id, detail] ← json.record? ["id", "detail"] | none
  return ⟨← Json.required? Json.asString? id, ← Json.required? node detail⟩

def edgeOfJson? (edge : Json → Option ε) (json : Json) : Option (SnapshotEdge ε) := do
  let [source, target, detail] ← json.record? ["source", "target", "detail"] | none
  return ⟨← Json.required? Json.asString? source, ← Json.required? Json.asString? target,
    ← Json.required? edge detail⟩

def ofJson? (node : Json → Option ν) (edge : Json → Option ε) (json : Json) :
    Option (Snapshot ν ε) := do
  let [nodes, edges] ← json.record? ["nodes", "edges"] | none
  return ⟨← Json.required? (Json.asList? (nodeOfJson? node)) nodes,
    ← Json.required? (Json.asList? (edgeOfJson? edge)) edges⟩

end Snapshot

end ElasticJob
