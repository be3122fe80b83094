import ElasticJob.Graph.Snapshot
import ElasticJob.Graph.Verify
import ElasticJob.Reconfiguration

/-!
A verified, frozen job. Vertices are in topological order. Only decisions about vertices change a
plan, one for every vertex; a decision is checked as a whole before anything of it is applied.
-/

namespace ElasticJob

structure Plan where
  name : String
  vertices : List Vertex
  edges : List Edge
  groups : List Group
  topology : Snapshot String EdgeId
  resolved : SortedMap String Reconfiguration := .empty
  deriving DecidableEq

namespace Plan

def vertex? (plan : Plan) (name : String) : Option Vertex :=
  plan.vertices.find? (·.name = name)

def edge? (plan : Plan) (id : EdgeId) : Option Edge :=
  plan.edges.find? (·.id = id)

def topologyNode? (plan : Plan) (vertex : String) : Option (SnapshotNode String) :=
  plan.topology.nodes.find? (·.detail = vertex)

def sourcesOf (plan : Plan) (vertex : String) : List String :=
  match plan.topologyNode? vertex with
  | some node => (plan.topology.parents node.id).map (·.1.detail)
  | none => []

def destinationsOf (plan : Plan) (vertex : String) : List String :=
  match plan.topologyNode? vertex with
  | some node => (plan.topology.children node.id).map (·.1.detail)
  | none => []

def foreignEdge? (vertex : Vertex) (decision : Reconfiguration) : Option EdgeId :=
  decision.payloads.keys.find? fun id =>
    !(vertex.inputEdges.contains id || vertex.outputEdges.contains id)

def updateFirst {α : Type} (fits : α → Bool) (change : α → α) : List α → List α
  | [] => []
  | item :: rest => if fits item then change item :: rest else item :: updateFirst fits change rest

def putPayload (edges : List Edge) (entry : EdgeId × Bytes) : List Edge :=
  updateFirst (·.id = entry.1) (·.withOutputPayload entry.2) edges

def resolve (plan : Plan) (vertex : String) (decision : Reconfiguration) : Plan :=
  { plan with
    vertices := updateFirst (·.name = vertex) (·.setParallelism (.fixed decision.parallelism))
      plan.vertices
    edges := decision.payloads.entries.foldl putPayload plan.edges
    resolved := plan.resolved.insert vertex decision }

/-- The plan after a decision, and whether the decision was refused. -/
def applyReconfiguration (plan : Plan) (name : String) (decision : Reconfiguration) :
    Plan × Except JobError Unit :=
  if plan.resolved.contains name then
    (plan, .error (.invalidState s!"vertex `{name}` already reconfigured"))
  else
    match plan.vertex? name with
    | none => (plan, .error (.vertexNotFound name))
    | some vertex =>
        match foreignEdge? vertex decision with
        | some id =>
            (plan, .error (.invalidArgument
              s!"edge `{id.text}` is not connected to vertex `{name}`"))
        | none => (plan.resolve name decision, .ok ())

end Plan

namespace JobGraph

def createPlan (graph : JobGraph) : Except JobError Plan := do
  graph.verify
  let order ← graph.topologicalOrder
  return {
    name := graph.name
    vertices := order.filterMap graph.vertex?
    edges := graph.edges
    groups := graph.groups
    topology := .ofDigraph graph.network }

end JobGraph

end ElasticJob
