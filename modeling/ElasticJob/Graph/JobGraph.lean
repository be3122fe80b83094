import ElasticJob.Config.Basic
import ElasticJob.Edge
import ElasticJob.Graph.Digraph
import ElasticJob.Vertex

/-!
The description of a job while it is assembled: vertices, edges, groups and the edges of groups. The
outputs of a group are read by one destination as a single merged input. Every mutation gives back
the graph it leaves behind, also when it is refused, and checks all it has to check before it records
anything.
-/

namespace ElasticJob

structure Group where
  name : String
  members : List String
  /-- Destinations of the group's edges, in order. -/
  outputs : List String := []
  /-- The merged input at each destination. -/
  mergedInputs : SortedMap String (Descriptor .input) := .empty
  deriving DecidableEq

namespace Group

def contains (group : Group) (vertex : String) : Bool :=
  group.members.contains vertex

def info (group : Group) : GroupInfo :=
  ⟨group.name, group.members⟩

def addOutput (group : Group) (destination : String) (merged : Descriptor .input) : Group :=
  { group with
    outputs := group.outputs ++ [destination]
    mergedInputs := group.mergedInputs.insert destination merged }

def toJson (group : Group) : Json :=
  .obj [("name", .str group.name), ("members", .strings group.members),
    ("outputs", .strings group.outputs),
    ("merged_inputs", .stringMap Descriptor.toJson group.mergedInputs)]

def ofJson? (json : Json) : Option Group := do
  let [name, members, outputs, merged] ←
    json.record? ["name", "members", "outputs", "merged_inputs"] | none
  return {
    name := ← Json.required? Json.asString? name
    members := ← Json.required? Json.asStrings? members
    outputs := ← Json.required? Json.asStrings? outputs
    mergedInputs := ← Json.required? (Json.asStringMap? Descriptor.ofJson?) merged }

end Group

structure GroupEdge where
  group : String
  destination : String
  property : EdgeProperty
  merged : Descriptor .input
  deriving DecidableEq

namespace GroupEdge

def toJson (edge : GroupEdge) : Json :=
  .obj [("group", .str edge.group), ("destination", .str edge.destination),
    ("property", edge.property.toJson), ("merged_input", edge.merged.toJson)]

end GroupEdge

structure JobGraph where
  name : String
  policy : NamespacePolicy
  order : List String := []
  stored : SortedMap String Vertex := .empty
  /-- The nodes of the vertices in the network. -/
  indices : SortedMap String Nat := .empty
  edges : List Edge := []
  groups : List Group := []
  groupEdges : List GroupEdge := []
  /-- One node for every vertex and one arc for every edge. -/
  network : Digraph String EdgeId := .empty
  deriving DecidableEq

namespace JobGraph

/-- The graph after a mutation, and whether it was refused. -/
abbrev Attempt := JobGraph × Except JobError Unit

def done (graph : JobGraph) : Attempt := (graph, .ok ())

def refuse (graph : JobGraph) (error : JobError) : Attempt := (graph, .error error)

def create (name : String) (policy : NamespacePolicy := .shared) : JobGraph :=
  { name := name, policy := policy }

def vertex? (graph : JobGraph) (name : String) : Option Vertex :=
  graph.stored.get? name

def vertexIndex? (graph : JobGraph) (name : String) : Option Nat :=
  graph.indices.get? name

def vertices (graph : JobGraph) : List Vertex :=
  graph.order.filterMap graph.vertex?

def edge? (graph : JobGraph) (id : EdgeId) : Option Edge :=
  graph.edges.find? (·.id = id)

def group? (graph : JobGraph) (name : String) : Option Group :=
  graph.groups.find? (·.name = name)

def putVertex (graph : JobGraph) (name : String) (vertex : Vertex) : JobGraph :=
  { graph with stored := graph.stored.insert name vertex }

def mapVertex (graph : JobGraph) (name : String) (change : Vertex → Vertex) : JobGraph :=
  match graph.vertex? name with
  | some vertex => graph.putVertex name (change vertex)
  | none => graph

/-- A vertex that carries edges or groups belongs to another graph. -/
def addVertex (graph : JobGraph) (vertex : Vertex) : Attempt :=
  if (graph.vertex? vertex.name).isSome then
    graph.refuse (.duplicateKey
      s!"Vertex `{vertex.name}` already defined in DAG `{graph.name}`")
  else if graph.policy = .shared ∧ (graph.group? vertex.name).isSome then
    graph.refuse (.duplicateKey
      s!"Vertex `{vertex.name}` collides with a vertex group of the same name")
  else if vertex.isConnected then
    graph.refuse (.invalidArgument
      s!"Vertex `{vertex.name}` already carries edges or group inputs of another DAG")
  else
    done { graph with
      order := graph.order ++ [vertex.name]
      stored := graph.stored.insert vertex.name vertex
      indices := graph.indices.insert vertex.name graph.network.nodes.length
      network := graph.network.addNode vertex.name }

def editVertex (graph : JobGraph) (name : String) (edit : VertexEdit) : Attempt :=
  match graph.vertex? name with
  | none => graph.done
  | some vertex =>
      match vertex.edit edit with
      | .ok edited => done (graph.putVertex name edited)
      | .error error => graph.refuse error

/-- The indices of the ends, where the edge may be added beside the pending ones. -/
def checkEdge (graph : JobGraph) (source destination : String) (pending : List EdgeId) :
    Except JobError (Nat × Nat) :=
  match graph.vertexIndex? source, graph.vertexIndex? destination with
  | none, _ => .error (.vertexNotFound source)
  | _, none => .error (.vertexNotFound destination)
  | some start, some goal =>
      let id : EdgeId := ⟨source, destination⟩
      if id ∈ pending ∨ (graph.edge? id).isSome then
        .error (.duplicateKey s!"Edge `{id.text}` already defined")
      else if start = goal ∨ graph.network.hasPath goal start then
        .error (.wouldCycle source destination)
      else .ok (start, goal)

def record (graph : JobGraph) (edge : Edge) (start goal : Nat) : JobGraph :=
  let left := graph.mapVertex edge.source (·.addOutgoing edge.destination edge.id)
  let linked := left.mapVertex edge.destination (·.addIncoming edge.source edge.id)
  { linked with
    edges := linked.edges ++ [edge]
    network := linked.network.addArc start goal edge.id }

/-- The network looks for a cycle once more before it takes the arc. -/
def insertEdge (graph : JobGraph) (edge : Edge) : Attempt :=
  match graph.checkEdge edge.source edge.destination [] with
  | .error error => graph.refuse error
  | .ok (start, goal) =>
      if start = goal ∨ graph.network.hasPath goal start then
        graph.refuse (.wouldCycle edge.source edge.destination)
      else done (graph.record edge start goal)

def addEdge (graph : JobGraph) (edge : Edge) : Attempt :=
  match graph.checkEdge edge.source edge.destination [] with
  | .error error => graph.refuse error
  | .ok _ => graph.insertEdge edge

def checkMembers (graph : JobGraph) (group : String) (seen : List String) :
    List String → Except JobError Unit
  | [] => .ok ()
  | member :: rest =>
      if member ∈ seen then
        .error (.invalidArgument s!"Vertex `{member}` listed twice in group `{group}`")
      else if (graph.vertex? member).isNone then .error (.vertexNotFound member)
      else graph.checkMembers group (seen ++ [member]) rest

def markMembers (info : GroupInfo) (graph : JobGraph) : List String → Attempt
  | [] => graph.done
  | member :: rest =>
      match graph.vertex? member with
      | none => markMembers info graph rest
      | some vertex =>
          match vertex.addGroup info with
          | .ok marked => markMembers info (graph.putVertex member marked) rest
          | .error error => graph.refuse error

def checkGroup (graph : JobGraph) (name : String) (members : List String) :
    Except JobError Unit :=
  if name.isEmpty then .error (.invalidArgument "Vertex group name cannot be empty")
  else if (graph.group? name).isSome then
    .error (.duplicateKey s!"Vertex group `{name}` already defined in DAG `{graph.name}`")
  else if graph.policy = .shared ∧ (graph.vertex? name).isSome then
    .error (.duplicateKey s!"Vertex group `{name}` collides with a vertex of the same name")
  else if members.length < 2 then
    .error (.invalidArgument s!"Vertex group `{name}` must have at least 2 members")
  else graph.checkMembers name [] members

def createGroup (graph : JobGraph) (name : String) (members : List String) : Attempt :=
  match graph.checkGroup name members with
  | .error error => graph.refuse error
  | .ok () =>
      let group : Group := { name := name, members := members }
      match graph.markMembers group.info members with
      | (marked, .ok ()) => done { marked with groups := marked.groups ++ [group] }
      | (marked, .error error) => marked.refuse error

/-- Checks the edges of all members before any is recorded. -/
def checkMemberEdges (graph : JobGraph) (destination : String) (pending : List EdgeId) :
    List String → Except JobError Unit
  | [] => .ok ()
  | member :: rest =>
      match graph.checkEdge member destination pending with
      | .error error => .error error
      | .ok _ => graph.checkMemberEdges destination (pending ++ [⟨member, destination⟩]) rest

def addMemberEdges (destination : String) (property : EdgeProperty) (graph : JobGraph) :
    List String → Attempt
  | [] => graph.done
  | member :: rest =>
      match graph.insertEdge (.between member destination property) with
      | (connected, .ok ()) => addMemberEdges destination property connected rest
      | (connected, .error error) => connected.refuse error

def putGroup (graph : JobGraph) (group : Group) : JobGraph :=
  { graph with
    groups := graph.groups.map fun other => if other.name = group.name then group else other }

def addGroupEdge (graph : JobGraph) (edge : GroupEdge) : Attempt :=
  match graph.group? edge.group with
  | none => graph.refuse (.groupNotFound edge.group)
  | some group =>
      if edge.destination ∈ group.members then
        graph.refuse (.wouldCycle edge.group edge.destination)
      else
        match graph.checkMemberEdges edge.destination [] group.members with
        | .error error => graph.refuse error
        | .ok () =>
            match graph.addMemberEdges edge.destination edge.property group.members with
            | (connected, .error error) => connected.refuse error
            | (connected, .ok ()) =>
                let extended := connected.putGroup (group.addOutput edge.destination edge.merged)
                done { extended with groupEdges := extended.groupEdges ++ [edge] }

def topologicalOrder (graph : JobGraph) : Except JobError (List String) :=
  let order := graph.network.depthOrder
  match graph.network.backward? order with
  | some node =>
      let name := graph.network.nodes[node]?.getD ""
      .error (.wouldCycle name name)
  | none => .ok (order.filterMap fun node => graph.network.nodes[node]?)

end JobGraph

end ElasticJob
