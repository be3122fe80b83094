import ElasticJob.Graph.JobGraph

/-!
The rules that a graph must meet before it becomes a plan. The first broken rule is reported:
vertices in insertion order, for each its rules in order, then the edges.
-/

namespace ElasticJob

namespace Vertex

/-- A deferred vertex needs a manager or an initializer to decide it. -/
def checkDecider (vertex : Vertex) : Except JobError Unit :=
  if vertex.parallelism.isDeferred ∧ vertex.manager.isNone ∧ vertex.initializedInputs.isEmpty then
    .error (.invalidArgument <|
      s!"Vertex `{vertex.name}` has parallelism -1 but neither a vertex manager " ++
        "nor an input initializer")
  else .ok ()

def checkHints (vertex : Vertex) : Except JobError Unit :=
  match vertex.hints with
  | none => .ok ()
  | some hints =>
      if vertex.parallelism.matchesCount hints.length then .ok ()
      else
        .error (.invalidArgument <|
          s!"Vertex `{vertex.name}` has {hints.length} location hints " ++
            s!"but parallelism {vertex.parallelism.text}")

def checkInputNames (vertex : Vertex) : Except JobError Unit :=
  match vertex.inputs.find? fun input => vertex.inputVertices.contains input.name with
  | some input =>
      .error (.invalidArgument <|
        s!"Vertex `{vertex.name}` root input `{input.name}` has the same name as an input vertex")
  | none => .ok ()

def checkOutputNames (vertex : Vertex) : Except JobError Unit :=
  match vertex.outputs.find? fun output => vertex.outputVertices.contains output.name with
  | some output =>
      .error (.invalidArgument <|
        s!"Vertex `{vertex.name}` leaf output `{output.name}` " ++
          "has the same name as an output vertex")
  | none => .ok ()

def verify (vertex : Vertex) : Except JobError Unit := do
  vertex.checkDecider
  vertex.checkHints
  vertex.checkInputNames
  vertex.checkOutputNames

end Vertex

namespace JobGraph

def fixedTasks? (graph : JobGraph) (name : String) : Option UInt32 :=
  (graph.vertex? name).bind (·.parallelism.fixed?)

def checkOneToOne (graph : JobGraph) (edge : Edge) : Except JobError Unit :=
  if edge.property.movement ≠ .oneToOne then .ok ()
  else
    match graph.fixedTasks? edge.source, graph.fixedTasks? edge.destination with
    | some source, some destination =>
        if source = destination then .ok ()
        else
          .error (.invalidArgument <|
            s!"OneToOne edge `{edge.id.text}` connects vertices with parallelism " ++
              s!"{source.toNat} and {destination.toNat}")
    | _, _ => .ok ()

def verify (graph : JobGraph) : Except JobError Unit := do
  if graph.stored.isEmpty then
    .error (.invalidArgument s!"Invalid DAG `{graph.name}` containing 0 vertices")
  else
    graph.vertices.forM Vertex.verify
    graph.edges.forM graph.checkOneToOne

end JobGraph

end ElasticJob
