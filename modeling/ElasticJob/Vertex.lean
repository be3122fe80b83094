import ElasticJob.Descriptor
import ElasticJob.Edge
import ElasticJob.Error
import ElasticJob.Json.Value
import ElasticJob.Number.Integer

/-!
A stage of a job and the number of its tasks: fixed, or left to be decided while the job runs. The
lists of neighbours, edges and groups are written only by the graph that holds the vertex; everything
else is written by edits, each of which is refused as a whole or done as a whole.
-/

namespace ElasticJob

inductive Parallelism where
  | fixed (tasks : UInt32)
  | deferred
  deriving DecidableEq, Repr

namespace Parallelism

/-- Minus one defers; every other negative number is refused. -/
def ofInt32 (value : Int32) : Except JobError Parallelism :=
  if value = -1 then .ok .deferred
  else if value < 0 then
    .error (.invalidArgument <|
      "Parallelism should be -1 if determined at runtime, otherwise should be >= 0, found " ++
        Number.integerText value.toInt)
  else .ok (.fixed value.toInt.toNat.toUInt32)

def fixed? : Parallelism → Option UInt32
  | fixed tasks => some tasks
  | deferred => none

def isDeferred : Parallelism → Bool
  | fixed _ => false
  | deferred => true

def text : Parallelism → String
  | fixed tasks => Nat.repr tasks.toNat
  | deferred => "-1"

def toInt32 : Parallelism → Except JobError Int32
  | fixed tasks =>
      if tasks.toNat < 2147483648 then .ok (Int32.ofNat tasks.toNat)
      else .error (.invalidArgument s!"Parallelism {tasks.toNat} out of range")
  | deferred => .ok (-1)

def matchesCount (parallelism : Parallelism) (count : Nat) : Bool :=
  match parallelism with
  | fixed tasks => tasks.toNat = count
  | deferred => false

def toJson : Parallelism → Json
  | fixed tasks => .variant "Fixed" (.uint32 tasks)
  | deferred => .str "Deferred"

def ofJson? (json : Json) : Option Parallelism :=
  match json.variant? with
  | some ("Fixed", some content) => content.asUInt32?.map fixed
  | some ("Deferred", none) | some ("Deferred", some .null) => some deferred
  | _ => none

end Parallelism

structure RootInput where
  name : String
  descriptor : Descriptor .input
  initializer : Option (Descriptor .inputInitializer)
  deriving DecidableEq

structure LeafOutput where
  name : String
  descriptor : Descriptor .output
  committer : Option (Descriptor .outputCommitter)
  deriving DecidableEq

structure GroupInfo where
  group : String
  members : List String
  deriving DecidableEq

structure Vertex where
  name : String
  processor : Descriptor .processor
  parallelism : Parallelism
  resource : Resource
  hints : Option (List LocationHint) := none
  files : SortedMap String LocalFile := .empty
  environment : SortedMap String String := .empty
  launchOptions : String := ""
  inputs : List RootInput := []
  outputs : List LeafOutput := []
  manager : Option (Descriptor .vertexManager) := none
  inputVertices : List String := []
  outputVertices : List String := []
  inputEdges : List EdgeId := []
  outputEdges : List EdgeId := []
  groups : SortedMap String GroupInfo := .empty
  deriving DecidableEq

inductive VertexEdit where
  /-- No list leaves the hints as they are. -/
  | hints (hints : Option (List LocationHint))
  /-- Replaces all files; no map clears them. -/
  | files (files : Option (SortedMap String LocalFile))
  /-- Merges into the environment, later values win. -/
  | environment (values : SortedMap String String)
  | launchOptions (options : String)
  | input (input : RootInput)
  | output (output : LeafOutput)
  /-- The last one counts. -/
  | manager (manager : Descriptor .vertexManager)

namespace Vertex

def create (name : String) (processor : Descriptor .processor) (parallelism : Int32)
    (resource : Resource) : Except JobError Vertex :=
  if name.isEmpty then .error (.invalidArgument "Vertex name cannot be empty")
  else
    (Parallelism.ofInt32 parallelism).map fun tasks =>
      { name := name, processor := processor, parallelism := tasks, resource := resource }

def setHints (vertex : Vertex) (hints : List LocationHint) : Except JobError Vertex :=
  if vertex.parallelism.matchesCount hints.length then
    .ok { vertex with hints := some hints }
  else
    .error (.invalidArgument <|
      s!"Locations array length {hints.length} must match the parallelism " ++
        s!"{vertex.parallelism.text} set for the vertex `{vertex.name}`")

def addInput (vertex : Vertex) (input : RootInput) : Except JobError Vertex :=
  if vertex.inputs.any (·.name = input.name) then
    .error (.duplicateKey
      s!"Vertex `{vertex.name}` already has an input named `{input.name}`")
  else .ok { vertex with inputs := vertex.inputs ++ [input] }

def addOutput (vertex : Vertex) (output : LeafOutput) : Except JobError Vertex :=
  if vertex.outputs.any (·.name = output.name) then
    .error (.duplicateKey
      s!"Vertex `{vertex.name}` already has an output named `{output.name}`")
  else .ok { vertex with outputs := vertex.outputs ++ [output] }

def edit (vertex : Vertex) : VertexEdit → Except JobError Vertex
  | .hints none => .ok vertex
  | .hints (some hints) => vertex.setHints hints
  | .files files => .ok { vertex with files := files.getD .empty }
  | .environment values =>
      .ok { vertex with environment := vertex.environment.overlay values }
  | .launchOptions options => .ok { vertex with launchOptions := options }
  | .input input => vertex.addInput input
  | .output output => vertex.addOutput output
  | .manager manager => .ok { vertex with manager := some manager }

def initializedInputs (vertex : Vertex) : List RootInput :=
  vertex.inputs.filter fun input => input.initializer.isSome

/-- Hints that no longer cover every task are dropped. -/
def setParallelism (vertex : Vertex) (parallelism : Parallelism) : Vertex :=
  let hints := vertex.hints.filter fun hints => parallelism.matchesCount hints.length
  { vertex with parallelism := parallelism, hints := hints }

def addGroup (vertex : Vertex) (info : GroupInfo) : Except JobError Vertex :=
  if vertex.groups.contains info.group then
    .error (.duplicateKey
      s!"Vertex `{vertex.name}` already has group input with name `{info.group}`")
  else .ok { vertex with groups := vertex.groups.insert info.group info }

def addIncoming (vertex : Vertex) (source : String) (id : EdgeId) : Vertex :=
  { vertex with
    inputVertices := vertex.inputVertices ++ [source]
    inputEdges := vertex.inputEdges ++ [id] }

def addOutgoing (vertex : Vertex) (destination : String) (id : EdgeId) : Vertex :=
  { vertex with
    outputVertices := vertex.outputVertices ++ [destination]
    outputEdges := vertex.outputEdges ++ [id] }

def isConnected (vertex : Vertex) : Bool :=
  !vertex.inputVertices.isEmpty || !vertex.outputVertices.isEmpty || !vertex.inputEdges.isEmpty ||
    !vertex.outputEdges.isEmpty || !vertex.groups.isEmpty

def needsReconfiguration (vertex : Vertex) : Bool :=
  vertex.parallelism.isDeferred || vertex.manager.isSome || !vertex.initializedInputs.isEmpty

def text (vertex : Vertex) : String :=
  s!"[{vertex.name} : {vertex.processor.className}]"

end Vertex

end ElasticJob
