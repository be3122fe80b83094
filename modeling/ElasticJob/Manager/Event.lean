import ElasticJob.Json.Value
import ElasticJob.Reconfiguration
import ElasticJob.Vertex

/-!
What a vertex manager hears about and what it may answer. Initializers of root inputs find out the
splits of an input before its vertex is scheduled; what one comes to is told as a stream of events.
Splits of a root input are numbered by input; the completion or the failure of an input is the last
event about it.
-/

namespace ElasticJob

inductive ManagerEvent where
  | dataInformation (input : String) (index : UInt32) (payload : Bytes)
  | setParallelism (input : String) (parallelism : UInt32)
  | inputInitialized (input : String)
  | inputFailed (input detail : String)
  | sourceConfigured (source : String) (parallelism : UInt32)
  | taskCompleted (source : String) (task : UInt32) (size : UInt64)
  deriving DecidableEq

namespace ManagerEvent

def kind : ManagerEvent → String
  | dataInformation _ _ _ => "RootInputDataInformation"
  | setParallelism _ _ => "RootInputSetParallelism"
  | inputInitialized _ => "RootInputInitialized"
  | inputFailed _ _ => "RootInputFailed"
  | sourceConfigured _ _ => "SourceVertexConfigured"
  | taskCompleted _ _ _ => "SourceTaskCompleted"

def content : ManagerEvent → List (String × Json)
  | dataInformation input index payload =>
      [("input_name", .str input), ("index", .uint32 index), ("payload", .bytes payload)]
  | setParallelism input parallelism =>
      [("input_name", .str input), ("parallelism", .uint32 parallelism)]
  | inputInitialized input => [("input_name", .str input)]
  | inputFailed input detail => [("input_name", .str input), ("message", .str detail)]
  | sourceConfigured source parallelism =>
      [("source_vertex", .str source), ("parallelism", .uint32 parallelism)]
  | taskCompleted source task size =>
      [("source_vertex", .str source), ("task_index", .uint32 task),
        ("output_size", .nat size.toNat)]

def toJson (event : ManagerEvent) : Json :=
  .variant event.kind (.obj event.content)

def contentOfJson? (kind : String) (json : Json) : Option ManagerEvent :=
  match kind with
  | "RootInputDataInformation" => do
      let [input, index, payload] ← json.fields? ["input_name", "index", "payload"] | none
      return .dataInformation (← Json.required? Json.asString? input)
        (← Json.required? Json.asUInt32? index) (← Json.required? Json.asBytes? payload)
  | "RootInputSetParallelism" => do
      let [input, parallelism] ← json.fields? ["input_name", "parallelism"] | none
      return .setParallelism (← Json.required? Json.asString? input)
        (← Json.required? Json.asUInt32? parallelism)
  | "RootInputInitialized" => do
      let [input] ← json.fields? ["input_name"] | none
      return .inputInitialized (← Json.required? Json.asString? input)
  | "RootInputFailed" => do
      let [input, detail] ← json.fields? ["input_name", "message"] | none
      return .inputFailed (← Json.required? Json.asString? input)
        (← Json.required? Json.asString? detail)
  | "SourceVertexConfigured" => do
      let [source, parallelism] ← json.fields? ["source_vertex", "parallelism"] | none
      return .sourceConfigured (← Json.required? Json.asString? source)
        (← Json.required? Json.asUInt32? parallelism)
  | "SourceTaskCompleted" => do
      let [source, task, size] ←
        json.fields? ["source_vertex", "task_index", "output_size"] | none
      return .taskCompleted (← Json.required? Json.asString? source)
        (← Json.required? Json.asUInt32? task) (← Json.required? Json.asUInt64? size)
  | _ => none

def ofJson? (json : Json) : Option ManagerEvent :=
  match json.variant? with
  | some (kind, some content) => contentOfJson? kind content
  | _ => none

end ManagerEvent

inductive Decision where
  | pending
  | finalize (decision : Reconfiguration)
  deriving DecidableEq

inductive InitializerEvent where
  | setParallelism (parallelism : UInt32)
  | dataInformation (payload : Bytes)
  deriving DecidableEq

namespace InitializerEvent

def ofJson? (json : Json) : Option InitializerEvent :=
  match json.variant? with
  | some ("SetParallelism", some content) => content.asUInt32?.map setParallelism
  | some ("DataInformation", some content) => content.asBytes?.map dataInformation
  | _ => none

end InitializerEvent

abbrev InitializerOutcome := Except String (List InitializerEvent)

structure InitializerContext where
  vertex : String
  parallelism : Parallelism
  input : String
  inputPayload : Option Bytes
  initializerPayload : Option Bytes
  deriving DecidableEq

namespace InitializerContext

def ofInput (vertex : Vertex) (input : RootInput) : InitializerContext :=
  { vertex := vertex.name
    parallelism := vertex.parallelism
    input := input.name
    inputPayload := input.descriptor.payload
    initializerPayload := input.initializer.bind (·.payload) }

end InitializerContext

/-- Numbers the splits from `index` on, keeps the first parallelism that is set unless one was
set before, and ends with the completion of the input. -/
def numberEvents (input : String) (index : Nat) (directed : Bool) :
    List InitializerEvent → List ManagerEvent
  | [] => [.inputInitialized input]
  | .dataInformation payload :: rest =>
      .dataInformation input (UInt32.ofNat index) payload ::
        numberEvents input (index + 1) directed rest
  | .setParallelism parallelism :: rest =>
      if directed then numberEvents input index directed rest
      else .setParallelism input parallelism :: numberEvents input index true rest

def toManagerEvents (input : String) : InitializerOutcome → List ManagerEvent
  | .ok events => numberEvents input 0 false events
  | .error detail => [.inputFailed input detail]

end ElasticJob
