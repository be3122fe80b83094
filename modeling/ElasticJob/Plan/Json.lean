import ElasticJob.Json.Text
import ElasticJob.Plan
import ElasticJob.Vertex

/-!
The JSON form of vertices and plans. Reading checks shapes and ranges only: no rule of the graph.
-/

namespace ElasticJob

namespace RootInput

def toJson (input : RootInput) : Json :=
  .obj [("name", .str input.name), ("descriptor", input.descriptor.toJson),
    ("controller", .option Descriptor.toJson input.initializer)]

def ofJson? (json : Json) : Option RootInput := do
  let [name, descriptor, controller] ←
    json.record? ["name", "descriptor", "controller"] | none
  return {
    name := ← Json.required? Json.asString? name
    descriptor := ← Json.required? Descriptor.ofJson? descriptor
    initializer := ← Json.optional? Descriptor.ofJson? controller }

end RootInput

namespace LeafOutput

def toJson (output : LeafOutput) : Json :=
  .obj [("name", .str output.name), ("descriptor", output.descriptor.toJson),
    ("controller", .option Descriptor.toJson output.committer)]

def ofJson? (json : Json) : Option LeafOutput := do
  let [name, descriptor, controller] ←
    json.record? ["name", "descriptor", "controller"] | none
  return {
    name := ← Json.required? Json.asString? name
    descriptor := ← Json.required? Descriptor.ofJson? descriptor
    committer := ← Json.optional? Descriptor.ofJson? controller }

end LeafOutput

namespace GroupInfo

def toJson (info : GroupInfo) : Json :=
  .obj [("group_name", .str info.group), ("members", .strings info.members)]

def ofJson? (json : Json) : Option GroupInfo := do
  let [group, members] ← json.record? ["group_name", "members"] | none
  return ⟨← Json.required? Json.asString? group, ← Json.required? Json.asStrings? members⟩

end GroupInfo

namespace Vertex

def toJson (vertex : Vertex) : Json :=
  .obj [("name", .str vertex.name), ("processor_descriptor", vertex.processor.toJson),
    ("parallelism", vertex.parallelism.toJson), ("task_resource", vertex.resource.toJson),
    ("task_locations_hint", .option (.list LocationHint.toJson) vertex.hints),
    ("task_local_files", .stringMap LocalFile.toJson vertex.files),
    ("task_environment", .stringMap .str vertex.environment),
    ("task_launch_cmd_opts", .str vertex.launchOptions),
    ("additional_inputs", .list RootInput.toJson vertex.inputs),
    ("additional_outputs", .list LeafOutput.toJson vertex.outputs),
    ("vertex_manager_plugin", .option Descriptor.toJson vertex.manager),
    ("input_vertices", .strings vertex.inputVertices),
    ("output_vertices", .strings vertex.outputVertices),
    ("input_edges", .list EdgeId.toJson vertex.inputEdges),
    ("output_edges", .list EdgeId.toJson vertex.outputEdges),
    ("group_inputs", .stringMap GroupInfo.toJson vertex.groups)]

def ofJson? (json : Json) : Option Vertex := do
  let [name, processor, parallelism, resource, hints, files, environment, options, inputs,
      outputs, manager, inputVertices, outputVertices, inputEdges, outputEdges, groups] ←
    json.record? ["name", "processor_descriptor", "parallelism", "task_resource",
      "task_locations_hint", "task_local_files", "task_environment", "task_launch_cmd_opts",
      "additional_inputs", "additional_outputs", "vertex_manager_plugin", "input_vertices",
      "output_vertices", "input_edges", "output_edges", "group_inputs"] | none
  return {
    name := ← Json.required? Json.asString? name
    processor := ← Json.required? Descriptor.ofJson? processor
    parallelism := ← Json.required? Parallelism.ofJson? parallelism
    resource := ← Json.required? Resource.ofJson? resource
    hints := ← Json.optional? (Json.asList? LocationHint.ofJson?) hints
    files := ← Json.required? (Json.asStringMap? LocalFile.ofJson?) files
    environment := ← Json.required? (Json.asStringMap? Json.asString?) environment
    launchOptions := ← Json.required? Json.asString? options
    inputs := ← Json.required? (Json.asList? RootInput.ofJson?) inputs
    outputs := ← Json.required? (Json.asList? LeafOutput.ofJson?) outputs
    manager := ← Json.optional? Descriptor.ofJson? manager
    inputVertices := ← Json.required? Json.asStrings? inputVertices
    outputVertices := ← Json.required? Json.asStrings? outputVertices
    inputEdges := ← Json.required? (Json.asList? EdgeId.ofJson?) inputEdges
    outputEdges := ← Json.required? (Json.asList? EdgeId.ofJson?) outputEdges
    groups := ← Json.required? (Json.asStringMap? GroupInfo.ofJson?) groups }

end Vertex

namespace Plan

def toJson (plan : Plan) : Json :=
  .obj [("name", .str plan.name), ("vertices", .list Vertex.toJson plan.vertices),
    ("edges", .list Edge.toJson plan.edges), ("groups", .list Group.toJson plan.groups),
    ("topology", plan.topology.toJson .str EdgeId.toJson),
    ("resolved", .stringMap Reconfiguration.toJson plan.resolved)]

def ofJson? (json : Json) : Option Plan := do
  let [name, vertices, edges, groups, topology, resolved] ←
    json.record? ["name", "vertices", "edges", "groups", "topology", "resolved"] | none
  return {
    name := ← Json.required? Json.asString? name
    vertices := ← Json.required? (Json.asList? Vertex.ofJson?) vertices
    edges := ← Json.required? (Json.asList? Edge.ofJson?) edges
    groups := ← Json.required? (Json.asList? Group.ofJson?) groups
    topology := ← Json.required? (Snapshot.ofJson? Json.asString? EdgeId.ofJson?) topology
    resolved := ← Json.required? (Json.asStringMap? Reconfiguration.ofJson?) resolved }

def write (plan : Plan) : String :=
  plan.toJson.write

def read? (text : String) : Option Plan :=
  (Json.read? text).bind ofJson?

end Plan

end ElasticJob
