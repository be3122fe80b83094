import ElasticJob.Plan.Json
import ElasticJob.Proofs.Graph.Assembly
import ElasticJob.Proofs.Json.Reordering

/-!
The JSON form of a plan tells the plan. Every part of it is read back as it was written, whatever
the order in which the fields of its maps come; payloads by edge travel as a list of pairs, which
lists the map that it is read as.
-/

namespace ElasticJob

open Json

theorem Descriptor.undone {role : Role} :
    Undoes (@Descriptor.toJson role) Descriptor.ofJson? := by
  intro descriptor json same
  refine record_then same (by simp) fun value own => ?_
  simp only [List.forall_mem_cons] at own
  obtain ⟨className, payload, -⟩ := own
  have payloads := option_undone bytes_undone (by simp [bytes])
  refine read_then (str_undone.required className) ?_
  exact read_then (payloads.optional payload) rfl

/-- A descriptor is written as an object, so one that is there is never taken for none. -/
theorem Descriptor.option_undone {role : Role} :
    Undoes (.option (@Descriptor.toJson role)) (asOption? Descriptor.ofJson?) :=
  Json.option_undone Descriptor.undone (by simp [Descriptor.toJson])

section Vertices

theorem Resource.undone : Undoes Resource.toJson Resource.ofJson? := by
  intro resource json same
  refine record_then same (by simp) fun value own => ?_
  simp only [List.forall_mem_cons] at own
  obtain ⟨memory, cores, -⟩ := own
  refine read_then (uint32_undone.required memory) ?_
  exact read_then (uint32_undone.required cores) rfl

theorem FileKind.undone : Undoes (fun kind => .str kind.name) (choice? FileKind.names) :=
  choice_undone fun kind => by cases kind <;> rfl

theorem FileVisibility.undone :
    Undoes (fun visibility => .str visibility.name) (choice? FileVisibility.names) :=
  choice_undone fun visibility => by cases visibility <;> rfl

theorem LocalFile.undone : Undoes LocalFile.toJson LocalFile.ofJson? := by
  intro file json same
  refine record_then same (by simp) fun value own => ?_
  simp only [List.forall_mem_cons] at own
  obtain ⟨uri, size, timestamp, kind, visibility, -⟩ := own
  refine read_then (str_undone.required uri) ?_
  refine read_then (uint64_undone.required size) ?_
  refine read_then (uint64_undone.required timestamp) ?_
  refine read_then (FileKind.undone.required kind) ?_
  exact read_then (FileVisibility.undone.required visibility) rfl

theorem LocationHint.undone : Undoes LocationHint.toJson LocationHint.ofJson? := by
  intro hint json same
  refine record_then same (by simp) fun value own => ?_
  simp only [List.forall_mem_cons] at own
  obtain ⟨hosts, racks, -⟩ := own
  refine read_then (strings_undone.required hosts) ?_
  exact read_then (strings_undone.required racks) rfl

theorem Parallelism.undone : Undoes Parallelism.toJson Parallelism.ofJson? := by
  intro parallelism json same
  cases parallelism with
  | deferred =>
      cases same
      rfl
  | fixed tasks =>
      obtain ⟨content, rfl, kept⟩ := same.of_variant
      change (asUInt32? content).map _ = _
      rw [uint32_undone _ _ kept, Option.map_some]

theorem RootInput.undone : Undoes RootInput.toJson RootInput.ofJson? := by
  intro input json same
  refine record_then same (by simp) fun value own => ?_
  simp only [List.forall_mem_cons] at own
  obtain ⟨name, descriptor, controller, -⟩ := own
  refine read_then (str_undone.required name) ?_
  refine read_then (Descriptor.undone.required descriptor) ?_
  exact read_then (Descriptor.option_undone.optional controller) rfl

theorem LeafOutput.undone : Undoes LeafOutput.toJson LeafOutput.ofJson? := by
  intro output json same
  refine record_then same (by simp) fun value own => ?_
  simp only [List.forall_mem_cons] at own
  obtain ⟨name, descriptor, controller, -⟩ := own
  refine read_then (str_undone.required name) ?_
  refine read_then (Descriptor.undone.required descriptor) ?_
  exact read_then (Descriptor.option_undone.optional controller) rfl

theorem GroupInfo.undone : Undoes GroupInfo.toJson GroupInfo.ofJson? := by
  intro info json same
  refine record_then same (by simp) fun value own => ?_
  simp only [List.forall_mem_cons] at own
  obtain ⟨group, members, -⟩ := own
  refine read_then (str_undone.required group) ?_
  exact read_then (strings_undone.required members) rfl

theorem EdgeId.undone : Undoes EdgeId.toJson EdgeId.ofJson? := by
  intro id json same
  refine record_then same (by simp) fun value own => ?_
  simp only [List.forall_mem_cons] at own
  obtain ⟨source, destination, -⟩ := own
  refine read_then (str_undone.required source) ?_
  exact read_then (str_undone.required destination) rfl

theorem Vertex.undone : Undoes Vertex.toJson Vertex.ofJson? := by
  intro vertex json same
  refine record_then same (by simp) fun value own => ?_
  simp only [List.forall_mem_cons] at own
  obtain ⟨name, processor, parallelism, resource, hints, files, environment, options, inputs,
    outputs, manager, inputVertices, outputVertices, inputEdges, outputEdges, groups, -⟩ := own
  have hinted := option_undone (list_undone LocationHint.undone) (by simp [list])
  refine read_then (str_undone.required name) ?_
  refine read_then (Descriptor.undone.required processor) ?_
  refine read_then (Parallelism.undone.required parallelism) ?_
  refine read_then (Resource.undone.required resource) ?_
  refine read_then (hinted.optional hints) ?_
  refine read_then ((stringMap_undone LocalFile.undone).required files) ?_
  refine read_then ((stringMap_undone str_undone).required environment) ?_
  refine read_then (str_undone.required options) ?_
  refine read_then ((list_undone RootInput.undone).required inputs) ?_
  refine read_then ((list_undone LeafOutput.undone).required outputs) ?_
  refine read_then (Descriptor.option_undone.optional manager) ?_
  refine read_then (strings_undone.required inputVertices) ?_
  refine read_then (strings_undone.required outputVertices) ?_
  refine read_then ((list_undone EdgeId.undone).required inputEdges) ?_
  refine read_then ((list_undone EdgeId.undone).required outputEdges) ?_
  exact read_then ((stringMap_undone GroupInfo.undone).required groups) rfl

end Vertices

section Edges

theorem Movement.undone : Undoes (fun movement => .str movement.name) (choice? Movement.names) :=
  choice_undone fun movement => by cases movement <;> rfl

theorem DataSource.undone : Undoes (fun source => .str source.name) (choice? DataSource.names) :=
  choice_undone fun source => by cases source <;> rfl

theorem Scheduling.undone :
    Undoes (fun scheduling => .str scheduling.name) (choice? Scheduling.names) :=
  choice_undone fun scheduling => by cases scheduling <;> rfl

theorem EdgeProperty.undone : Undoes EdgeProperty.toJson EdgeProperty.ofJson? := by
  intro property json same
  refine record_then same (by simp) fun value own => ?_
  simp only [List.forall_mem_cons] at own
  obtain ⟨movement, dataSource, scheduling, output, input, manager, -⟩ := own
  refine read_then (Movement.undone.required movement) ?_
  refine read_then (DataSource.undone.required dataSource) ?_
  refine read_then (Scheduling.undone.required scheduling) ?_
  refine read_then (Descriptor.undone.required output) ?_
  refine read_then (Descriptor.undone.required input) ?_
  exact read_then (Descriptor.option_undone.optional manager) rfl

theorem Edge.undone : Undoes Edge.toJson Edge.ofJson? := by
  intro edge json same
  refine record_then same (by simp) fun value own => ?_
  simp only [List.forall_mem_cons] at own
  obtain ⟨id, source, destination, property, -⟩ := own
  refine read_then (EdgeId.undone.required id) ?_
  refine read_then (str_undone.required source) ?_
  refine read_then (str_undone.required destination) ?_
  exact read_then (EdgeProperty.undone.required property) rfl

end Edges

theorem Group.undone : Undoes Group.toJson Group.ofJson? := by
  intro group json same
  refine record_then same (by simp) fun value own => ?_
  simp only [List.forall_mem_cons] at own
  obtain ⟨name, members, outputs, merged, -⟩ := own
  refine read_then (str_undone.required name) ?_
  refine read_then (strings_undone.required members) ?_
  refine read_then (strings_undone.required outputs) ?_
  exact read_then ((stringMap_undone Descriptor.undone).required merged) rfl

namespace Snapshot

variable {ν ε : Type} {node : ν → Json} {readNode : Json → Option ν} {edge : ε → Json}
  {readEdge : Json → Option ε}

theorem node_undone (undone : Undoes node readNode) :
    Undoes (fun entry : SnapshotNode ν =>
      .obj [("id", .str entry.id), ("detail", node entry.detail)]) (nodeOfJson? readNode) := by
  intro entry json same
  refine record_then same (by simp) fun value own => ?_
  simp only [List.forall_mem_cons] at own
  obtain ⟨id, detail, -⟩ := own
  refine read_then (str_undone.required id) ?_
  exact read_then (undone.required detail) rfl

theorem edge_undone (undone : Undoes edge readEdge) :
    Undoes (fun entry : SnapshotEdge ε => .obj [("source", .str entry.source),
      ("target", .str entry.target), ("detail", edge entry.detail)]) (edgeOfJson? readEdge) := by
  intro entry json same
  refine record_then same (by simp) fun value own => ?_
  simp only [List.forall_mem_cons] at own
  obtain ⟨source, target, detail, -⟩ := own
  refine read_then (str_undone.required source) ?_
  refine read_then (str_undone.required target) ?_
  exact read_then (undone.required detail) rfl

theorem undone (nodes : Undoes node readNode) (edges : Undoes edge readEdge) :
    Undoes (toJson node edge) (ofJson? readNode readEdge) := by
  intro snapshot json same
  refine record_then same (by simp) fun value own => ?_
  simp only [List.forall_mem_cons] at own
  obtain ⟨stored, joined, -⟩ := own
  refine read_then ((list_undone (node_undone nodes)).required stored) ?_
  exact read_then ((list_undone (edge_undone edges)).required joined) rfl

end Snapshot

namespace Reconfiguration

theorem entry_undone : Undoes entryToJson entryOfJson? := by
  intro entry json same
  obtain ⟨others, rfl, each⟩ := same.of_arr
  cases each with
  | cons id rest =>
      cases rest with
      | cons payload rest =>
          cases rest
          simp [entryOfJson?, EdgeId.undone _ _ id, bytes_undone _ _ payload]

theorem undone : Undoes toJson ofJson? := by
  intro decision json same
  refine record_then same (by simp) fun value own => ?_
  simp only [List.forall_mem_cons] at own
  obtain ⟨parallelism, routing, payloads, -⟩ := own
  refine read_then ((list_undone entry_undone).required payloads) ?_
  refine read_then (uint32_undone.required parallelism) ?_
  refine read_then ((stringMap_undone (list_undone uint32_undone)).required routing) ?_
  exact congrArg (fun whole => some { decision with payloads := whole })
    (SortedMap.ofList_entries decision.payloads)

end Reconfiguration

theorem Plan.undone : Undoes Plan.toJson Plan.ofJson? := by
  intro plan json same
  refine record_then same (by simp) fun value own => ?_
  simp only [List.forall_mem_cons] at own
  obtain ⟨name, vertices, edges, groups, topology, resolved, -⟩ := own
  refine read_then (str_undone.required name) ?_
  refine read_then ((list_undone Vertex.undone).required vertices) ?_
  refine read_then ((list_undone Edge.undone).required edges) ?_
  refine read_then ((list_undone Group.undone).required groups) ?_
  refine read_then ((Snapshot.undone str_undone EdgeId.undone).required topology) ?_
  exact read_then ((stringMap_undone Reconfiguration.undone).required resolved) rfl

/-- The JSON value of a plan is read as that plan, with all that it holds, and so is every value
that differs from it in the order of object fields. This is so for every plan, and in particular for
a created one after whatever decisions. -/
theorem plan_is_read_back (plan : Plan) :
    Plan.ofJson? plan.toJson = some plan ∧
      ∀ json, plan.toJson.Reordered json → Plan.ofJson? json = some plan :=
  ⟨Plan.undone plan plan.toJson (.refl plan.toJson), Plan.undone plan⟩

def Json.backwards : Json → Json
  | .arr items => .arr (items.map backwards)
  | .obj fields => .obj (fields.map fun field => (field.1, backwards field.2)).reverse
  | json => json
decreasing_by
  · have := List.sizeOf_lt_of_mem ‹_ ∈ items›
    simp only [Json.arr.sizeOf_spec]
    omega
  · have := List.sizeOf_lt_of_mem ‹_ ∈ fields›
    cases field
    simp only [Json.obj.sizeOf_spec, Prod.mk.sizeOf_spec] at *
    omega

theorem Json.backwards_reordered (json : Json) : json.Reordered json.backwards := by
  induction json using backwards.induct with
  | case1 items ih =>
      rw [backwards]
      exact .arr (List.forall₂_map_right_iff.mpr (List.forall₂_same.mpr ih))
  | case2 fields ih =>
      rw [backwards]
      refine .obj (by simp) ?_ (List.reverse_perm _).symm
      rw [List.map_map, List.forall₂_map_left_iff, List.forall₂_map_right_iff]
      exact List.forall₂_same.mpr ih
  | case3 json listed fielded =>
      rw [backwards]
      · exact .refl json
      · exact listed
      · exact fielded

/-- A group of two stages feeds a third one, which was decided with a payload for one of the edges.
The plan is written with all its objects backwards. -/
theorem backwards_plan_is_read_back :
    let stage := fun (name : String) =>
      ({ name := name, processor := ⟨"Step", some [1]⟩, parallelism := .fixed 2
         resource := ⟨64, 1⟩ } : Vertex)
    let property : EdgeProperty :=
      ⟨.scatterGather, .persisted, .sequential, ⟨"Out", none⟩, ⟨"In", none⟩, none⟩
    let graph := (JobGraph.create "job" .separate).assemble
      [.addVertex (stage "left"), .addVertex (stage "right"), .addVertex (stage "join"),
        .editVertex "left" (.hints (some [⟨["near"], []⟩, ⟨[], ["rack"]⟩])),
        .editVertex "join" (.output ⟨"sink", ⟨"Rows", some []⟩, none⟩),
        .createGroup "pair" ["left", "right"],
        .addGroupEdge ⟨"pair", "join", property, ⟨"Merge", none⟩⟩]
    let decision : Reconfiguration :=
      { parallelism := 1
        routing := .ofList [("left", [0, 0])]
        payloads := .ofList [(⟨"left", "join"⟩, [7, 8])] }
    ∃ plan, graph.createPlan = .ok plan ∧
      ∃ decided, plan.applyReconfiguration "join" decision = (decided, .ok ()) ∧
        decided.vertices.map (·.name) = ["right", "left", "join"] ∧
        decided.edges.map (·.property.output.payload) = [some [7, 8], none] ∧
        decided.groups.map (·.members) = [["left", "right"]] ∧
        Plan.ofJson? decided.toJson.backwards = some decided := by
  intro stage property graph decision
  obtain ⟨plan, created, accepted, names, payloads, members⟩ :
      ∃ plan ∈ graph.createPlan.toOption,
        (plan.applyReconfiguration "join" decision).2 = .ok () ∧
        (plan.applyReconfiguration "join" decision).1.vertices.map (·.name) =
          ["right", "left", "join"] ∧
        (plan.applyReconfiguration "join" decision).1.edges.map (·.property.output.payload) =
          [some [7, 8], none] ∧
        (plan.applyReconfiguration "join" decision).1.groups.map (·.members) =
          [["left", "right"]] := by
    decide +kernel
  refine ⟨plan, toOption_eq_some_iff.mp created, _, Prod.ext rfl accepted, names, payloads,
    members, ?_⟩
  exact (plan_is_read_back _).2 _ (Json.backwards_reordered _)

end ElasticJob
