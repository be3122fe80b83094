import ElasticJob.Proofs.Graph.Groups
import ElasticJob.Proofs.Plan.HintCover
import ElasticJob.Proofs.Plan.RoundTrip

/-!
The names of a vertex's root inputs and of its leaf outputs. An edit keeps them apart, but a vertex
that is read from outside brings its own, and nothing compares them: a plan tells them apart where
the vertices that its graph was given did.
-/

namespace ElasticJob

namespace Vertex

def Distinct (vertex : Vertex) : Prop :=
  (vertex.inputs.map (·.name)).Nodup ∧ (vertex.outputs.map (·.name)).Nodup

theorem edit_distinct_iff {vertex edited : Vertex} {edit : VertexEdit}
    (done : vertex.edit edit = .ok edited) : edited.Distinct ↔ vertex.Distinct := by
  cases edit with
  | hints hints =>
      cases hints with
      | none => cases done; exact .rfl
      | some hints =>
          simp only [Vertex.edit, setHints] at done
          split at done <;> cases done
          exact .rfl
  | files files => cases done; exact .rfl
  | environment values => cases done; exact .rfl
  | launchOptions options => cases done; exact .rfl
  | input input =>
      simp only [Vertex.edit, addInput] at done
      split at done <;> cases done
      next fresh =>
        have absent : input.name ∉ vertex.inputs.map (·.name) := by simpa using fresh
        simp only [Distinct, ← List.concat_eq_append, List.map_concat, List.nodup_concat,
          and_iff_right absent]
  | output output =>
      simp only [Vertex.edit, addOutput] at done
      split at done <;> cases done
      next fresh =>
        have absent : output.name ∉ vertex.outputs.map (·.name) := by simpa using fresh
        simp only [Distinct, ← List.concat_eq_append, List.map_concat, List.nodup_concat,
          and_iff_right absent]
  | manager manager => cases done; exact .rfl

theorem editAll_distinct_iff (vertex : Vertex) (edits : List VertexEdit) :
    (vertex.editAll edits).Distinct ↔ vertex.Distinct :=
  editAll_keeps (fun current => current.Distinct ↔ vertex.Distinct) .rfl edits
    fun _ _ _ done same => (edit_distinct_iff done).trans same

theorem create_distinct {name : String} {processor : Descriptor .processor} {parallelism : Int32}
    {resource : Resource} {vertex : Vertex}
    (created : Vertex.create name processor parallelism resource = .ok vertex) :
    vertex.Distinct := by
  unfold create at created
  split at created
  · cases created
  · obtain ⟨tasks, _, rfl⟩ := map_eq_ok_iff.mp created
    exact ⟨List.nodup_nil, List.nodup_nil⟩

end Vertex

namespace JobGraph

structure KeepsDistinct (before after : JobGraph) : Prop where
  order : after.order = before.order
  distinct : ∀ name,
    (after.vertex? name).map Vertex.Distinct = (before.vertex? name).map Vertex.Distinct

theorem KeepsDistinct.refl (graph : JobGraph) : KeepsDistinct graph graph :=
  ⟨rfl, fun _ => rfl⟩

theorem KeepsDistinct.trans {first middle last : JobGraph} (earlier : KeepsDistinct first middle)
    (later : KeepsDistinct middle last) : KeepsDistinct first last :=
  ⟨later.order.trans earlier.order,
    fun name => (later.distinct name).trans (earlier.distinct name)⟩

theorem KeepsDistinct.of_map {before after : JobGraph} {change : String → Vertex → Vertex}
    (order : after.order = before.order)
    (looked : ∀ name, after.vertex? name = (before.vertex? name).map (change name))
    (same : ∀ name vertex, (change name vertex).Distinct = vertex.Distinct) :
    KeepsDistinct before after := by
  refine ⟨order, fun name => ?_⟩
  rw [looked, Option.map_map]
  congr 1
  exact funext (same name)

theorem editVertex_keepsDistinct (graph : JobGraph) (name : String) (edit : VertexEdit) :
    KeepsDistinct graph (graph.editVertex name edit).1 := by
  apply editVertex_keeps (KeepsDistinct graph) (.refl graph)
  intro vertex edited found result
  have same : edited.Distinct = vertex.Distinct := propext (Vertex.edit_distinct_iff result)
  exact ⟨rfl, putVertex_map Vertex.Distinct found same⟩

theorem addEdge_keepsDistinct (graph : JobGraph) (edge : Edge) :
    KeepsDistinct graph (graph.addEdge edge).1 := by
  apply addEdge_keeps (KeepsDistinct graph) (.refl graph)
  intro start goal _
  exact .of_map (record_frame graph edge start goal).1 (record_vertex? graph edge start goal)
    fun _ _ => rfl

theorem Grouped.createGroup_keepsDistinct {graph : JobGraph} (grouped : Grouped graph)
    (name : String) (members : List String) :
    KeepsDistinct graph (graph.createGroup name members).1 := by
  rcases grouped.createGroup_cases name members with ⟨_, refused⟩ | ⟨_, stored, looked, created⟩
  · rw [refused]
    exact .refl graph
  · rw [created]
    refine .of_map rfl looked fun other vertex => ?_
    split <;> rfl

theorem addGroupEdge_keepsDistinct (graph : JobGraph) (edge : GroupEdge) :
    KeepsDistinct graph (graph.addGroupEdge edge).1 :=
  addGroupEdge_keeps (KeepsDistinct graph) edge
    (fun current _ kept => kept.trans (addEdge_keepsDistinct current _))
    (fun _ _ _ kept => ⟨kept.order, kept.distinct⟩) graph (.refl graph)

def accepts (graph : JobGraph) (request : Request) : List Vertex :=
  match request, (graph.handle request).2 with
  | .call (.addVertex vertex), .ok () => [vertex]
  | _, _ => []

/-- The vertices that requests add, as they came, without those that were refused. -/
def accepted (graph : JobGraph) : List Request → List Vertex
  | [] => []
  | request :: rest => graph.accepts request ++ (graph.handle request).1.accepted rest

/-- The graph consists of the given vertices, whose names are apart where they were when they came
in. -/
structure Collects (graph : JobGraph) (added : List Vertex) : Prop where
  order : graph.order = added.map (·.name)
  distinct : ∀ vertex ∈ added,
    (graph.vertex? vertex.name).map Vertex.Distinct = some vertex.Distinct

theorem create_collects (name : String) (policy : NamespacePolicy) :
    (create name policy).Collects [] :=
  ⟨rfl, nofun⟩

theorem KeepsDistinct.collects {before after : JobGraph} (same : KeepsDistinct before after)
    {added : List Vertex} (collects : before.Collects added) : after.Collects added :=
  ⟨same.order.trans collects.order,
    fun vertex member => (same.distinct vertex.name).trans (collects.distinct vertex member)⟩

theorem Collects.addVertex {graph : JobGraph} {added : List Vertex}
    (collects : graph.Collects added) (vertex : Vertex) :
    (graph.addVertex vertex).1.Collects (added ++ graph.accepts (.call (.addVertex vertex))) := by
  rcases addVertex_cases graph vertex with ⟨_, refused⟩ | ⟨unknown, _, _, appended⟩
  · simpa [accepts, handle, mutate, refused, refuse] using collects
  · simp only [accepts, handle, mutate, appended, done]
    have looked : ∀ name, (graph.stored.insert vertex.name vertex).get? name =
        if name = vertex.name then some vertex else graph.vertex? name :=
      fun name => putVertex_vertex? graph vertex.name name vertex
    refine ⟨by simp [collects.order], fun other member => ?_⟩
    rw [vertex?, looked]
    rcases List.mem_append.mp member with old | new
    · -- a name that is taken is no name of a fresh vertex
      have kept := collects.distinct other old
      have elsewhere : other.name ≠ vertex.name := by
        intro same
        rw [same, unknown] at kept
        cases kept
      rw [if_neg elsewhere, kept]
    · obtain rfl := List.mem_singleton.mp new
      simp

theorem handle_collects {graph : JobGraph} (grouped : Grouped graph) {added : List Vertex}
    (collects : graph.Collects added) (request : Request) :
    (graph.handle request).1.Collects (added ++ graph.accepts request) := by
  have unchanged : KeepsDistinct graph (graph.handle request).1 → graph.accepts request = [] →
      (graph.handle request).1.Collects (added ++ graph.accepts request) := by
    intro same none
    rw [none, List.append_nil]
    exact same.collects collects
  cases request with
  | foreignEdge edge => exact unchanged (addEdge_keepsDistinct graph edge) rfl
  | call mutation =>
      cases mutation with
      | addVertex vertex => exact collects.addVertex vertex
      | editVertex name edit => exact unchanged (editVertex_keepsDistinct graph name edit) rfl
      | addEdge source destination property =>
          exact unchanged (addEdge_keepsDistinct graph _) rfl
      | createGroup name members =>
          exact unchanged (grouped.createGroup_keepsDistinct name members) rfl
      | addGroupEdge edge => exact unchanged (addGroupEdge_keepsDistinct graph edge) rfl

theorem handleAll_collects {graph : JobGraph} (wired : Wired graph) (grouped : Grouped graph)
    {added : List Vertex} (collects : graph.Collects added) (requests : List Request) :
    (graph.handleAll requests).Collects (added ++ graph.accepted requests) := by
  induction requests generalizing graph added with
  | nil => simpa [handleAll, accepted] using collects
  | cons request rest ih =>
      rw [accepted, ← List.append_assoc]
      exact ih (handle_wired graph request wired) (handle_grouped graph request wired grouped)
        (handle_collects grouped collects request)

/-- Every vertex of a plan came in as a vertex of its name, and its inputs and outputs are told
apart by their names exactly where those of that vertex were; so a plan tells them apart exactly
where no accepted vertex repeats a name. One that was created and then edited never does. -/
theorem plan_is_distinct_iff_accepted_vertices_are (name : String) (policy : NamespacePolicy)
    (requests : List Request) (plan : Plan)
    (created : ((create name policy).handleAll requests).createPlan = .ok plan) :
    let accepted := (create name policy).accepted requests
    (∀ vertex ∈ plan.vertices, ∃ added ∈ accepted,
      added.name = vertex.name ∧ (vertex.Distinct ↔ added.Distinct)) ∧
    ((∀ vertex ∈ plan.vertices, vertex.Distinct) ↔ ∀ added ∈ accepted, added.Distinct) ∧
    ∀ name processor parallelism resource vertex edits,
      Vertex.create name processor parallelism resource = .ok vertex →
      (vertex.editAll edits).Distinct := by
  intro accepted
  have collects : ((create name policy).handleAll requests).Collects accepted :=
    handleAll_collects (create_wired name policy) (create_grouped name policy)
      (create_collects name policy) requests
  have mirrored := (handleAll_orderable name policy requests).mirrored
  obtain ⟨_, names, stored⟩ := mirrored.createPlan_names created
  have same : ∀ vertex ∈ plan.vertices, ∀ added ∈ accepted, added.name = vertex.name →
      (vertex.Distinct ↔ added.Distinct) := by
    intro vertex planned added member named
    have kept := collects.distinct added member
    rw [named, stored vertex planned, Option.map_some] at kept
    exact (Option.some.inj kept).to_iff
  have origin : ∀ vertex ∈ plan.vertices, ∃ added ∈ accepted, added.name = vertex.name := by
    intro vertex planned
    have listed := (names vertex.name).mp (List.mem_map_of_mem planned)
    rwa [collects.order, List.mem_map] at listed
  refine ⟨fun vertex planned => ?_, ⟨fun apart added member => ?_, fun apart vertex planned => ?_⟩,
    fun _ _ _ _ vertex edits made => ?_⟩
  · obtain ⟨added, member, named⟩ := origin vertex planned
    exact ⟨added, member, named, same vertex planned added member named⟩
  · have listed := (names added.name).mpr (collects.order ▸ List.mem_map_of_mem member)
    obtain ⟨vertex, planned, named⟩ := List.mem_map.mp listed
    exact (same vertex planned added member named.symm).mp (apart vertex planned)
  · obtain ⟨added, member, named⟩ := origin vertex planned
    exact (same vertex planned added member named).mpr (apart added member)
  · exact (vertex.editAll_distinct_iff edits).mpr (Vertex.create_distinct made)

def splitInput (name : String) : RootInput :=
  ⟨name, ⟨"Lines", none⟩, some ⟨"Splitter", none⟩⟩

/-- The second input of the name is refused, so the manager waits for each input once. -/
theorem refused_input_leaves_plan_distinct :
    ∃ vertex plan, Vertex.create "read" ⟨"Step", none⟩ (-1) ⟨64, 1⟩ = .ok vertex ∧
      ((create "job" .shared).handleAll
        [.call (.addVertex (vertex.editAll [.input (splitInput "lines")])),
          .call (.editVertex "read" (.input (splitInput "lines"))),
          .call (.editVertex "read" (.input (splitInput "pages")))]).createPlan = .ok plan ∧
      (plan.vertices.map fun held => held.inputs.map (·.name)) = [["lines", "pages"]] ∧
      ∀ held ∈ plan.vertices, held.Distinct := by
  obtain ⟨vertex, made, plan, created, named, sole⟩ :
      ∃ vertex ∈ (Vertex.create "read" ⟨"Step", none⟩ (-1) ⟨64, 1⟩).toOption,
        ∃ plan ∈ ((create "job" .shared).handleAll
          [.call (.addVertex (vertex.editAll [.input (splitInput "lines")])),
            .call (.editVertex "read" (.input (splitInput "lines"))),
            .call (.editVertex "read" (.input (splitInput "pages")))]).createPlan.toOption,
          (plan.vertices.map fun held => held.inputs.map (·.name)) = [["lines", "pages"]] ∧
          (create "job" .shared).accepted
            [.call (.addVertex (vertex.editAll [.input (splitInput "lines")])),
              .call (.editVertex "read" (.input (splitInput "lines"))),
              .call (.editVertex "read" (.input (splitInput "pages")))] =
            [vertex.editAll [.input (splitInput "lines")]] := by
    decide +kernel
  have made := toOption_eq_some_iff.mp made
  have created := toOption_eq_some_iff.mp created
  obtain ⟨_, apart, constructed⟩ := plan_is_distinct_iff_accepted_vertices_are _ _ _ plan created
  refine ⟨vertex, plan, made, created, named, apart.mpr fun added member => ?_⟩
  rw [sole, List.mem_singleton] at member
  exact member ▸ constructed _ _ _ _ vertex _ made

def repeating : Vertex :=
  { name := "read", processor := ⟨"Step", none⟩, parallelism := .deferred, resource := ⟨64, 1⟩
    inputs := [splitInput "lines", splitInput "lines"]
    outputs := [⟨"sink", ⟨"Rows", none⟩, none⟩, ⟨"sink", ⟨"Rows", none⟩, none⟩] }

/-- The vertex can be read from JSON, and no rule refuses it. A manager that counts the inputs it
waits for by their names then hears of one where there are two. -/
theorem repeated_names_are_planned :
    Vertex.ofJson? repeating.toJson = some repeating ∧
      ∃ plan, ((create "job" .shared).handleAll
          [.call (.addVertex repeating)]).createPlan = .ok plan ∧
        ∃ vertex ∈ plan.vertices, ¬ (vertex.inputs.map (·.name)).Nodup ∧
          ¬ (vertex.outputs.map (·.name)).Nodup ∧
          (Context.ofPlan plan vertex).inputs = ["lines", "lines"] := by
  refine ⟨Vertex.undone repeating repeating.toJson (.refl _), ?_⟩
  obtain ⟨plan, created, repeated⟩ :
      ∃ plan ∈ ((create "job" .shared).handleAll
          [.call (.addVertex repeating)]).createPlan.toOption,
        ∃ vertex ∈ plan.vertices, ¬ (vertex.inputs.map (·.name)).Nodup ∧
          ¬ (vertex.outputs.map (·.name)).Nodup ∧
          (Context.ofPlan plan vertex).inputs = ["lines", "lines"] := by
    decide +kernel
  exact ⟨plan, toOption_eq_some_iff.mp created, repeated⟩

end JobGraph

end ElasticJob
