import ElasticJob.Proofs.Plan.Commutation

/-!
Location hints against the number of tasks. A vertex that is read from outside may carry any number
of hints, and nothing refuses it until a plan is made of its graph. From then on a vertex has a hint
for every task or none at all: an edit is refused where it would break that, and a decision drops
the hints that no longer fit.
-/

namespace ElasticJob

namespace Vertex

def Covered (vertex : Vertex) : Prop :=
  ∀ hints, vertex.hints = some hints →
    ∃ tasks, vertex.parallelism = .fixed tasks ∧ hints.length = tasks.toNat

def editAll (vertex : Vertex) (edits : List VertexEdit) : Vertex :=
  edits.foldl (fun current edit => (current.edit edit).toOption.getD current) vertex

theorem editAll_keeps (keeps : Vertex → Prop) {vertex : Vertex} (holds : keeps vertex)
    (edits : List VertexEdit)
    (step : ∀ current edited edit, current.edit edit = .ok edited → keeps current → keeps edited) :
    keeps (vertex.editAll edits) := by
  apply List.foldlRecOn edits (motive := keeps)
  · exact holds
  · intro current kept edit _
    cases done : current.edit edit with
    | error refused => exact kept
    | ok edited => exact step current edited edit done kept

theorem create_covered {name : String} {processor : Descriptor .processor} {parallelism : Int32}
    {resource : Resource} {vertex : Vertex}
    (created : Vertex.create name processor parallelism resource = .ok vertex) :
    vertex.Covered := by
  unfold create at created
  split at created
  · cases created
  · obtain ⟨tasks, _, rfl⟩ := map_eq_ok_iff.mp created
    intro hints held
    cases held

theorem Covered.edit {vertex edited : Vertex} {edit : VertexEdit} (covered : vertex.Covered)
    (done : vertex.edit edit = .ok edited) : edited.Covered := by
  have kept := JobGraph.edit_keeps vertex edited edit done
  intro hints held
  rw [kept.parallelism]
  rcases kept.hints with same | ⟨taken, replaced, matching⟩
  · exact covered hints (same ▸ held)
  · obtain rfl : taken = hints := Option.some.inj (replaced.symm.trans held)
    exact Parallelism.matchesCount_iff.mp matching

theorem Covered.editAll {vertex : Vertex} (covered : vertex.Covered) (edits : List VertexEdit) :
    (vertex.editAll edits).Covered :=
  editAll_keeps Covered covered edits fun _ _ _ done kept => kept.edit done

theorem setParallelism_covered (vertex : Vertex) (parallelism : Parallelism) :
    (vertex.setParallelism parallelism).Covered := by
  intro hints held
  exact Parallelism.matchesCount_iff.mp (Option.filter_eq_some_iff.mp held).2

theorem setParallelism_hints (vertex : Vertex) (tasks : UInt32) :
    (vertex.setParallelism (.fixed tasks)).hints =
      vertex.hints.filter fun hints => hints.length = tasks.toNat := by
  simp [setParallelism, Parallelism.matchesCount, eq_comm]

end Vertex

namespace Plan

section Updates

variable {α : Type} {fits : α → Bool} {change : α → α}

theorem mem_updateFirst {items : List α} {found : α}
    (member : found ∈ updateFirst fits change items) :
    found ∈ items ∨ ∃ item ∈ items, found = change item := by
  induction items with
  | nil => cases member
  | cons first rest ih =>
      rw [updateFirst] at member
      split at member
      · rcases List.mem_cons.mp member with changed | later
        · exact .inr ⟨first, List.mem_cons_self, changed⟩
        · exact .inl (List.mem_cons_of_mem _ later)
      · rcases List.mem_cons.mp member with same | later
        · exact .inl (same ▸ List.mem_cons_self)
        · rcases ih later with kept | ⟨item, listed, changed⟩
          · exact .inl (List.mem_cons_of_mem _ kept)
          · exact .inr ⟨item, List.mem_cons_of_mem _ listed, changed⟩

theorem find?_updateFirst (keeps : ∀ item, fits (change item) = fits item) (items : List α) :
    (updateFirst fits change items).find? fits = (items.find? fits).map change := by
  induction items with
  | nil => rfl
  | cons first rest ih =>
      rw [updateFirst]
      by_cases fit : fits first = true
      · simp [fit, keeps]
      · simp [fit, ih]

end Updates

def Covered (plan : Plan) : Prop :=
  ∀ vertex ∈ plan.vertices, vertex.Covered

theorem Covered.resolve {plan : Plan} (covered : plan.Covered) (name : String)
    (decision : Reconfiguration) : (plan.resolve name decision).Covered := by
  intro vertex member
  rcases mem_updateFirst member with kept | ⟨before, _, rfl⟩
  · exact covered vertex kept
  · exact before.setParallelism_covered _

theorem Covered.after {plan : Plan} (covered : plan.Covered)
    (entry : String × Reconfiguration) : (plan.after entry).Covered := by
  rw [after_eq]
  split
  · exact covered.resolve entry.1 entry.2
  · exact covered

theorem Covered.applyEach {plan : Plan} (covered : plan.Covered)
    (entries : List (String × Reconfiguration)) : (plan.applyEach entries).1.Covered := by
  induction entries generalizing plan with
  | nil => exact covered
  | cons entry rest ih => exact ih (covered.after entry)

theorem after_vertex? {plan : Plan} {entry : String × Reconfiguration}
    (accepted : plan.verdict entry = .ok ()) :
    (plan.after entry).vertex? entry.1 =
      (plan.vertex? entry.1).map (·.setParallelism (.fixed entry.2.parallelism)) := by
  rw [after_eq, if_pos accepted]
  have named : ∀ vertex : Vertex,
      decide ((vertex.setParallelism (.fixed entry.2.parallelism)).name = entry.1) =
        decide (vertex.name = entry.1) := fun _ => rfl
  exact find?_updateFirst named plan.vertices

end Plan

namespace JobGraph

/-- No plan is made of a graph with hints that do not fit. -/
theorem Mirrored.createPlan_covered {graph : JobGraph} (mirrored : Mirrored graph) {plan : Plan}
    (created : graph.createPlan = .ok plan) : plan.Covered :=
  fun vertex member => (mirrored.createPlan_checked created vertex member).covered

end JobGraph

/-- Hints cover every task of a vertex that was created and then edited, and of every vertex of a
plan, whatever its graph was given and whatever was decided since. A decision keeps the hints of its
vertex where there is one for every task from then on, and drops them otherwise. -/
theorem hints_cover_every_task :
    (∀ name processor parallelism resource vertex edits,
      Vertex.create name processor parallelism resource = .ok vertex →
      (vertex.editAll edits).Covered) ∧
    (∀ name policy requests plan entries,
      ((JobGraph.create name policy).handleAll requests).createPlan = .ok plan →
      ∀ vertex ∈ (plan.applyEach entries).1.vertices, vertex.Covered) ∧
    ∀ (plan : Plan) (name : String) (decision : Reconfiguration) (vertex : Vertex),
      plan.vertex? name = some vertex →
      (plan.applyReconfiguration name decision).2 = .ok () →
      ∃ after, (plan.applyReconfiguration name decision).1.vertex? name = some after ∧
        after.parallelism = .fixed decision.parallelism ∧
        (vertex.hints = none → after.hints = none) ∧
        ∀ hints, vertex.hints = some hints →
          after.hints = if hints.length = decision.parallelism.toNat then some hints else none := by
  refine ⟨fun _ _ _ _ _ edits created => (Vertex.create_covered created).editAll edits,
    fun name policy requests plan entries created => ?_,
    fun plan name decision vertex found accepted => ?_⟩
  · have mirrored := (JobGraph.handleAll_orderable name policy requests).mirrored
    exact (mirrored.createPlan_covered created).applyEach entries
  · refine ⟨vertex.setParallelism (.fixed decision.parallelism), ?_, rfl, fun none => ?_,
      fun hints held => ?_⟩
    · have judged : plan.verdict (name, decision) = .ok () := accepted
      have resolved := Plan.after_vertex? judged
      rw [found] at resolved
      exact resolved
    · rw [Vertex.setParallelism_hints, none, Option.filter_none]
    · rw [Vertex.setParallelism_hints, held, Option.filter_some]
      simp

def hintEdits : List VertexEdit :=
  [.hints (some (List.replicate 3 ⟨[], []⟩)), .hints (some (List.replicate 2 ⟨[], []⟩))]

theorem widened_stage_loses_its_hints :
    ∃ vertex plan, Vertex.create "map" ⟨"Step", none⟩ 2 ⟨64, 1⟩ = .ok vertex ∧
      (vertex.editAll hintEdits).hints = some (List.replicate 2 ⟨[], []⟩) ∧
      (vertex.editAll hintEdits).Covered ∧
      ((JobGraph.create "job" .shared).handleAll
        [.call (.addVertex (vertex.editAll hintEdits))]).createPlan = .ok plan ∧
      (∀ held ∈ (plan.applyEach [("map", { parallelism := 2 })]).1.vertices, held.Covered) ∧
      ∃ after, (plan.applyReconfiguration "map" { parallelism := 3 }).1.vertex? "map" =
        some after ∧ after.hints = none := by
  obtain ⟨creation, edits, decision⟩ := hints_cover_every_task
  obtain ⟨vertex, made, plan, created, hinted, found, accepted⟩ :
      ∃ vertex ∈ (Vertex.create "map" ⟨"Step", none⟩ 2 ⟨64, 1⟩).toOption,
        ∃ plan ∈ ((JobGraph.create "job" .shared).handleAll
          [.call (.addVertex (vertex.editAll hintEdits))]).createPlan.toOption,
          (vertex.editAll hintEdits).hints = some (List.replicate 2 ⟨[], []⟩) ∧
          plan.vertex? "map" = some (vertex.editAll hintEdits) ∧
          (plan.applyReconfiguration "map" { parallelism := 3 }).2 = .ok () := by
    decide +kernel
  have made := toOption_eq_some_iff.mp made
  have created := toOption_eq_some_iff.mp created
  obtain ⟨after, changed, _, _, hints⟩ := decision plan "map" _ _ found accepted
  exact ⟨vertex, plan, made, hinted, creation _ _ _ _ vertex hintEdits made, created,
    edits "job" .shared _ plan _ created, after, changed, hints _ hinted⟩

end ElasticJob
