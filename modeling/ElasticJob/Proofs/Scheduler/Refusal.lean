import ElasticJob.Proofs.Plan.RoundTrip
import ElasticJob.Proofs.Scheduler.Submission

/-!
Refused submissions. The classes of all vertices are looked up before anything starts, so a plan
that is refused for a class leaves nothing behind. The parallelism of a vertex without a manager is
looked at only when its turn comes: a plan with a vertex that nothing decides is refused after the
submission was told of and the vertices before that one were started. Graphs make no such plan, but
one can be read from JSON.
-/

namespace ElasticJob

/-- Some vertex gets no manager, or comes second under its name, while the plan defers the
parallelism of this name. -/
def Plan.Undecided {σ : Type} (plan : Plan) (managers : Registry σ) : Prop :=
  ∃ before vertex after, plan.vertices = before ++ vertex :: after ∧
    (managers.managerFor? vertex = .ok none ∨ vertex.name ∈ before.map (·.name)) ∧
    ∃ first, plan.vertex? vertex.name = some first ∧ first.parallelism = .deferred

/-- The vertices of a created plan are decided: their names differ, and those that nothing decides
did not pass the checks. -/
theorem JobGraph.Mirrored.createPlan_decided {σ : Type} {graph : JobGraph}
    (mirrored : graph.Mirrored) {plan : Plan} (created : graph.createPlan = .ok plan)
    (managers : Registry σ) : ¬ plan.Undecided managers := by
  rintro ⟨before, vertex, after, split, alone, first, found, deferred⟩
  obtain ⟨distinct, _, _⟩ := mirrored.createPlan_names created
  have member : vertex ∈ plan.vertices := by simp [split]
  obtain rfl : vertex = first :=
    Option.some.inj ((Plan.vertex?_of_mem distinct member).symm.trans found)
  have checked := mirrored.createPlan_checked created vertex member
  rcases alone with unmanaged | again
  · obtain ⟨noManager, noInput⟩ := (managers.managerFor?_none_iff vertex).mp unmanaged
    rcases checked.decided deferred with managed | ⟨input, inside, initialized⟩
    · simp [noManager] at managed
    · exact List.filter_eq_nil_iff.mp noInput input inside initialized
  · rw [split, List.map_append, List.nodup_append] at distinct
    exact distinct.2.2 vertex.name again vertex.name (by simp) rfl

namespace Submission

variable {σ ι : Type}

theorem startAll_reported_prefix (managed seen : List String) (staff : List (Staff σ ι))
    (scheduler : Scheduler σ ι) :
    scheduler.reported <+: (startAll managed seen scheduler staff).scheduler.reported := by
  apply startAll_keeps (scheduler.reported <+: ·.reported) managed seen staff scheduler
  · exact fun _ _ _ _ told => told
  · exact fun _ _ _ told => told.trans (List.prefix_append _ _)
  · exact List.prefix_refl _

theorem startAll_stops {managers : Registry σ} {initializers : Registry ι} {vertices : List Vertex}
    {staff : List (Staff σ ι)}
    (paired : List.Forall₂ (createStaff managers initializers · = .ok ·) vertices staff)
    (managed seen : List String) (scheduler : Scheduler σ ι)
    (known : ∀ vertex ∈ vertices, ∃ first, scheduler.plan.vertex? vertex.name = some first)
    {error : JobError} (refused : (startAll managed seen scheduler staff).result = .error error) :
    ∃ before vertex after, vertices = before ++ vertex :: after ∧
      (managers.managerFor? vertex = .ok none ∨ vertex.name ∈ seen ∨
        vertex.name ∈ before.map (·.name)) ∧
      ∃ first, scheduler.plan.vertex? vertex.name = some first ∧
        first.parallelism = .deferred := by
  induction paired generalizing seen scheduler with
  | nil => cases refused
  | @cons vertex one later others created _ ih =>
      obtain ⟨name, chosen, _⟩ := createStaff_ok managers initializers vertex one created
      obtain ⟨first, found⟩ := known vertex List.mem_cons_self
      have beyond := fun other listed => known other (List.mem_cons_of_mem _ listed)
      -- a vertex further on that stops the start stops it for the whole list
      have further : ∀ next : Scheduler σ ι,
          (startAll managed (one.vertex :: seen) next others).result = .error error →
          next.plan = scheduler.plan →
          ∃ before stuck after, vertex :: later = before ++ stuck :: after ∧
            (managers.managerFor? stuck = .ok none ∨ stuck.name ∈ seen ∨
              stuck.name ∈ before.map (·.name)) ∧
            ∃ first, scheduler.plan.vertex? stuck.name = some first ∧
              first.parallelism = .deferred := by
        intro next stopped same
        rw [← same] at beyond ⊢
        obtain ⟨before, stuck, after, split, alone, deferred⟩ := ih _ next beyond stopped
        refine ⟨vertex :: before, stuck, after, by rw [split, List.cons_append], ?_, deferred⟩
        rw [name] at alone
        simpa only [List.map_cons, List.mem_cons, or_assoc, or_left_comm] using alone
      rcases startAll_cases managed seen one others scheduler first (name ▸ found) with
        ⟨manager, _, _, same⟩ | ⟨free, ⟨tasks, _, same⟩ | ⟨deferred, _⟩⟩
      · rw [same] at refused
        exact further _ refused rfl
      · rw [same] at refused
        exact further _ refused rfl
      · refine ⟨[], vertex, later, rfl, ?_, first, found, deferred⟩
        rcases free with none | again
        · exact .inl (none ▸ chosen)
        · exact .inr (.inl (name ▸ again))

end Submission

namespace Scheduler

open Submission

variable {σ ι : Type}

/-- A submission is refused for a class, before it starts anything, or for a vertex that nothing
decides, after the history was told of it. -/
theorem submit_refused (plan : Plan) (managers : Registry σ)
    (initializers : Registry ι) (error : JobError)
    (refused : (submit plan managers initializers).result = .error error) :
    let left := (submit plan managers initializers).scheduler
    (left = { plan := plan } ∧
        ∃ vertex ∈ plan.vertices, createStaff managers initializers vertex = .error error) ∨
      plan.Undecided managers ∧ left ≠ { plan := plan } ∧
        ∀ vertex ∈ plan.vertices, ∃ staff, createStaff managers initializers vertex = .ok staff := by
  unfold submit at refused ⊢
  cases created : plan.vertices.mapM (createStaff managers initializers) with
  | error other =>
      simp only [created, Except.error.injEq] at refused
      exact .inl ⟨rfl, refused ▸ mapM_error created⟩
  | ok staff =>
      simp only [created] at refused
      have paired := mapM_forall₂ _ _ _ created
      have known : ∀ vertex ∈ plan.vertices, ∃ first, plan.vertex? vertex.name = some first := by
        intro vertex member
        apply Option.isSome_iff_exists.mp
        rw [Plan.vertex?, List.find?_isSome]
        exact ⟨vertex, member, by simp⟩
      refine .inr ⟨?_, ?_, fun vertex member => ?_⟩
      · obtain ⟨before, vertex, after, split, alone, deferred⟩ :=
          startAll_stops paired _ _ _ known refused
        exact ⟨before, vertex, after, split, by simpa using alone, deferred⟩
      · have opening := startAll_reported_prefix (managedNames [] staff) [] staff (Scheduler.report
          { plan := plan : Scheduler σ ι } (.submitted (UInt64.ofNat plan.vertices.length)))
        intro nothing
        rw [nothing] at opening
        exact List.cons_ne_nil _ _ (List.prefix_nil.mp opening)
      · obtain ⟨one, _, made⟩ := exists_paired paired vertex member
        exact ⟨one, made⟩

/-- A refused submission starts nothing, unless it meets a vertex that nothing decides. It started
nothing just where a class is unknown; so a created plan is started as a whole or not at all. -/
theorem refused_submission_starts_nothing (plan : Plan) (managers : Registry σ)
    (initializers : Registry ι) (error : JobError)
    (refused : (submit plan managers initializers).result = .error error) :
    let left := (submit plan managers initializers).scheduler
    (¬ plan.Undecided managers → left = { plan := plan }) ∧
      (left = { plan := plan } ↔
        ∃ vertex ∈ plan.vertices, createStaff managers initializers vertex = .error error) ∧
      ∀ name policy requests, ((JobGraph.create name policy).handleAll requests).createPlan =
        .ok plan → left = { plan := plan } := by
  intro left
  rcases submit_refused plan managers initializers error refused with
    ⟨nothing, unknown⟩ | ⟨undecided, something, all⟩
  · exact ⟨fun _ => nothing, ⟨fun _ => unknown, fun _ => nothing⟩, fun _ _ _ _ => nothing⟩
  · refine ⟨fun decided => absurd undecided decided, ⟨fun nothing => absurd nothing something, ?_⟩,
      fun name policy requests created => ?_⟩
    · rintro ⟨vertex, member, failed⟩
      obtain ⟨staff, made⟩ := all vertex member
      cases failed.symm.trans made
    · have mirrored := (JobGraph.handleAll_orderable name policy requests).mirrored
      exact absurd undecided (mirrored.createPlan_decided created managers)

/-- The second vertex needs an unknown initializer, so the first one is not started either. -/
theorem unknown_initializer_starts_nothing :
    let stage := fun (name : String) => ({ name := name, processor := ⟨"Step", none⟩
                                           parallelism := .deferred, resource := ⟨64, 1⟩ } : Vertex)
    let requests := [.addVertex (stage "first"),
      .editVertex "first" (.manager ⟨BuiltIn.immediateClass, none⟩), .addVertex (stage "second"),
      .editVertex "second" (.input ⟨"lines", ⟨"Lines", none⟩, some ⟨"Splitter", none⟩⟩)]
    ∃ plan, ((JobGraph.create "job" .shared).handleAll (requests.map .call)).createPlan = .ok plan ∧
      let refused := submit plan BuiltIn.registry (.empty : Registry Unit)
      refused.result = .error (.invalidArgument "root input initializer `Splitter` not registered") ∧
        refused.scheduler = { plan := plan } := by
  intro stage requests
  obtain ⟨plan, created, failed⟩ :
      ∃ plan ∈ ((JobGraph.create "job" .shared).handleAll
          (requests.map .call)).createPlan.toOption,
        (submit plan BuiltIn.registry (.empty : Registry Unit)).result =
          .error (.invalidArgument "root input initializer `Splitter` not registered") := by
    decide +kernel
  have made := toOption_eq_some_iff.mp created
  obtain ⟨_, _, whole⟩ := refused_submission_starts_nothing plan BuiltIn.registry .empty _ failed
  exact ⟨plan, made, failed, whole _ _ _ made⟩

/-- A plan that can be read from JSON is refused for its second vertex, after the first one was
started. -/
theorem undecided_vertex_is_found_late :
    let stage : Vertex := {
      name := "read", processor := ⟨"Step", none⟩, parallelism := .deferred, resource := ⟨64, 1⟩
      inputs := [⟨"lines", ⟨"Lines", none⟩, some ⟨"Splitter", none⟩⟩] }
    let plan : Plan := {
      name := "job", vertices := [stage, { stage with name := "late", inputs := [] }]
      edges := [], groups := [], topology := ⟨[⟨"0", "read"⟩, ⟨"1", "late"⟩], []⟩ }
    let refused := submit plan BuiltIn.registry ((Registry.empty).register "Splitter" ())
    Plan.ofJson? plan.toJson = some plan ∧
      refused.result = .error (.invalidState
        "vertex `late` has parallelism -1 and nothing to decide it") ∧
      refused.scheduler.reported = [.submitted 2] ∧ refused.scheduler.workers.length = 1 ∧
      refused.scheduler.tasks.length = 1 := by
  intro stage plan refused
  exact ⟨Plan.undone plan plan.toJson (.refl plan.toJson), by decide +kernel⟩

end Scheduler

end ElasticJob
