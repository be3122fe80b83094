import ElasticJob.Proofs.Collection.Pairing
import ElasticJob.Proofs.Plan.Creation
import ElasticJob.Scheduler.Submit

/-!
Where an accepted submission puts the vertices of a plan. Every vertex is either settled or has a
fresh worker of its own, found under its name and told of by the vertices that feed it; nothing
that was started earlier is touched again.
-/

namespace ElasticJob

theorem Registry.managerFor?_none_iff {σ : Type} (managers : Registry σ) (vertex : Vertex) :
    managers.managerFor? vertex = .ok none ↔
      vertex.manager = none ∧ vertex.initializedInputs = [] := by
  unfold Registry.managerFor?
  cases vertex.manager with
  | some descriptor =>
      cases made : managers.createManager descriptor.className <;> simp [made, Except.map]
  | none =>
      by_cases free : vertex.initializedInputs = []
      · simp [free]
      · cases managers.createManager BuiltIn.rootInputClass <;> simp [Except.map, free]

theorem Plan.Routed.settledTasks?_eq_some_iff {σ : Type} {plan : Plan} (routed : plan.Routed)
    (managers : Registry σ) (source : Vertex) (known : source ∈ plan.vertices) (tasks : UInt32) :
    Context.settledTasks? plan source.name = some tasks ↔
      managers.managerFor? source = .ok none ∧ source.parallelism = .fixed tasks := by
  rw [managers.managerFor?_none_iff]
  simp only [Context.settledTasks?, Context.settledSource?, routed.vertex? source known]
  split
  · rename_i deferring
    constructor
    · intro impossible
      cases impossible
    · rintro ⟨⟨alone, free⟩, fixed⟩
      simp [Vertex.needsReconfiguration, alone, free, fixed, Parallelism.isDeferred] at deferring
  · rename_i closed
    simp only [Vertex.needsReconfiguration, Bool.or_eq_true, not_or, Bool.not_eq_true,
      Option.isSome_eq_false_iff, Option.isNone_iff_eq_none, Bool.not_eq_false',
      List.isEmpty_iff] at closed
    obtain ⟨⟨_, alone⟩, free⟩ := closed
    cases source.parallelism <;> simp [alone, free, Parallelism.fixed?]

namespace Submission

variable {σ ι : Type}

theorem createStaff_ok (managers : Registry σ) (initializers : Registry ι) (vertex : Vertex)
    (staff : Staff σ ι) (created : createStaff managers initializers vertex = .ok staff) :
    staff.vertex = vertex.name ∧ managers.managerFor? vertex = .ok staff.manager ∧
      ∀ input ∈ vertex.initializedInputs, ∃ entry ∈ staff.initializers,
        entry.1.input = input.name := by
  obtain ⟨manager, chosen, started⟩ := bind_eq_ok_iff.mp created
  obtain ⟨entries, listed, made⟩ := bind_eq_ok_iff.mp started
  cases made
  refine ⟨rfl, chosen, fun input member => ?_⟩
  obtain ⟨entry, stored, found⟩ := exists_paired (mapM_forall₂ _ _ _ listed) input member
  obtain ⟨_, _, same⟩ := bind_eq_ok_iff.mp found
  cases same
  exact ⟨_, stored, rfl⟩

theorem createStaff_names {managers : Registry σ} {initializers : Registry ι}
    {vertices : List Vertex} {staff : List (Staff σ ι)}
    (created : vertices.mapM (createStaff managers initializers) = .ok staff) :
    vertices.map (·.name) = staff.map (·.vertex) := by
  have named := (mapM_forall₂ _ _ _ created).imp fun vertex one made =>
    (createStaff_ok managers initializers vertex one made).1.symm
  rw [← List.forall₂_eq_eq_eq, List.forall₂_map_left_iff, List.forall₂_map_right_iff]
  exact named

def freshWorker (plan : Plan) (managed : List String) (vertex : Vertex) (manager : σ) :
    Worker σ :=
  { context := .ofPlan plan vertex
    lifecycle := .create vertex.name
    manager := manager
    downstream := (plan.destinationsOf vertex.name).filterMap (workerIndex? managed) }

def Placed (managed : List String) (scheduler : Scheduler σ ι) (vertex : Vertex)
    (staff : Staff σ ι) : Prop :=
  match staff.manager with
  | none => ∃ tasks, vertex.parallelism = .fixed tasks ∧
      scheduler.handles.get? vertex.name =
        some ⟨.settled { parallelism := tasks }, scheduler.plan.destinationsOf vertex.name⟩
  | some manager => ∃ index, workerIndex? managed vertex.name = some index ∧
      scheduler.handles.get? vertex.name =
        some ⟨.managed index, scheduler.plan.destinationsOf vertex.name⟩ ∧
      scheduler.workers[index]? = some (freshWorker scheduler.plan managed vertex manager) ∧
      ∀ entry ∈ staff.initializers,
        { worker := index, context := entry.1, initializer := entry.2 } ∈ scheduler.tasks

structure Extends (seen : List String) (before after : Scheduler σ ι) : Prop where
  plan : after.plan = before.plan
  running : after.isAborted = before.isAborted
  handles : ∀ name ∈ seen, after.handles.get? name = before.handles.get? name
  workers : ∀ (index : Nat) (worker : Worker σ), before.workers[index]? = some worker →
    after.workers[index]? = some worker
  tasks : before.tasks ⊆ after.tasks

theorem Extends.refl (seen : List String) (scheduler : Scheduler σ ι) :
    Extends seen scheduler scheduler :=
  ⟨rfl, rfl, fun _ _ => rfl, fun _ _ found => found, List.Subset.refl _⟩

theorem Extends.trans {seen later : List String} {first middle last : Scheduler σ ι}
    (before : Extends seen first middle) (after : Extends later middle last)
    (more : seen ⊆ later) : Extends seen first last :=
  ⟨after.plan.trans before.plan, after.running.trans before.running,
    fun name old => (after.handles name (more old)).trans (before.handles name old),
    fun index worker found => after.workers index worker (before.workers index worker found),
    List.Subset.trans before.tasks after.tasks⟩

theorem Extends.placed {seen managed : List String} {before after : Scheduler σ ι}
    {vertex : Vertex} {staff : Staff σ ι} (kept : Extends seen before after)
    (known : vertex.name ∈ seen) (placed : Placed managed before vertex staff) :
    Placed managed after vertex staff := by
  unfold Placed at placed ⊢
  rw [kept.plan, kept.handles vertex.name known]
  cases manager : staff.manager with
  | none => simpa [manager] using placed
  | some manager =>
      simp only [manager] at placed ⊢
      obtain ⟨index, found, handle, worker, tasks⟩ := placed
      exact ⟨index, found, handle, kept.workers _ _ worker,
        fun entry listed => kept.tasks (tasks entry listed)⟩

structure Fresh (seen : List String) (scheduler : Scheduler σ ι) : Prop where
  workers : ∀ worker ∈ scheduler.workers, worker.queue = [] ∧ worker.outcome = none ∧
    worker.lifecycle.phase = .uninitialized
  named : ∀ (index : Nat) (worker : Worker σ), scheduler.workers[index]? = some worker →
    worker.lifecycle.vertex ∈ seen ∧ ∃ downstream,
      scheduler.handles.get? worker.lifecycle.vertex = some ⟨.managed index, downstream⟩
  tasks : ∀ task ∈ scheduler.tasks, task.stream = none

section Starting

variable (managed seen : List String) (scheduler : Scheduler σ ι) (vertex : Vertex)

theorem putHandle_get? (name other : String) (standing : Standing) :
    (putHandle scheduler name standing).handles.get? other =
      if other = name then some ⟨standing, scheduler.plan.destinationsOf name⟩
      else scheduler.handles.get? other := by
  by_cases same : other = name
  · simp [putHandle, same]
  · simp [putHandle, same, SortedMap.get?_insert_ne _ _ same]

theorem staffVertex_extends (manager : σ) (initializers : List (InitializerContext × ι))
    (unseen : vertex.name ∉ seen) :
    Extends seen scheduler (staffVertex managed scheduler vertex manager initializers) := by
  refine ⟨rfl, rfl, fun name old => ?_, fun index worker found => ?_, ?_⟩
  · rw [staffVertex, putHandle_get?, if_neg (ne_of_mem_of_not_mem old unseen)]
  · exact (List.getElem?_append_left (List.getElem?_eq_some_iff.mp found).1).trans found
  · exact List.subset_append_left _ _

theorem staffVertex_placed (staff : Staff σ ι) (manager : σ) (chosen : staff.manager = some manager)
    (turn : workerIndex? managed vertex.name = some scheduler.workers.length) :
    Placed managed (staffVertex managed scheduler vertex manager staff.initializers) vertex
      staff := by
  simp only [Placed, chosen]
  refine ⟨scheduler.workers.length, turn, ?_, ?_, fun entry listed => ?_⟩
  · rw [staffVertex, putHandle_get?, if_pos rfl]
    rfl
  · exact List.getElem?_concat_length
  · exact List.mem_append_right _ (List.mem_map.mpr ⟨entry, listed, rfl⟩)

theorem staffVertex_fresh (manager : σ) (initializers : List (InitializerContext × ι))
    (fresh : Fresh seen scheduler) (unseen : vertex.name ∉ seen) :
    Fresh (vertex.name :: seen)
      (staffVertex managed scheduler vertex manager initializers) := by
  refine ⟨fun worker member => ?_, fun index worker found => ?_, fun task member => ?_⟩
  · rcases List.mem_append.mp member with old | new
    · exact fresh.workers worker old
    · rw [List.mem_singleton.mp new]
      exact ⟨rfl, rfl, rfl⟩
  · change (scheduler.workers ++ [freshWorker scheduler.plan managed vertex manager])[index]? =
      some worker at found
    rw [staffVertex, putHandle_get?]
    rcases Nat.lt_or_ge index scheduler.workers.length with old | new
    · rw [List.getElem?_append_left old] at found
      obtain ⟨known, handle⟩ := fresh.named index worker found
      rw [if_neg (ne_of_mem_of_not_mem known unseen)]
      exact ⟨List.mem_cons_of_mem _ known, handle⟩
    · rw [List.getElem?_append_right new, List.getElem?_singleton] at found
      split at found
      · rename_i here
        cases found
        obtain rfl : index = scheduler.workers.length := by omega
        exact ⟨List.mem_cons_self, by simp [freshWorker, Lifecycle.create]⟩
      · cases found
  · rcases List.mem_append.mp member with old | new
    · exact fresh.tasks task old
    · obtain ⟨_, _, rfl⟩ := List.mem_map.mp new
      rfl

theorem settled_placed (tasks : UInt32) (fixed : vertex.parallelism = .fixed tasks)
    (unseen : vertex.name ∉ seen) (fresh : Fresh seen scheduler) :
    let settled := putHandle (scheduler.report (.vertexFinalized vertex.name tasks)) vertex.name
      (.settled { parallelism := tasks })
    Extends seen scheduler settled ∧ Fresh (vertex.name :: seen) settled ∧
      ∀ staff : Staff σ ι, staff.manager = none → Placed managed settled vertex staff := by
  have handle := putHandle_get? (scheduler.report (.vertexFinalized vertex.name tasks))
    vertex.name
  refine ⟨⟨rfl, rfl, fun name old => ?_, fun _ _ found => found, List.Subset.refl _⟩,
    ⟨fresh.workers, fun index worker found => ?_, fresh.tasks⟩, fun staff none => ?_⟩
  · rw [handle, if_neg (ne_of_mem_of_not_mem old unseen)]
    rfl
  · obtain ⟨known, shown⟩ := fresh.named index worker found
    rw [handle, if_neg (ne_of_mem_of_not_mem known unseen)]
    exact ⟨List.mem_cons_of_mem _ known, shown⟩
  · simp only [Placed, none]
    exact ⟨tasks, fixed, by rw [handle, if_pos rfl]; rfl⟩

end Starting

theorem managedNames_sublist (seen : List String) (staff : List (Staff σ ι)) :
    (managedNames seen staff).Sublist (staff.map (·.vertex)) := by
  induction staff generalizing seen with
  | nil => exact .slnil
  | cons first rest ih =>
      simp only [managedNames, List.map_cons]
      split
      · exact (ih _).cons_cons _
      · exact (ih _).cons _

theorem workerIndex?_next (before later : List String) (name : String) (fresh : name ∉ before) :
    workerIndex? (before ++ name :: later) name = some before.length := by
  simp [workerIndex?, List.idxOf_append_of_notMem fresh]

theorem workerIndex?_eq_some_iff {managed : List String} (distinct : managed.Nodup) (index : Nat)
    (name other : String) (listed : managed[index]? = some name) :
    workerIndex? managed other = some index ↔ other = name := by
  obtain ⟨inside, same⟩ := List.getElem?_eq_some_iff.mp listed
  unfold workerIndex?
  constructor
  · intro found
    split at found
    · rename_i member
      have place := List.getElem?_idxOf member
      rw [Option.some.inj found, listed] at place
      exact (Option.some.inj place).symm
    · cases found
  · rintro rfl
    subst same
    rw [if_pos (List.getElem_mem inside), distinct.idxOf_getElem index inside]

theorem unseen_cons {seen : List String} {first : Staff σ ι} {rest : List (Staff σ ι)}
    (distinct : ((first :: rest).map (·.vertex)).Nodup)
    (unseen : ∀ member ∈ first :: rest, member.vertex ∉ seen) :
    ∀ member ∈ rest, member.vertex ∉ first.vertex :: seen := by
  intro member listed same
  rcases List.mem_cons.mp same with equal | old
  · exact (List.nodup_cons.mp distinct).1 (List.mem_map.mpr ⟨member, listed, equal⟩)
  · exact unseen member (List.mem_cons_of_mem _ listed) old

theorem startAll_cons (managed seen : List String) (first : Staff σ ι) (rest : List (Staff σ ι))
    (scheduler : Scheduler σ ι) (unseen : first.vertex ∉ seen)
    (turns : managed =
      scheduler.workers.map (·.lifecycle.vertex) ++ managedNames seen (first :: rest))
    (fresh : Fresh seen scheduler)
    (accepted : (startAll managed seen scheduler (first :: rest)).result = .ok ()) :
    ∃ vertex next, scheduler.plan.vertex? first.vertex = some vertex ∧
      startAll managed seen scheduler (first :: rest) =
        startAll managed (first.vertex :: seen) next rest ∧
      Extends seen scheduler next ∧ Fresh (first.vertex :: seen) next ∧
      Placed managed next vertex first ∧
      managed = next.workers.map (·.lifecycle.vertex) ++
        managedNames (first.vertex :: seen) rest := by
  cases found : scheduler.plan.vertex? first.vertex with
  | none => simp [startAll, found] at accepted
  | some vertex =>
      have name : vertex.name = first.vertex := by simpa using List.find?_some found
      have start := startAll_cases managed seen first rest scheduler vertex found
      simp only [managedNames] at turns
      rw [← name] at unseen turns start ⊢
      rcases start with ⟨manager, chosen, _, same⟩ | ⟨free, ⟨tasks, fixed, same⟩ | ⟨_, stopped⟩⟩
      · simp only [chosen, Option.isSome_some, unseen, not_false_eq_true, and_self, if_true]
          at turns
        -- the workers so far are of other vertices, so the next turn is this one's
        have before : vertex.name ∉ scheduler.workers.map (·.lifecycle.vertex) := by
          intro member
          obtain ⟨worker, listed, same⟩ := List.mem_map.mp member
          obtain ⟨index, place⟩ := List.mem_iff_getElem?.mp listed
          exact unseen (same ▸ (fresh.named index worker place).1)
        have turn : workerIndex? managed vertex.name = some scheduler.workers.length := by
          rw [turns, workerIndex?_next _ _ _ before, List.length_map]
        refine ⟨vertex, _, rfl, same,
          staffVertex_extends managed seen scheduler vertex manager _ unseen,
          staffVertex_fresh managed seen scheduler vertex manager _ fresh unseen,
          staffVertex_placed managed scheduler vertex first manager chosen turn, ?_⟩
        rw [turns]
        simp [staffVertex, putHandle, Lifecycle.create]
      · have alone : first.manager = none := free.resolve_right unseen
        simp only [alone, Option.isSome_none, Bool.false_eq_true, false_and, if_false] at turns
        obtain ⟨extended, started, placed⟩ :=
          settled_placed managed seen scheduler vertex tasks fixed unseen fresh
        exact ⟨vertex, _, rfl, same, extended, started, placed first alone, turns⟩
      · rw [stopped] at accepted
        cases accepted

/-- Every vertex is put in place, the first one before all others; the workers are those of the
managed vertices, in their order. -/
theorem startAll_placed (managed seen : List String) (staff : List (Staff σ ι))
    (scheduler : Scheduler σ ι) (distinct : (staff.map (·.vertex)).Nodup)
    (unseen : ∀ member ∈ staff, member.vertex ∉ seen)
    (turns : managed =
      scheduler.workers.map (·.lifecycle.vertex) ++ managedNames seen staff)
    (fresh : Fresh seen scheduler)
    (accepted : (startAll managed seen scheduler staff).result = .ok ()) :
    Extends seen scheduler (startAll managed seen scheduler staff).scheduler ∧
      (∃ all, Fresh all (startAll managed seen scheduler staff).scheduler) ∧
      (startAll managed seen scheduler staff).scheduler.workers.map (·.lifecycle.vertex) =
        managed ∧
      ∀ member ∈ staff, ∃ vertex, scheduler.plan.vertex? member.vertex = some vertex ∧
        Placed managed (startAll managed seen scheduler staff).scheduler vertex member := by
  induction staff generalizing seen scheduler with
  | nil =>
      exact ⟨.refl seen scheduler, ⟨seen, fresh⟩, by simp [startAll, turns, managedNames], by simp⟩
  | cons first rest ih =>
      have others := (List.nodup_cons.mp distinct).2
      have later := unseen_cons distinct unseen
      obtain ⟨vertex, next, found, same, extended, started, placed, order⟩ :=
        startAll_cons managed seen first rest scheduler (unseen first List.mem_cons_self) turns
          fresh accepted
      rw [same] at accepted ⊢
      obtain ⟨kept, all, roster, placements⟩ := ih _ next others later order started accepted
      have name : vertex.name = first.vertex := by simpa using List.find?_some found
      -- the first vertex stays where it was put while the others are
      refine ⟨extended.trans kept (List.subset_cons_self _ _), all, roster, fun member listed => ?_⟩
      rcases List.mem_cons.mp listed with rfl | listed
      · exact ⟨vertex, found, kept.placed (name ▸ List.mem_cons_self) placed⟩
      · rw [← extended.plan]
        exact placements member listed

structure Started (plan : Plan) (managers : Registry σ) (initializers : Registry ι)
    (managed : List String) (scheduler : Scheduler σ ι) : Prop where
  holds : scheduler.plan = plan
  running : scheduler.isAborted = false
  fresh : ∃ seen, Fresh seen scheduler
  /-- Each worker is that of one vertex of the plan. -/
  roster : scheduler.workers.map (·.lifecycle.vertex) = managed
  distinct : managed.Nodup
  known : managed ⊆ plan.vertices.map (·.name)
  placed : ∀ vertex ∈ plan.vertices, ∃ staff,
    createStaff managers initializers vertex = .ok staff ∧ Placed managed scheduler vertex staff

/-- A vertex without a manager is settled by its fixed parallelism; any other has a fresh worker,
which is found under its name. -/
theorem Started.standing {plan : Plan} {managers : Registry σ} {initializers : Registry ι}
    {managed : List String} {scheduler : Scheduler σ ι}
    (started : Started plan managers initializers managed scheduler) {vertex : Vertex}
    (member : vertex ∈ plan.vertices) :
    (managers.managerFor? vertex = .ok none ∧ ∃ tasks, vertex.parallelism = .fixed tasks ∧
      scheduler.handles.get? vertex.name =
        some ⟨.settled { parallelism := tasks }, plan.destinationsOf vertex.name⟩) ∨
      ∃ manager index, managers.managerFor? vertex = .ok (some manager) ∧
        scheduler.handles.get? vertex.name =
          some ⟨.managed index, plan.destinationsOf vertex.name⟩ ∧
        scheduler.workers[index]? = some (freshWorker plan managed vertex manager) := by
  obtain ⟨staff, created, placed⟩ := started.placed vertex member
  have chosen := (createStaff_ok managers initializers vertex staff created).2.1
  unfold Placed at placed
  rw [started.holds] at placed
  cases kind : staff.manager with
  | none =>
      simp only [kind] at placed chosen
      exact .inl ⟨chosen, placed⟩
  | some manager =>
      simp only [kind] at placed chosen
      obtain ⟨index, _, handle, worker, _⟩ := placed
      exact .inr ⟨manager, index, chosen, handle, worker⟩

theorem submit_started_of_nodup (plan : Plan) (managers : Registry σ) (initializers : Registry ι)
    (distinct : (plan.vertices.map (·.name)).Nodup)
    (accepted : (Scheduler.submit plan managers initializers).result = .ok ()) :
    ∃ managed, Started plan managers initializers managed
      (Scheduler.submit plan managers initializers).scheduler := by
  unfold Scheduler.submit at accepted ⊢
  cases created : plan.vertices.mapM (createStaff managers initializers) with
  | error error => simp [created] at accepted
  | ok staff =>
      simp only [created] at accepted ⊢
      have paired := mapM_forall₂ _ _ _ created
      have names := createStaff_names created
      obtain ⟨extended, fresh, roster, placements⟩ := startAll_placed (managedNames [] staff) [] staff
        (Scheduler.report { plan := plan } (.submitted (UInt64.ofNat plan.vertices.length)))
        (names ▸ distinct) (by simp) rfl
        ⟨by simp [Scheduler.report], by simp [Scheduler.report], by simp [Scheduler.report]⟩
        accepted
      have listed := managedNames_sublist [] staff
      rw [← names] at listed
      refine ⟨managedNames [] staff, extended.plan, extended.running, fresh, roster,
        distinct.sublist listed, listed.subset, fun vertex member => ?_⟩
      obtain ⟨one, listed, made⟩ := exists_paired paired vertex member
      obtain ⟨found, looked, placed⟩ := placements one listed
      have same := (createStaff_ok managers initializers vertex one made).1
      rw [same] at looked
      obtain rfl : found = vertex :=
        Option.some.inj (looked.symm.trans (Plan.vertex?_of_mem distinct member))
      exact ⟨one, made, placed⟩

theorem submit_started (plan : Plan) (managers : Registry σ) (initializers : Registry ι)
    (routed : plan.Routed)
    (accepted : (Scheduler.submit plan managers initializers).result = .ok ()) :
    ∃ managed, Started plan managers initializers managed
      (Scheduler.submit plan managers initializers).scheduler :=
  submit_started_of_nodup plan managers initializers routed.names accepted

end Submission

end ElasticJob
