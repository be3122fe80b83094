import ElasticJob.Proofs.Scheduler.Finalization
import ElasticJob.Proofs.Scheduler.SourceKnowledge

/-!
What the history is told of a run. The facts about a managed vertex are at any time those that the
state of its worker shows, since a turn of a worker reports just the difference that it makes; the
other vertices are told of once, at submission, and the job itself at its submission and at its
first abort. So the history of a vertex does not depend on how the steps of others come in between.
-/

namespace ElasticJob

namespace HistoryFact

def ofVertex (name : String) (facts : List HistoryFact) : List HistoryFact :=
  facts.filter fun fact => fact.vertex? = some name

theorem ofVertex_append (name : String) (first second : List HistoryFact) :
    ofVertex name (first ++ second) = ofVertex name first ++ ofVertex name second :=
  List.filter_append ..

theorem ofJob_append (first second : List HistoryFact) :
    ofJob (first ++ second) = ofJob first ++ ofJob second :=
  List.filter_append ..

theorem mem_ofVertex (name : String) (facts : List HistoryFact) (fact : HistoryFact) :
    fact ∈ ofVertex name facts ↔ fact ∈ facts ∧ fact.vertex? = some name := by
  simp [ofVertex]

theorem ofVertex_own {name : String} {facts : List HistoryFact}
    (own : ∀ fact ∈ facts, fact.vertex? = some name) (other : String) :
    ofVertex other facts = if other = name then facts else [] := by
  split
  next same =>
    apply List.filter_eq_self.mpr
    intro fact listed
    exact decide_eq_true (same ▸ own fact listed)
  next apart =>
    apply List.filter_eq_nil_iff.mpr
    intro fact listed about
    have same := (own fact listed).symm.trans (of_decide_eq_true about)
    exact apart (Option.some.inj same).symm

theorem ofJob_own {name : String} {facts : List HistoryFact}
    (own : ∀ fact ∈ facts, fact.vertex? = some name) : ofJob facts = [] := by
  apply List.filter_eq_nil_iff.mpr
  intro fact listed
  simp [own fact listed]

end HistoryFact

namespace Scheduler

open HistoryFact (ofVertex ofJob)

variable {σ ι : Type}

def chronicle (worker : Worker σ) : List HistoryFact :=
  let vertex := worker.lifecycle.vertex
  (if worker.lifecycle.phase = .uninitialized then [] else [.vertexStarted vertex]) ++
    match worker.outcome with
    | some (.finalized decision) => [.vertexReconfigured vertex decision.parallelism]
    | _ => []

theorem chronicle_own (worker : Worker σ) :
    ∀ fact ∈ chronicle worker, fact.vertex? = some worker.lifecycle.vertex := by
  intro fact listed
  rcases List.mem_append.mp listed with started | decided
  · split at started
    · cases started
    · rw [List.mem_singleton.mp started]
      rfl
  · split at decided
    · rw [List.mem_singleton.mp decided]
      rfl
    · cases decided

theorem chronicle_hear (events : List ManagerEvent) (worker : Worker σ) :
    chronicle (hear events worker) = chronicle worker := by
  obtain ⟨lifecycle, _, outcome⟩ := hear_frame events worker
  rw [chronicle, lifecycle, outcome, chronicle]

/-- A vertex starts once and decides at most once, after it started. -/
theorem chronicle_cases {worker : Worker σ} (sound : SoundWorker worker) :
    let vertex := worker.lifecycle.vertex
    chronicle worker = [] ∨ chronicle worker = [.vertexStarted vertex] ∨
      ∃ tasks, chronicle worker = [.vertexStarted vertex, .vertexReconfigured vertex tasks] := by
  intro vertex
  unfold SoundWorker at sound
  split at sound
  next going => rcases sound with phase | phase <;> simp [chronicle, going, phase, vertex]
  next decision result =>
    exact .inr (.inr ⟨decision.parallelism, by simp [chronicle, result, sound.1, vertex]⟩)
  next result => exact .inr (.inl (by simp [chronicle, result, sound.1, vertex]))

theorem mem_chronicle {worker : Worker σ} (tasks : UInt32) :
    .vertexReconfigured worker.lifecycle.vertex tasks ∈ chronicle worker ↔
      ∃ decision, worker.outcome = some (.finalized decision) ∧ decision.parallelism = tasks := by
  unfold chronicle
  rcases worker.outcome with _ | (decision | reason)
  · split <;> simp
  · split <;> simp [eq_comm]
  · split <;> simp

theorem Asked.chronicle {behaviour : Behaviour σ} {isAborted : Bool} {worker : Worker σ}
    {context : Context} {rest : List ManagerEvent} {facts : List HistoryFact}
    {answer : σ × Except ManagerError Decision} (going : worker.outcome = none)
    (asked : Asked behaviour isAborted worker context rest facts answer) :
    chronicle worker ++ facts = [.vertexStarted worker.lifecycle.vertex] := by
  cases asked with
  | start fresh => simp [Scheduler.chronicle, going, fresh]
  | event _ _ begun => simp [Scheduler.chronicle, going, begun]

theorem turn_chronicle {behaviour : Behaviour σ} {isAborted : Bool} {worker after : Worker σ}
    {told : Option UInt32} {facts : List HistoryFact} (going : worker.outcome = none)
    (turn : Turn behaviour isAborted worker after told facts) :
    chronicle after = chronicle worker ++ facts := by
  cases turn with
  | pending context rest facts manager asked =>
      rw [asked.chronicle going]
      simp [chronicle, going]
  | finalized context rest facts manager decision asked =>
      rw [← List.append_assoc, asked.chronicle going]
      simp [chronicle, ended]
  | failed context rest facts manager error asked =>
      rw [asked.chronicle going]
      simp [chronicle, ended]
  | aborted begun => simp [chronicle, going, begun, ended]

theorem turn_own {behaviour : Behaviour σ} {isAborted : Bool} {worker after : Worker σ}
    {told : Option UInt32} {facts : List HistoryFact} (going : worker.outcome = none)
    (turn : Turn behaviour isAborted worker after told facts) :
    ∀ fact ∈ facts, fact.vertex? = some worker.lifecycle.vertex := by
  intro fact listed
  rw [← (turn_frame going turn).1]
  apply chronicle_own after
  rw [turn_chronicle going turn]
  exact List.mem_append_right _ listed

/-- All that an action tells the history: nothing, the first abort of the job, or what the turn of
a worker reports. -/
theorem perform_reports (behaviour : Behaviour σ) (scheduler : Scheduler σ ι) (action : Action)
    (sound : scheduler.Sound) :
    let after := scheduler.perform behaviour action
    (∃ event indices, after.workers = tell event indices scheduler.workers ∧
        after.isAborted = scheduler.isAborted ∧ after.reported = scheduler.reported) ∨
      (∃ reason, scheduler.isAborted = false ∧ after = { scheduler with
        isAborted := true
        reported := scheduler.reported ++ [.jobAborted reason] }) ∨
      ∃ index worker next told facts, scheduler.workers[index]? = some worker ∧
        worker.outcome = none ∧ Turn behaviour scheduler.isAborted worker next told facts ∧
        after = { scheduler with
          workers := afterTurn scheduler.workers index worker next told
          reported := scheduler.reported ++ facts } := by
  intro after
  have heard : ∀ event indices tasks, after = { scheduler with
      workers := tell event indices scheduler.workers
      tasks := tasks } → ∃ event indices, after.workers = tell event indices scheduler.workers ∧
        after.isAborted = scheduler.isAborted ∧ after.reported = scheduler.reported := by
    intro event indices tasks same
    exact ⟨event, indices, by rw [same], by rw [same], by rw [same]⟩
  -- where no worker changes, nobody hears of whatever event
  have idle := heard (.inputInitialized "") []
  cases action with
  | send vertex event => exact .inl (heard _ _ _ (send_eq scheduler vertex event sound))
  | taskCompleted source task size =>
      exact .inl (heard _ _ _ (taskCompleted_eq scheduler source task size sound))
  | abort reason =>
      by_cases before : scheduler.isAborted = true
      · exact .inl (idle scheduler.tasks (if_pos before))
      · exact .inr (.inl ⟨reason, by simpa using before, if_neg before⟩)
  | complete index outcome => exact .inl (idle _ (complete_eq scheduler index outcome))
  | deliverNext index =>
      have delivered := deliverNext_eq scheduler index
      cases next : scheduler.nextDelivery index with
      | none =>
          rw [next] at delivered
          exact .inl (idle _ delivered)
      | some delivery =>
          rw [next] at delivered
          exact .inl (heard _ _ _ delivered)
  | work index =>
      cases found : scheduler.workers[index]? with
      | none => exact .inl (idle scheduler.tasks (by simp [after, perform, work, found, tell]))
      | some worker =>
          rcases work_turn behaviour scheduler index worker found
            (sound worker (List.mem_of_getElem? found)) with
            same | ⟨going, next, told, facts, turn, same⟩
          · exact .inl (idle _ same)
          · exact .inr (.inr ⟨index, worker, next, told, facts, found, going, turn, same⟩)

def roster (workers : List (Worker σ)) : List String :=
  workers.map (·.lifecycle.vertex)

theorem roster_tell (event : ManagerEvent) (indices : List Nat) (workers : List (Worker σ)) :
    roster (tell event indices workers) = roster workers := by
  apply List.ext_getElem?
  intro index
  rw [roster, roster, List.getElem?_map, List.getElem?_map, tell_getElem?, Option.map_map]
  congr 1
  funext worker
  exact congrArg Lifecycle.vertex (hear_frame _ worker).1

theorem roster_afterTurn {workers : List (Worker σ)} {index : Nat} {worker after : Worker σ}
    (told : Option UInt32) (found : workers[index]? = some worker)
    (same : after.lifecycle.vertex = worker.lifecycle.vertex) :
    roster (afterTurn workers index worker after told) = roster workers := by
  apply List.ext_getElem?
  intro other
  rw [roster, roster, List.getElem?_map, List.getElem?_map, afterTurn_getElem? _ _ _ _ _ _ found]
  split
  next here => rw [here, found, Option.map_some, Option.map_some, same]
  next =>
    rw [Option.map_map]
    congr 1
    funext worker
    exact congrArg Lifecycle.vertex (hear_frame _ worker).1

theorem roster_apart {workers : List (Worker σ)} (distinct : (roster workers).Nodup)
    {index other : Nat} {worker old : Worker σ} (found : workers[index]? = some worker)
    (stored : workers[other]? = some old) (elsewhere : other ≠ index) :
    old.lifecycle.vertex ≠ worker.lifecycle.vertex := by
  intro same
  have inside : other < (roster workers).length := by
    rw [roster, List.length_map]
    exact (List.getElem?_eq_some_iff.mp stored).1
  apply elsewhere
  apply (List.getElem?_inj inside distinct).mp
  rw [roster, List.getElem?_map, List.getElem?_map, stored, found, Option.map_some,
    Option.map_some, same]

structure Recorded (origin now : Scheduler σ ι) : Prop where
  sound : now.Sound
  opening : origin.reported <+: now.reported
  names : roster now.workers = roster origin.workers
  workers : ∀ worker ∈ now.workers,
    ofVertex worker.lifecycle.vertex now.reported = chronicle worker
  /-- Nothing more is told of a vertex without a worker. -/
  settled : ∀ name, name ∉ roster origin.workers →
    ofVertex name now.reported = ofVertex name origin.reported
  job : now.isAborted = false ∧ ofJob now.reported = ofJob origin.reported ∨
    now.isAborted = true ∧ ∃ reason,
      ofJob now.reported = ofJob origin.reported ++ [.jobAborted reason]

section Run

variable {origin now : Scheduler σ ι} (recorded : Recorded origin now)
  (distinct : (roster origin.workers).Nodup)

include recorded distinct

theorem Recorded.turn {behaviour : Behaviour σ} {index : Nat} {worker next : Worker σ}
    {told : Option UInt32} {facts : List HistoryFact} (found : now.workers[index]? = some worker)
    (going : worker.outcome = none)
    (turn : Turn behaviour now.isAborted worker next told facts)
    (sound : Sound { now with workers := afterTurn now.workers index worker next told }) :
    Recorded origin { now with
      workers := afterTurn now.workers index worker next told
      reported := now.reported ++ facts } where
  sound := sound
  opening := recorded.opening.trans (List.prefix_append _ _)
  names := (roster_afterTurn told found (turn_frame going turn).1).trans recorded.names
  workers := by
    intro after listed
    obtain ⟨other, place⟩ := List.mem_iff_getElem?.mp listed
    rw [afterTurn_getElem? _ _ _ _ _ _ found] at place
    rw [HistoryFact.ofVertex_append, HistoryFact.ofVertex_own (turn_own going turn)]
    split at place
    · obtain rfl : next = after := Option.some.inj place
      rw [(turn_frame going turn).1, if_pos rfl, turn_chronicle going turn,
        recorded.workers worker (List.mem_of_getElem? found)]
    · rename_i elsewhere
      obtain ⟨old, stored, rfl⟩ := Option.map_eq_some_iff.mp place
      rw [chronicle_hear, (hear_frame _ old).1, ← recorded.workers old (List.mem_of_getElem? stored)]
      have apart := roster_apart (recorded.names ▸ distinct) found stored elsewhere
      rw [if_neg apart, List.append_nil]
  settled := by
    intro name absent
    have apart : name ≠ worker.lifecycle.vertex := by
      rintro rfl
      rw [← recorded.names] at absent
      exact absent (List.mem_map_of_mem (List.mem_of_getElem? found))
    rw [HistoryFact.ofVertex_append, HistoryFact.ofVertex_own (turn_own going turn), if_neg apart,
      List.append_nil, recorded.settled name absent]
  job := by
    rw [HistoryFact.ofJob_append, HistoryFact.ofJob_own (turn_own going turn), List.append_nil]
    exact recorded.job

theorem Recorded.perform (behaviour : Behaviour σ) (action : Action) :
    Recorded origin (now.perform behaviour action) := by
  have sound := perform_sound behaviour now action recorded.sound
  rcases perform_reports behaviour now action recorded.sound with
    ⟨event, indices, workers, running, told⟩ | ⟨reason, running, aborted⟩ |
      ⟨index, worker, next, told, facts, found, going, turn, taken⟩
  · refine ⟨sound, told ▸ recorded.opening, ?_, fun after listed => ?_, told ▸ recorded.settled, ?_⟩
    · rw [workers, roster_tell, recorded.names]
    · rw [workers] at listed
      obtain ⟨index, place⟩ := List.mem_iff_getElem?.mp listed
      rw [tell_getElem?, Option.map_eq_some_iff] at place
      obtain ⟨old, stored, rfl⟩ := place
      rw [told, chronicle_hear, (hear_frame _ old).1]
      exact recorded.workers old (List.mem_of_getElem? stored)
    · rw [running, told]
      exact recorded.job
  · have silent : ∀ name, ofVertex name (now.reported ++ [.jobAborted reason]) =
        ofVertex name now.reported := by
      intro name
      rw [HistoryFact.ofVertex_append]
      exact List.append_nil _
    rw [aborted]
    refine ⟨recorded.sound, recorded.opening.trans (List.prefix_append _ _), recorded.names,
      fun worker listed => ?_, fun name absent => ?_, .inr ⟨rfl, reason, ?_⟩⟩
    · rw [silent]
      exact recorded.workers worker listed
    · rw [silent]
      exact recorded.settled name absent
    · rcases recorded.job with ⟨_, same⟩ | ⟨already, _⟩
      · rw [HistoryFact.ofJob_append, same]
        rfl
      · rw [running] at already
        cases already
  · rw [taken] at sound ⊢
    exact recorded.turn distinct found going turn sound

end Run

/-- Along every run the history stays in accord with the workers. -/
theorem run_recorded (behaviour : Behaviour σ) (actions : List Action)
    {origin now : Scheduler σ ι} (recorded : Recorded origin now)
    (distinct : (roster origin.workers).Nodup) :
    Recorded origin (run behaviour now actions) := by
  induction actions generalizing now with
  | nil => exact recorded
  | cons action rest ih => exact ih (recorded.perform distinct behaviour action)

end Scheduler

namespace Submission

open HistoryFact (ofVertex ofJob)

variable {σ ι : Type}

def settledFact? (plan : Plan) (staff : Staff σ ι) : Option HistoryFact :=
  match staff.manager with
  | some _ => none
  | none => (plan.vertex? staff.vertex).bind fun vertex =>
      vertex.parallelism.fixed?.map (.vertexFinalized staff.vertex ·)

theorem startAll_reported (managed seen : List String) (staff : List (Staff σ ι))
    (scheduler : Scheduler σ ι) (distinct : (staff.map (·.vertex)).Nodup)
    (unseen : ∀ member ∈ staff, member.vertex ∉ seen)
    (accepted : (startAll managed seen scheduler staff).result = .ok ()) :
    (startAll managed seen scheduler staff).scheduler.reported =
      scheduler.reported ++ staff.filterMap (settledFact? scheduler.plan) := by
  induction staff generalizing seen scheduler with
  | nil => simp [startAll]
  | cons first rest ih =>
      have others := (List.nodup_cons.mp distinct).2
      have fresh := unseen first List.mem_cons_self
      have later := unseen_cons distinct unseen
      cases found : scheduler.plan.vertex? first.vertex with
      | none => simp [startAll, found] at accepted
      | some vertex =>
          have name : vertex.name = first.vertex := by simpa using List.find?_some found
          rcases startAll_cases managed seen first rest scheduler vertex found with
            ⟨manager, chosen, _, same⟩ | ⟨free, ⟨tasks, fixed, same⟩ | ⟨_, stopped⟩⟩
          · rw [same] at accepted ⊢
            rw [ih _ _ others later accepted]
            simp [settledFact?, chosen, staffVertex, putHandle]
          · have alone : first.manager = none := free.resolve_right fresh
            rw [same] at accepted ⊢
            rw [ih _ _ others later accepted]
            simp [settledFact?, alone, found, fixed, Parallelism.fixed?, putHandle,
              Scheduler.report, name]
          · rw [stopped] at accepted
            cases accepted

section Facts

variable (plan : Plan) (staff : List (Staff σ ι))

theorem settledFact?_own (one : Staff σ ι) :
    ∀ fact ∈ settledFact? plan one, fact.vertex? = some one.vertex := by
  intro fact told
  unfold settledFact? at told
  split at told
  · cases told
  · obtain ⟨_, _, settled⟩ := Option.bind_eq_some_iff.mp told
    obtain ⟨_, _, rfl⟩ := Option.map_eq_some_iff.mp settled
    rfl

theorem ofJob_settled : ofJob (staff.filterMap (settledFact? plan)) = [] := by
  apply List.filter_eq_nil_iff.mpr
  intro fact listed
  obtain ⟨one, _, told⟩ := List.mem_filterMap.mp listed
  simp [settledFact?_own plan one fact told]

theorem ofVertex_settled_none (name : String) (absent : name ∉ staff.map (·.vertex)) :
    ofVertex name (staff.filterMap (settledFact? plan)) = [] := by
  apply List.filter_eq_nil_iff.mpr
  intro fact listed about
  obtain ⟨one, member, told⟩ := List.mem_filterMap.mp listed
  have same := (settledFact?_own plan one fact told).symm.trans (of_decide_eq_true about)
  exact absent (List.mem_map.mpr ⟨one, member, Option.some.inj same⟩)

theorem ofVertex_settled (distinct : (staff.map (·.vertex)).Nodup) (one : Staff σ ι)
    (member : one ∈ staff) :
    ofVertex one.vertex (staff.filterMap (settledFact? plan)) =
      (settledFact? plan one).toList := by
  induction staff with
  | nil => cases member
  | cons first rest ih =>
      obtain ⟨alone, others⟩ := List.nodup_cons.mp distinct
      have split : (first :: rest).filterMap (settledFact? plan) =
          (settledFact? plan first).toList ++ rest.filterMap (settledFact? plan) := by
        cases told : settledFact? plan first <;> simp [told]
      have own : ∀ fact ∈ (settledFact? plan first).toList, fact.vertex? = some first.vertex := by
        intro fact told
        exact settledFact?_own plan first fact (Option.mem_toList.mp told)
      rw [split, HistoryFact.ofVertex_append, HistoryFact.ofVertex_own own]
      rcases List.mem_cons.mp member with rfl | later
      · rw [if_pos rfl, ofVertex_settled_none plan rest _ alone, List.append_nil]
      · have apart : one.vertex ≠ first.vertex := fun same =>
          alone (List.mem_map.mpr ⟨one, later, same⟩)
        rw [if_neg apart, List.nil_append, ih others later]

end Facts

/-- What the history was told when a plan was accepted: the job and its settled vertices. -/
theorem submit_reported (plan : Plan) (managers : Registry σ) (initializers : Registry ι)
    (distinct : (plan.vertices.map (·.name)).Nodup)
    (accepted : (Scheduler.submit plan managers initializers).result = .ok ()) :
    let facts := (Scheduler.submit plan managers initializers).scheduler.reported
    let submitted := HistoryFact.submitted (UInt64.ofNat plan.vertices.length)
    facts.head? = some submitted ∧ ofJob facts = [submitted] ∧
      (∀ name, name ∉ plan.vertices.map (·.name) → ofVertex name facts = []) ∧
      ∀ vertex ∈ plan.vertices,
        (managers.managerFor? vertex = .ok none → ∀ tasks, vertex.parallelism = .fixed tasks →
          ofVertex vertex.name facts = [.vertexFinalized vertex.name tasks]) ∧
        ∀ manager, managers.managerFor? vertex = .ok (some manager) →
          ofVertex vertex.name facts = [] := by
  unfold Scheduler.submit at accepted ⊢
  cases created : plan.vertices.mapM (createStaff managers initializers) with
  | error error => simp [created] at accepted
  | ok staff =>
      simp only [created] at accepted ⊢
      have names := createStaff_names created
      have looked : ∀ vertex ∈ plan.vertices, plan.vertex? vertex.name = some vertex :=
        fun _ member => Plan.vertex?_of_mem distinct member
      rw [names] at distinct ⊢
      have told := startAll_reported (managedNames [] staff) [] staff
        (Scheduler.report { plan := plan } (.submitted (UInt64.ofNat plan.vertices.length)))
        distinct (by simp) accepted
      have start : (Scheduler.report { plan := plan : Scheduler σ ι }
          (.submitted (UInt64.ofNat plan.vertices.length))).reported =
            [.submitted (UInt64.ofNat plan.vertices.length)] := rfl
      have opening : ∀ name, ofVertex name
          [.submitted (UInt64.ofNat plan.vertices.length)] = [] := fun _ => rfl
      rw [told, start]
      refine ⟨rfl, ?_, fun name absent => ?_, fun vertex member => ?_⟩
      · rw [HistoryFact.ofJob_append, ofJob_settled]
        rfl
      · rw [HistoryFact.ofVertex_append, opening, ofVertex_settled_none _ _ _ absent]
        rfl
      · obtain ⟨one, listed, made⟩ := exists_paired (mapM_forall₂ _ _ _ created) vertex member
        obtain ⟨same, chosen, _⟩ := createStaff_ok managers initializers vertex one made
        have own := ofVertex_settled plan staff distinct one listed
        rw [same] at own
        rw [HistoryFact.ofVertex_append, opening, List.nil_append]
        have kept : (Scheduler.report { plan := plan : Scheduler σ ι }
          (.submitted (UInt64.ofNat plan.vertices.length))).plan = plan := rfl
        rw [kept, own]
        constructor
        · intro alone tasks fixed
          have free : one.manager = none := Except.ok.inj (chosen.symm.trans alone)
          simp [settledFact?, free, same, looked vertex member, fixed, Parallelism.fixed?]
        · intro manager managed
          have staffed : one.manager = some manager := Except.ok.inj (chosen.symm.trans managed)
          simp [settledFact?, staffed]

end Submission

namespace Scheduler

open HistoryFact (ofVertex ofJob)

variable {σ ι : Type}

section Told

variable {plan : Plan} {managers : Registry σ} {initializers : Registry ι}
  (distinct : (plan.vertices.map (·.name)).Nodup)
  (accepted : (submit plan managers initializers).result = .ok ()) {managed : List String}
  (started : Submission.Started plan managers initializers managed
    (submit plan managers initializers).scheduler)

include distinct accepted started

theorem started_recorded : Recorded (submit plan managers initializers).scheduler
    (submit plan managers initializers).scheduler where
  sound := submit_sound plan managers initializers
  opening := List.prefix_refl _
  names := rfl
  workers := by
    intro worker listed
    obtain ⟨index, found⟩ := List.mem_iff_getElem?.mp listed
    obtain ⟨place, _, vertex, member, manager, name, fresh⟩ := started_worker started index worker found
    obtain ⟨_, _, _, told⟩ := Submission.submit_reported plan managers initializers distinct accepted
    rcases started.standing member with ⟨_, _, _, handle⟩ | ⟨other, _, chosen, _⟩
    · obtain ⟨_, here⟩ := (placeOf?_eq_some_iff _ _ _).mp (name ▸ place)
      cases here.symm.trans handle
    · rw [← name, (told vertex member).2 other chosen, fresh]
      rfl
  settled := fun _ _ => rfl
  job := .inl ⟨started.running, rfl⟩

variable (behaviour : Behaviour σ) (actions : List Action)

theorem started_run_recorded : Recorded (submit plan managers initializers).scheduler
    (run behaviour (submit plan managers initializers).scheduler actions) := by
  have apart : (roster (submit plan managers initializers).scheduler.workers).Nodup := by
    rw [roster, started.roster]
    exact started.distinct
  exact run_recorded behaviour actions (started_recorded distinct accepted started) apart

theorem settled_history {vertex : Vertex} (member : vertex ∈ plan.vertices)
    (alone : managers.managerFor? vertex = .ok none) :
    ∃ tasks, vertex.parallelism = .fixed tasks ∧
      ofVertex vertex.name
          (run behaviour (submit plan managers initializers).scheduler actions).reported =
        [.vertexFinalized vertex.name tasks] := by
  rcases started.standing member with ⟨_, tasks, fixed, handle⟩ | ⟨_, _, chosen, _⟩
  · have absent : vertex.name ∉ roster (submit plan managers initializers).scheduler.workers := by
      intro listed
      obtain ⟨worker, stored, same⟩ := List.mem_map.mp listed
      obtain ⟨index, found⟩ := List.mem_iff_getElem?.mp stored
      obtain ⟨place, _⟩ := started_worker started index worker found
      obtain ⟨_, here⟩ := (placeOf?_eq_some_iff _ _ _).mp (same ▸ place)
      cases here.symm.trans handle
    obtain ⟨_, _, _, told⟩ := Submission.submit_reported plan managers initializers distinct accepted
    have recorded := started_run_recorded distinct accepted started behaviour actions
    refine ⟨tasks, fixed, ?_⟩
    rw [recorded.settled vertex.name absent, (told vertex member).1 alone tasks fixed]
  · cases alone.symm.trans chosen

theorem managed_history {vertex : Vertex} (member : vertex ∈ plan.vertices) {manager : σ}
    (chosen : managers.managerFor? vertex = .ok (some manager)) :
    let now := run behaviour (submit plan managers initializers).scheduler actions
    ∃ worker ∈ now.workers, worker.lifecycle.vertex = vertex.name ∧
      now.outcome? vertex.name = worker.outcome ∧
      ofVertex vertex.name now.reported = chronicle worker := by
  intro now
  have submitted := submit_sound plan managers initializers
  rcases started.standing member with ⟨alone, _⟩ | ⟨_, index, _, handle, there⟩
  · cases alone.symm.trans chosen
  · obtain ⟨worker, found, named⟩ := run_keeps behaviour
      (fun worker => worker.lifecycle.vertex = vertex.name)
      (fun events worker same => (congrArg Lifecycle.vertex (hear_frame events worker).1).trans same)
      (fun _ _ _ _ _ going turn same => (turn_frame going turn).1.trans same) actions _ submitted
      index _ there rfl
    have place : now.placeOf? vertex.name = some index := by
      rw [placeOf?_eq_some_iff, (run_frame behaviour actions _ submitted).2]
      exact ⟨_, handle⟩
    have stored := List.mem_of_getElem? found
    have recorded := started_run_recorded distinct accepted started behaviour actions
    exact ⟨worker, stored, named, (worker_shown place found).2,
      named ▸ recorded.workers worker stored⟩

end Told

/-- The history mirrors the run. It begins with the submission of the job, which comes once, and
tells of the first abort only. A vertex without a manager is told of once, with its fixed number of
tasks. Of any other vertex it is told at most that it started and then that it decided, the latter
with a number exactly where this number can be read. -/
theorem history_mirrors_the_run (behaviour : Behaviour σ) (name : String)
    (policy : NamespacePolicy) (requests : List Request) (plan : Plan) (managers : Registry σ)
    (initializers : Registry ι) (actions : List Action)
    (created : ((JobGraph.create name policy).handleAll requests).createPlan = .ok plan)
    (accepted : (submit plan managers initializers).result = .ok ()) :
    let now := run behaviour (submit plan managers initializers).scheduler actions
    let submitted := HistoryFact.submitted (UInt64.ofNat plan.vertices.length)
    now.reported.head? = some submitted ∧
      (now.isAborted = false ∧ ofJob now.reported = [submitted] ∨
        now.isAborted = true ∧ ∃ reason, ofJob now.reported = [submitted, .jobAborted reason]) ∧
      (∀ vertex ∈ plan.vertices,
        (managers.managerFor? vertex = .ok none → ∃ tasks, vertex.parallelism = .fixed tasks ∧
          ofVertex vertex.name now.reported = [.vertexFinalized vertex.name tasks]) ∧
        ∀ manager, managers.managerFor? vertex = .ok (some manager) →
          (ofVertex vertex.name now.reported = [] ∨
            ofVertex vertex.name now.reported = [.vertexStarted vertex.name] ∨
            ∃ tasks, ofVertex vertex.name now.reported =
              [.vertexStarted vertex.name, .vertexReconfigured vertex.name tasks]) ∧
          ∀ tasks, .vertexReconfigured vertex.name tasks ∈ now.reported ↔
            now.resolvedParallelism? vertex.name = some tasks) ∧
      ∀ stranger, stranger ∉ plan.vertices.map (·.name) → ofVertex stranger now.reported = [] := by
  intro now submitted
  have distinct : (plan.vertices.map (·.name)).Nodup :=
    ((JobGraph.handleAll_orderable name policy requests).mirrored.createPlan_names created).1
  obtain ⟨managed, started⟩ :=
    Submission.submit_started_of_nodup plan managers initializers distinct accepted
  obtain ⟨first, job, strangers, _⟩ :=
    Submission.submit_reported plan managers initializers distinct accepted
  have recorded : Recorded (submit plan managers initializers).scheduler now :=
    started_run_recorded distinct accepted started behaviour actions
  refine ⟨?_, ?_, fun vertex member => ⟨settled_history distinct accepted started behaviour actions
    member, fun manager chosen => ?_⟩, fun stranger unknown => ?_⟩
  · obtain ⟨later, whole⟩ := recorded.opening
    rw [← whole, List.head?_append, first]
    rfl
  · simpa only [job, List.singleton_append] using recorded.job
  · obtain ⟨worker, stored, named, shown, told⟩ :=
      managed_history distinct accepted started behaviour actions member chosen
    have stages := chronicle_cases (recorded.sound worker stored)
    rw [named, ← told] at stages
    refine ⟨stages, fun tasks => ?_⟩
    rw [resolvedParallelism?_eq_some_iff, shown, ← mem_chronicle, named, ← told,
      HistoryFact.mem_ofVertex]
    simp [HistoryFact.vertex?, now]
  · have absent : stranger ∉ roster (submit plan managers initializers).scheduler.workers := by
      intro listed
      exact unknown (started.known (started.roster ▸ listed))
    rw [recorded.settled stranger absent, strangers stranger unknown]

/-- A job that has decided all its vertices is aborted twice. -/
theorem merged_job_is_told :
    ∃ plan, ((JobGraph.create "merge" .shared).handleAll (mergeJob.map .call)).createPlan =
        .ok plan ∧
      let now := run BuiltIn.behaviour
        (submit plan BuiltIn.registry (.empty : Registry Unit)).scheduler
        (mergeRun ++ [.abort "late", .abort "later"])
      now.resolvedParallelism? "join" = some 1 ∧
        .vertexReconfigured "join" 1 ∈ now.reported ∧
        (∃ tasks, ofVertex "left" now.reported = [.vertexFinalized "left" tasks]) ∧
        ∃ reason, ofJob now.reported = [.submitted 3, .jobAborted reason] := by
  obtain ⟨plan, created, accepted, three, ⟨join, joins, named, chosen⟩, ⟨left, leaves, name, alone⟩,
      aborted, resolved⟩ :
      ∃ plan ∈ ((JobGraph.create "merge" .shared).handleAll
          (mergeJob.map .call)).createPlan.toOption,
        (submit plan BuiltIn.registry (.empty : Registry Unit)).result = .ok () ∧
        plan.vertices.length = 3 ∧
        (∃ vertex ∈ plan.vertices, vertex.name = "join" ∧
          BuiltIn.registry.managerFor? vertex = .ok (some (.shuffle {}))) ∧
        (∃ vertex ∈ plan.vertices, vertex.name = "left" ∧
          BuiltIn.registry.managerFor? vertex = .ok none) ∧
        (run BuiltIn.behaviour (submit plan BuiltIn.registry (.empty : Registry Unit)).scheduler
          (mergeRun ++ [.abort "late", .abort "later"])).isAborted = true ∧
        (run BuiltIn.behaviour (submit plan BuiltIn.registry (.empty : Registry Unit)).scheduler
          (mergeRun ++ [.abort "late", .abort "later"])).resolvedParallelism? "join" = some 1 := by
    decide +kernel
  have made := toOption_eq_some_iff.mp created
  obtain ⟨_, job, told, _⟩ := history_mirrors_the_run BuiltIn.behaviour "merge" .shared
    (mergeJob.map .call) plan BuiltIn.registry (.empty : Registry Unit)
    (mergeRun ++ [.abort "late", .abort "later"]) made accepted
  refine ⟨plan, made, resolved, ?_, ?_, ?_⟩
  · rw [← named] at resolved ⊢
    exact (((told join joins).2 _ chosen).2 1).mpr resolved
  · obtain ⟨tasks, _, facts⟩ := (told left leaves).1 alone
    exact ⟨tasks, name ▸ facts⟩
  · rw [three] at job
    rcases job with ⟨running, _⟩ | ⟨_, ending⟩
    · rw [aborted] at running
      cases running
    · exact ending

end Scheduler

end ElasticJob
