import ElasticJob.Proofs.Scheduler.Steps
import ElasticJob.Scheduler.Submit

/-!
The outcome of a vertex is final. A worker that has ended is never touched again, its phase says
how it ended, and this holds from submission on, whatever the plan, the managers and the order of
the steps.
-/

namespace ElasticJob

def Outcome.phase : Outcome → Phase
  | .finalized _ => .finalized
  | .aborted _ => .aborted

namespace Scheduler

variable {σ ι : Type}

theorem staffVertex_sound (managed : List String) (scheduler : Scheduler σ ι) (vertex : Vertex)
    (manager : σ) (initializers : List (InitializerContext × ι)) (sound : scheduler.Sound) :
    (Submission.staffVertex managed scheduler vertex manager initializers).Sound := by
  intro worker member
  rcases List.mem_append.mp member with old | new
  · exact sound worker old
  · rw [List.mem_singleton.mp new]
    simp [SoundWorker, Lifecycle.create]

theorem startAll_sound (managed seen : List String) (staff : List (Staff σ ι))
    (scheduler : Scheduler σ ι) (sound : scheduler.Sound) :
    (Submission.startAll managed seen scheduler staff).scheduler.Sound := by
  apply Submission.startAll_keeps Sound managed seen staff scheduler
  · intro before vertex manager initializers kept
    exact staffVertex_sound managed before vertex manager initializers kept
  · exact fun _ _ _ kept => kept
  · exact sound

theorem submit_sound (plan : Plan) (managers : Registry σ) (initializers : Registry ι) :
    (submit plan managers initializers).scheduler.Sound := by
  unfold submit
  split
  · intro worker member
    cases member
  · apply startAll_sound
    intro worker member
    cases member

theorem afterTurn_getElem? (workers : List (Worker σ)) (index other : Nat)
    (worker after : Worker σ) (told : Option UInt32) (found : workers[index]? = some worker) :
    (afterTurn workers index worker after told)[other]? =
      if other = index then some after
      else (workers[other]?).map (hear (match told with
        | none => []
        | some tasks => List.replicate (worker.downstream.count other)
            (.sourceConfigured worker.lifecycle.vertex tasks))) := by
  obtain ⟨inside, _⟩ := List.getElem?_eq_some_iff.mp found
  by_cases here : other = index
  · subst here
    cases told <;> simp [afterTurn, inside, tell_length]
  · cases told with
    | none => simp [afterTurn, Ne.symm here, here, hear_nil]
    | some tasks => simp [afterTurn, Ne.symm here, here, tell_getElem?]

/-- A step leaves every worker in place, and a worker that has ended as it is. -/
theorem perform_worker (behaviour : Behaviour σ) (scheduler : Scheduler σ ι) (action : Action)
    (sound : scheduler.Sound) (index : Nat) (worker : Worker σ)
    (found : scheduler.workers[index]? = some worker) :
    ∃ after, (scheduler.perform behaviour action).workers[index]? = some after ∧
      SoundWorker after ∧ (worker.outcome.isSome = true → after = worker) := by
  have stored := sound worker (List.mem_of_getElem? found)
  have heard : ∀ events, SoundWorker (hear events worker) ∧
      (worker.outcome.isSome = true → hear events worker = worker) := by
    intro events
    exact ⟨hear_sound events worker stored, fun terminal => by simp [hear, terminal]⟩
  rcases perform_workers behaviour scheduler action sound with
    ⟨event, indices, same⟩ | ⟨turned, other, next, told, facts, rfl, place, going, turn, same⟩
  · rw [same, tell_getElem?, found]
    exact ⟨_, rfl, heard _⟩
  · rw [same, afterTurn_getElem? _ _ _ _ _ _ place]
    by_cases here : index = turned
    · subst here
      rw [if_pos rfl]
      have equal : other = worker := Option.some.inj (place.symm.trans found)
      subst equal
      exact ⟨next, rfl, turn_sound _ _ _ _ _ _ going turn, fun terminal => by
        simp [going] at terminal⟩
    · rw [if_neg here, found]
      exact ⟨_, rfl, heard _⟩

theorem perform_length (behaviour : Behaviour σ) (scheduler : Scheduler σ ι) (action : Action)
    (sound : scheduler.Sound) :
    (scheduler.perform behaviour action).workers.length = scheduler.workers.length := by
  rcases perform_workers behaviour scheduler action sound with
    ⟨event, indices, same⟩ | ⟨_, _, _, told, _, _, _, _, _, same⟩
  · rw [same, tell_length]
  · rw [same]
    cases told <;> simp [afterTurn, tell_length]

theorem perform_sound (behaviour : Behaviour σ) (scheduler : Scheduler σ ι) (action : Action)
    (sound : scheduler.Sound) : (scheduler.perform behaviour action).Sound := by
  intro after member
  obtain ⟨index, found⟩ := List.mem_iff_getElem?.mp member
  have inside : index < scheduler.workers.length := by
    rw [← perform_length behaviour scheduler action sound]
    exact (List.getElem?_eq_some_iff.mp found).1
  obtain ⟨next, place, result, _⟩ := perform_worker behaviour scheduler action sound index _
    (List.getElem?_eq_getElem inside)
  rwa [Option.some.inj (found.symm.trans place)]

theorem run_sound (behaviour : Behaviour σ) (actions : List Action) (scheduler : Scheduler σ ι)
    (sound : scheduler.Sound) : (run behaviour scheduler actions).Sound := by
  induction actions generalizing scheduler with
  | nil => exact sound
  | cons action rest ih => exact ih _ (perform_sound behaviour scheduler action sound)

theorem run_length (behaviour : Behaviour σ) (actions : List Action) (scheduler : Scheduler σ ι)
    (sound : scheduler.Sound) :
    (run behaviour scheduler actions).workers.length = scheduler.workers.length := by
  induction actions generalizing scheduler with
  | nil => rfl
  | cons action rest ih =>
      exact (ih _ (perform_sound behaviour scheduler action sound)).trans
        (perform_length behaviour scheduler action sound)

theorem run_frame (behaviour : Behaviour σ) (actions : List Action) (scheduler : Scheduler σ ι)
    (sound : scheduler.Sound) :
    (run behaviour scheduler actions).plan = scheduler.plan ∧
      (run behaviour scheduler actions).handles = scheduler.handles := by
  induction actions generalizing scheduler with
  | nil => exact ⟨rfl, rfl⟩
  | cons action rest ih =>
      obtain ⟨plan, handles⟩ := perform_frame behaviour scheduler action sound
      obtain ⟨laterPlan, laterHandles⟩ := ih _ (perform_sound behaviour scheduler action sound)
      exact ⟨laterPlan.trans plan, laterHandles.trans handles⟩

/-- What a worker keeps as it hears of events and takes its turns, it keeps at every step. -/
theorem perform_keeps (behaviour : Behaviour σ) (keeps : Worker σ → Prop)
    (scheduler : Scheduler σ ι) (action : Action) (sound : scheduler.Sound)
    (heard : ∀ events worker, keeps worker → keeps (hear events worker))
    (turned : ∀ worker after told facts, worker.outcome = none →
      Turn behaviour scheduler.isAborted worker after told facts → keeps worker → keeps after)
    (index : Nat) (worker : Worker σ) (found : scheduler.workers[index]? = some worker)
    (holds : keeps worker) :
    ∃ after, (scheduler.perform behaviour action).workers[index]? = some after ∧ keeps after := by
  rcases perform_workers behaviour scheduler action sound with
    ⟨event, indices, same⟩ | ⟨turn, other, next, told, facts, rfl, place, going, taken, same⟩
  · rw [same, tell_getElem?, found]
    exact ⟨_, rfl, heard _ _ holds⟩
  · rw [same, afterTurn_getElem? _ _ _ _ _ _ place]
    by_cases here : index = turn
    · subst here
      obtain rfl : other = worker := Option.some.inj (place.symm.trans found)
      exact ⟨next, if_pos rfl, turned _ _ _ _ going taken holds⟩
    · rw [if_neg here, found]
      exact ⟨_, rfl, heard _ _ holds⟩

theorem run_keeps (behaviour : Behaviour σ) (keeps : Worker σ → Prop)
    (heard : ∀ events worker, keeps worker → keeps (hear events worker))
    (turned : ∀ isAborted worker after told facts, worker.outcome = none →
      Turn behaviour isAborted worker after told facts → keeps worker → keeps after)
    (actions : List Action) (scheduler : Scheduler σ ι) (sound : scheduler.Sound) (index : Nat)
    (worker : Worker σ) (found : scheduler.workers[index]? = some worker) (holds : keeps worker) :
    ∃ after, (run behaviour scheduler actions).workers[index]? = some after ∧ keeps after := by
  induction actions generalizing scheduler worker with
  | nil => exact ⟨worker, found, holds⟩
  | cons action rest ih =>
      obtain ⟨next, place, kept⟩ := perform_keeps behaviour keeps scheduler action sound heard
        (turned scheduler.isAborted) index worker found holds
      exact ih _ (perform_sound behaviour scheduler action sound) next place kept

theorem run_ended (behaviour : Behaviour σ) (actions : List Action) (scheduler : Scheduler σ ι)
    (sound : scheduler.Sound) (index : Nat) (worker : Worker σ)
    (found : scheduler.workers[index]? = some worker) (terminal : worker.outcome.isSome = true) :
    (run behaviour scheduler actions).workers[index]? = some worker := by
  induction actions generalizing scheduler with
  | nil => exact found
  | cons action rest ih =>
      obtain ⟨after, place, _, kept⟩ :=
        perform_worker behaviour scheduler action sound index worker found
      rw [kept terminal] at place
      exact ih _ (perform_sound behaviour scheduler action sound) place

theorem phaseOf_outcomeOf (scheduler : Scheduler σ ι) (sound : scheduler.Sound)
    (standing : Standing) :
    match scheduler.outcomeOf standing with
    | none => (scheduler.phaseOf standing).isTerminated = false
    | some outcome => scheduler.phaseOf standing = outcome.phase := by
  cases standing with
  | settled decision => rfl
  | managed index =>
      simp only [outcomeOf, phaseOf]
      cases found : scheduler.workers[index]? with
      | none => rfl
      | some worker =>
          have stored := sound worker (List.mem_of_getElem? found)
          unfold SoundWorker at stored
          cases result : worker.outcome with
          | none =>
              rw [result] at stored
              rcases stored with phase | phase <;> simp [result, phase, Phase.isTerminated]
          | some outcome =>
              rw [result] at stored
              cases outcome <;> simp [result, stored.1, Outcome.phase]

theorem phaseOf_eq_iff (scheduler : Scheduler σ ι) (sound : scheduler.Sound)
    (standing : Standing) (phase : Phase) (terminal : phase.isTerminated = true) :
    scheduler.phaseOf standing = phase ↔
      ∃ outcome, scheduler.outcomeOf standing = some outcome ∧ outcome.phase = phase := by
  have agree := phaseOf_outcomeOf scheduler sound standing
  cases published : scheduler.outcomeOf standing with
  | none =>
      rw [published] at agree
      constructor
      · intro same
        rw [same, terminal] at agree
        cases agree
      · rintro ⟨_, impossible, _⟩
        cases impossible
  | some outcome =>
      rw [published] at agree
      simp [agree]

theorem run_outcomeOf (behaviour : Behaviour σ) (actions : List Action)
    (scheduler : Scheduler σ ι) (sound : scheduler.Sound) (standing : Standing)
    (outcome : Outcome) (published : scheduler.outcomeOf standing = some outcome) :
    (run behaviour scheduler actions).outcomeOf standing = some outcome := by
  cases standing with
  | settled decision => exact published
  | managed index =>
      simp only [outcomeOf, Option.bind_eq_some_iff] at published ⊢
      obtain ⟨worker, found, result⟩ := published
      exact ⟨worker, run_ended behaviour actions scheduler sound index worker found
        (by simp [result]), result⟩

theorem phase_ok_iff (scheduler : Scheduler σ ι) (vertex : String) (phase : Phase) :
    scheduler.phase vertex = .ok phase ↔
      ∃ found, scheduler.handles.get? vertex = some found ∧
        scheduler.phaseOf found.standing = phase := by
  simp only [Scheduler.phase, handle]
  cases scheduler.handles.get? vertex <;> simp [Except.map]

theorem outcome?_eq_some_iff (scheduler : Scheduler σ ι) (vertex : String) (outcome : Outcome) :
    scheduler.outcome? vertex = some outcome ↔
      ∃ found, scheduler.handles.get? vertex = some found ∧
        scheduler.outcomeOf found.standing = some outcome := by
  simp only [outcome?, Option.bind_eq_some_iff]

def placeOf? (scheduler : Scheduler σ ι) (vertex : String) : Option Nat :=
  (scheduler.handles.get? vertex).bind fun handle =>
    match handle.standing with
    | .settled _ => none
    | .managed index => some index

theorem placeOf?_eq_some_iff (scheduler : Scheduler σ ι) (vertex : String) (index : Nat) :
    scheduler.placeOf? vertex = some index ↔
      ∃ downstream, scheduler.handles.get? vertex = some ⟨.managed index, downstream⟩ := by
  unfold placeOf?
  rcases scheduler.handles.get? vertex with _ | ⟨_ | _, downstream⟩ <;> simp

/-- A vertex with a worker shows what its worker is at. -/
theorem worker_shown {scheduler : Scheduler σ ι} {vertex : String} {index : Nat}
    (place : scheduler.placeOf? vertex = some index) {worker : Worker σ}
    (found : scheduler.workers[index]? = some worker) :
    scheduler.phase vertex = .ok worker.lifecycle.phase ∧
      scheduler.outcome? vertex = worker.outcome := by
  obtain ⟨downstream, known⟩ := (placeOf?_eq_some_iff _ _ _).mp place
  simp [Scheduler.phase, handle, outcome?, known, phaseOf, outcomeOf, found, Except.map]

theorem phase_eq_iff (scheduler : Scheduler σ ι) (sound : scheduler.Sound) (vertex : String)
    (phase : Phase) (terminal : phase.isTerminated = true) :
    scheduler.phase vertex = .ok phase ↔
      ∃ outcome, scheduler.outcome? vertex = some outcome ∧ outcome.phase = phase := by
  rw [phase_ok_iff]
  constructor
  · rintro ⟨found, known, shown⟩
    obtain ⟨outcome, published, same⟩ := (phaseOf_eq_iff scheduler sound _ phase terminal).mp shown
    exact ⟨outcome, (outcome?_eq_some_iff _ _ _).mpr ⟨found, known, published⟩, same⟩
  · rintro ⟨outcome, shown, same⟩
    obtain ⟨found, known, published⟩ := (outcome?_eq_some_iff _ _ _).mp shown
    exact ⟨found, known,
      (phaseOf_eq_iff scheduler sound _ phase terminal).mpr ⟨outcome, published, same⟩⟩

theorem phase_finalized_iff (scheduler : Scheduler σ ι) (sound : scheduler.Sound)
    (vertex : String) :
    scheduler.phase vertex = .ok .finalized ↔
      ∃ decision, scheduler.outcome? vertex = some (.finalized decision) := by
  rw [phase_eq_iff scheduler sound vertex .finalized rfl]
  constructor
  · rintro ⟨decision | reason, published, same⟩
    · exact ⟨decision, published⟩
    · cases same
  · rintro ⟨decision, published⟩
    exact ⟨_, published, rfl⟩

theorem phase_aborted_iff (scheduler : Scheduler σ ι) (sound : scheduler.Sound)
    (vertex : String) :
    scheduler.phase vertex = .ok .aborted ↔
      ∃ reason, scheduler.outcome? vertex = some (.aborted reason) := by
  rw [phase_eq_iff scheduler sound vertex .aborted rfl]
  constructor
  · rintro ⟨decision | reason, published, same⟩
    · cases same
    · exact ⟨reason, published⟩
  · rintro ⟨reason, published⟩
    exact ⟨_, published, rfl⟩

theorem run_outcome? (behaviour : Behaviour σ) (actions : List Action)
    (scheduler : Scheduler σ ι) (sound : scheduler.Sound) (vertex : String) (outcome : Outcome)
    (published : scheduler.outcome? vertex = some outcome) :
    (run behaviour scheduler actions).outcome? vertex = some outcome := by
  rw [outcome?_eq_some_iff] at published ⊢
  obtain ⟨found, known, shown⟩ := published
  refine ⟨found, ?_, run_outcomeOf behaviour actions scheduler sound _ outcome shown⟩
  rw [(run_frame behaviour actions scheduler sound).2, known]

theorem resolvedParallelism?_eq_some_iff (scheduler : Scheduler σ ι) (vertex : String)
    (tasks : UInt32) :
    scheduler.resolvedParallelism? vertex = some tasks ↔
      ∃ decision, scheduler.outcome? vertex = some (.finalized decision) ∧
        decision.parallelism = tasks := by
  unfold resolvedParallelism?
  rcases scheduler.outcome? vertex with _ | (decision | reason) <;> simp

theorem send_terminated (scheduler : Scheduler σ ι) (vertex : String) (event : ManagerEvent)
    (phase : Phase) (shown : scheduler.phase vertex = .ok phase)
    (terminal : phase.isTerminated = true) :
    ∃ detail, scheduler.send vertex event = (scheduler, .error (.invalidState detail)) := by
  obtain ⟨found, known, rfl⟩ := (phase_ok_iff scheduler vertex phase).mp shown
  simp only [send, handle, known, terminal, if_true]
  exact ⟨_, rfl⟩

/-- Between any two points of any run: what a vertex published stands, its phase tells what it
published, and a terminal vertex refuses every event. -/
theorem published_outcome_stands (behaviour : Behaviour σ) (plan : Plan) (managers : Registry σ)
    (initializers : Registry ι) (earlier later : List Action) (vertex : String) :
    let now := run behaviour (submit plan managers initializers).scheduler earlier
    let after := run behaviour now later
    (∀ outcome, now.outcome? vertex = some outcome → after.outcome? vertex = some outcome) ∧
      (∀ tasks, now.resolvedParallelism? vertex = some tasks →
        after.resolvedParallelism? vertex = some tasks ∧ after.phase vertex = .ok .finalized) ∧
      (now.phase vertex = .ok .aborted → after.phase vertex = .ok .aborted) ∧
      (now.phase vertex = .ok .finalized ↔
        ∃ decision, now.outcome? vertex = some (.finalized decision)) ∧
      (now.phase vertex = .ok .aborted ↔
        ∃ reason, now.outcome? vertex = some (.aborted reason)) ∧
      (∀ phase event, now.phase vertex = .ok phase → phase.isTerminated = true →
        ∃ detail, now.send vertex event = (now, .error (.invalidState detail))) := by
  intro now after
  have sound : now.Sound := run_sound behaviour earlier _ (submit_sound plan managers initializers)
  have soundAfter : after.Sound := run_sound behaviour later now sound
  have stands : ∀ outcome, now.outcome? vertex = some outcome →
      after.outcome? vertex = some outcome :=
    fun outcome published => run_outcome? behaviour later now sound vertex outcome published
  refine ⟨stands, ?_, ?_, phase_finalized_iff now sound vertex, phase_aborted_iff now sound vertex,
    fun phase event shown terminal => send_terminated now vertex event phase shown terminal⟩
  · intro tasks resolved
    obtain ⟨decision, published, same⟩ := (resolvedParallelism?_eq_some_iff _ _ _).mp resolved
    have kept := stands _ published
    exact ⟨(resolvedParallelism?_eq_some_iff _ _ _).mpr ⟨decision, kept, same⟩,
      (phase_finalized_iff after soundAfter vertex).mpr ⟨decision, kept⟩⟩
  · intro aborted
    obtain ⟨reason, published⟩ := (phase_aborted_iff now sound vertex).mp aborted
    exact (phase_aborted_iff after soundAfter vertex).mpr ⟨reason, stands _ published⟩

end Scheduler

end ElasticJob
