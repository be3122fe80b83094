import ElasticJob.Proofs.Graph.Assembly
import ElasticJob.Proofs.Scheduler.Outcome

/-!
What an abort leaves to a job. A worker that has begun reads no event any more: its manager is not
asked again, and with its next turn the worker ends as aborted. A worker that has not begun still
asks its manager how to start, so its vertex may become final after the abort, by that answer alone.
-/

namespace ElasticJob.Scheduler

variable {σ ι : Type}

theorem abort_isAborted (scheduler : Scheduler σ ι) (reason : String) :
    (scheduler.abort reason).isAborted = true := by
  unfold abort
  split
  · assumption
  · rfl

theorem abort_handles (scheduler : Scheduler σ ι) (reason : String) :
    (scheduler.abort reason).handles = scheduler.handles := by
  unfold abort
  split <;> rfl

theorem perform_isAborted (behaviour : Behaviour σ) (scheduler : Scheduler σ ι) (action : Action)
    (sound : scheduler.Sound) (stopped : scheduler.isAborted = true) :
    (scheduler.perform behaviour action).isAborted = true := by
  cases action with
  | send vertex event => rwa [perform, send_eq scheduler vertex event sound]
  | taskCompleted source task size =>
      rwa [perform, taskCompleted_eq scheduler source task size sound]
  | abort reason => exact abort_isAborted scheduler reason
  | complete index outcome => rwa [perform, complete_eq]
  | deliverNext index =>
      rw [perform, deliverNext_eq]
      split <;> exact stopped
  | work index => exact (work_frame behaviour scheduler index sound).2.2.2.trans stopped

theorem run_isAborted (behaviour : Behaviour σ) (actions : List Action) (scheduler : Scheduler σ ι)
    (sound : scheduler.Sound) (stopped : scheduler.isAborted = true) :
    (run behaviour scheduler actions).isAborted = true := by
  induction actions generalizing scheduler with
  | nil => exact stopped
  | cons action rest ih =>
      exact ih _ (perform_sound behaviour scheduler action sound)
        (perform_isAborted behaviour scheduler action sound stopped)

theorem Asked.of_aborted {behaviour : Behaviour σ} {worker : Worker σ} {context : Context}
    {rest : List ManagerEvent} {facts : List HistoryFact}
    {answer : σ × Except ManagerError Decision}
    (asked : Asked behaviour true worker context rest facts answer) :
    worker.lifecycle.phase = .uninitialized ∧ context = worker.context ∧
      answer = behaviour.start worker.context worker.manager := by
  cases asked with
  | start fresh => exact ⟨fresh, rfl, rfl⟩
  | event event rest begun going next => cases going

/-- What has become of a worker since the job was aborted. -/
inductive Halted (behaviour : Behaviour σ) (first worker : Worker σ) : Prop where
  /-- It took no turn, though events may have come in. -/
  | waiting (phase : worker.lifecycle.phase = first.lifecycle.phase)
      (context : worker.context = first.context) (manager : worker.manager = first.manager)
      (outcome : worker.outcome = first.outcome)
  /-- It had not begun, and asked its manager how to start but nothing more. -/
  | started (fresh : first.lifecycle.phase = .uninitialized)
      (begun : worker.lifecycle.phase ≠ .uninitialized) (context : worker.context = first.context)
      (manager : worker.manager = (behaviour.start first.context first.manager).1)
      (decided : ∀ decision, worker.outcome = some (.finalized decision) →
        (behaviour.start first.context first.manager).2 = .ok (.finalize decision))
  /-- It had begun and ended without a question; what was queued is gone. -/
  | dropped (begun : first.lifecycle.phase ≠ .uninitialized)
      (context : worker.context = first.context) (manager : worker.manager = first.manager)
      (outcome : worker.outcome = some (.aborted "job aborted")) (queue : worker.queue = [])

section Halting

variable {behaviour : Behaviour σ} {first worker after : Worker σ}
  (halted : Halted behaviour first worker)

include halted

theorem Halted.hear (events : List ManagerEvent) :
    Halted behaviour first (hear events worker) := by
  unfold Scheduler.hear
  split
  · exact halted
  · rename_i going
    cases halted with
    | waiting phase context manager outcome => exact .waiting phase context manager outcome
    | started fresh begun context manager decided =>
        exact .started fresh begun context manager decided
    | dropped begun context manager outcome queue => simp [outcome] at going

theorem Halted.turn {told : Option UInt32} {facts : List HistoryFact}
    (going : worker.outcome = none) (turn : Turn behaviour true worker after told facts) :
    Halted behaviour first after := by
  cases halted with
  | dropped begun context manager outcome queue => simp [outcome] at going
  -- whoever was asked has begun, so all that is left is to end
  | started fresh begun context manager decided =>
      cases turn with
      | pending asking rest facts state asked => exact absurd asked.of_aborted.1 begun
      | finalized asking rest facts state decision asked => exact absurd asked.of_aborted.1 begun
      | failed asking rest facts state error asked => exact absurd asked.of_aborted.1 begun
      | aborted => exact .started fresh (by simp [ended]) context manager (by simp [ended])
  | waiting phase context manager outcome =>
      cases turn with
      | pending asking rest facts state asked =>
          obtain ⟨fresh, rfl, answered⟩ := asked.of_aborted
          rw [context, manager] at answered
          exact .started (phase ▸ fresh) (by simp) context (congrArg Prod.fst answered)
            (by simp [going])
      | finalized asking rest facts state decision asked =>
          obtain ⟨fresh, rfl, answered⟩ := asked.of_aborted
          rw [context, manager] at answered
          refine .started (phase ▸ fresh) (by simp [ended]) context (congrArg Prod.fst answered)
            fun other same => ?_
          obtain rfl : decision = other := by simpa [ended] using same
          rw [← answered]
      | failed asking rest facts state error asked =>
          obtain ⟨fresh, rfl, answered⟩ := asked.of_aborted
          rw [context, manager] at answered
          exact .started (phase ▸ fresh) (by simp [ended]) context (congrArg Prod.fst answered)
            (by simp [ended])
      | aborted begun stop =>
          exact .dropped (by simp [← phase, begun]) context manager rfl rfl

theorem Halted.finalized {decision : Reconfiguration}
    (outcome : worker.outcome = some (.finalized decision)) :
    first.outcome = some (.finalized decision) ∨ first.lifecycle.phase = .uninitialized ∧
      (behaviour.start first.context first.manager).2 = .ok (.finalize decision) := by
  cases halted with
  | waiting phase context manager same => exact .inl (same ▸ outcome)
  | started fresh begun context manager decided => exact .inr ⟨fresh, decided decision outcome⟩
  | dropped begun context manager same queue => simp [same] at outcome

end Halting

theorem run_halted (behaviour : Behaviour σ) (actions : List Action) (scheduler : Scheduler σ ι)
    (sound : scheduler.Sound) (stopped : scheduler.isAborted = true) (index : Nat)
    (first worker : Worker σ) (found : scheduler.workers[index]? = some worker)
    (halted : Halted behaviour first worker) :
    ∃ after, (run behaviour scheduler actions).workers[index]? = some after ∧
      Halted behaviour first after := by
  induction actions generalizing scheduler worker with
  | nil => exact ⟨worker, found, halted⟩
  | cons action rest ih =>
      obtain ⟨next, place, kept⟩ := perform_keeps behaviour (Halted behaviour first) scheduler
        action sound (fun events worker halted => halted.hear events)
        (fun worker after told facts going turn halted => halted.turn going (stopped ▸ turn))
        index worker found halted
      exact ih _ (perform_sound behaviour scheduler action sound)
        (perform_isAborted behaviour scheduler action sound stopped) next place kept

/-- In an aborted job, the next turn of a worker that has begun is its last. -/
theorem work_aborted (behaviour : Behaviour σ) (scheduler : Scheduler σ ι)
    (stopped : scheduler.isAborted = true) (index : Nat) (worker : Worker σ)
    (found : scheduler.workers[index]? = some worker) (going : worker.outcome = none)
    (begun : worker.lifecycle.phase = .awaitingEvents) :
    (scheduler.work behaviour index).workers[index]? =
      some (ended worker worker.context worker.manager .aborted worker.lifecycle.decision
        (.aborted "job aborted")) := by
  have inside := (List.getElem?_eq_some_iff.mp found).1
  have aborts : scheduler.work behaviour index = scheduler.putWorker index
      (ended worker worker.context worker.manager .aborted worker.lifecycle.decision
        (.aborted "job aborted")) := by
    simp [work, found, going, begun, stopped, abortWorker, Lifecycle.abort, endWorker, ended]
  rw [aborts]
  exact List.getElem?_set_self inside

theorem run_append (behaviour : Behaviour σ) (scheduler : Scheduler σ ι)
    (earlier later : List Action) :
    run behaviour scheduler (earlier ++ later) =
      run behaviour (run behaviour scheduler earlier) later :=
  List.foldl_append

theorem run_dropped (behaviour : Behaviour σ) (actions : List Action) (scheduler : Scheduler σ ι)
    (sound : scheduler.Sound) (stopped : scheduler.isAborted = true) (index : Nat)
    (worker : Worker σ) (found : scheduler.workers[index]? = some worker)
    (going : worker.outcome = none) (begun : worker.lifecycle.phase ≠ .uninitialized)
    (turn : .work index ∈ actions) :
    ∃ after, (run behaviour scheduler actions).workers[index]? = some after ∧
      after.outcome = some (.aborted "job aborted") ∧ after.queue = [] := by
  obtain ⟨before, rest, rfl⟩ := List.append_of_mem turn
  obtain ⟨middle, place, halted⟩ := run_halted behaviour before scheduler sound stopped index worker
    worker found (.waiting rfl rfl rfl rfl)
  have soundMiddle := run_sound behaviour before scheduler sound
  rw [run_append]
  cases halted with
  | started fresh => exact absurd fresh begun
  | dropped _ _ _ outcome queue =>
      exact ⟨middle, run_ended behaviour _ _ soundMiddle index middle place (by simp [outcome]),
        outcome, queue⟩
  | waiting phase context manager outcome =>
      have waits : middle.lifecycle.phase = .awaitingEvents := by
        have stored := soundMiddle middle (List.mem_of_getElem? place)
        simp only [SoundWorker, outcome.trans going, phase, begun, false_or] at stored
        rw [phase, stored]
      have last := work_aborted behaviour _ (run_isAborted behaviour before scheduler sound stopped)
        index middle place (outcome.trans going) waits
      exact ⟨_, run_ended behaviour rest _
        (perform_sound behaviour _ (.work index) soundMiddle) index _ last rfl, rfl, rfl⟩

section Aborting

variable (behaviour : Behaviour σ) (scheduler : Scheduler σ ι) (sound : scheduler.Sound)
  (reason : String) (actions : List Action)

include sound

theorem abort_sound : (scheduler.abort reason).Sound :=
  fun worker member => sound worker (abort_workers scheduler reason ▸ member)

theorem aborted_placeOf? (vertex : String) :
    (run behaviour (scheduler.abort reason) actions).placeOf? vertex = scheduler.placeOf? vertex := by
  rw [placeOf?, (run_frame behaviour actions _ (abort_sound scheduler sound reason)).2,
    abort_handles]
  rfl

theorem aborted_worker (index : Nat) (worker : Worker σ)
    (found : scheduler.workers[index]? = some worker) :
    ∃ last, (run behaviour (scheduler.abort reason) actions).workers[index]? = some last ∧
      Halted behaviour worker last :=
  run_halted behaviour actions _ (abort_sound scheduler sound reason)
    (abort_isAborted scheduler reason) index worker worker
    ((abort_workers scheduler reason).symm ▸ found) (.waiting rfl rfl rfl rfl)

theorem aborted_finalized (vertex : String) (decision : Reconfiguration)
    (shown : (run behaviour (scheduler.abort reason) actions).outcome? vertex =
      some (.finalized decision)) :
    scheduler.outcome? vertex = some (.finalized decision) ∨
      scheduler.phase vertex = .ok .uninitialized ∧ ∃ index worker,
        scheduler.placeOf? vertex = some index ∧ scheduler.workers[index]? = some worker ∧
        (behaviour.start worker.context worker.manager).2 = .ok (.finalize decision) := by
  have aborted := abort_sound scheduler sound reason
  obtain ⟨⟨standing, downstream⟩, known, published⟩ := (outcome?_eq_some_iff _ _ _).mp shown
  rw [(run_frame behaviour actions _ aborted).2, abort_handles] at known
  cases standing with
  | settled settled => exact .inl ((outcome?_eq_some_iff _ _ _).mpr ⟨_, known, published⟩)
  | managed index =>
      have place := (placeOf?_eq_some_iff scheduler vertex index).mpr ⟨downstream, known⟩
      have inside : index < scheduler.workers.length := by
        obtain ⟨last, there, _⟩ := Option.bind_eq_some_iff.mp published
        have bound := (List.getElem?_eq_some_iff.mp there).1
        rwa [run_length behaviour actions _ aborted, abort_workers] at bound
      have found := List.getElem?_eq_getElem inside
      obtain ⟨last, there, halted⟩ :=
        aborted_worker behaviour scheduler sound reason actions index _ found
      obtain ⟨phase, outcome⟩ := worker_shown place found
      have placed := aborted_placeOf? behaviour scheduler sound reason actions vertex
      rw [(worker_shown (placed.trans place) there).2] at shown
      rcases halted.finalized shown with before | ⟨fresh, answer⟩
      · exact .inl (outcome.trans before)
      · exact .inr ⟨phase.trans (congrArg _ fresh), index, _, place, found, answer⟩

/-- The manager of a vertex that had begun hears of nothing any more. -/
theorem aborted_begun (vertex : String) (index : Nat) (worker : Worker σ)
    (place : scheduler.placeOf? vertex = some index)
    (found : scheduler.workers[index]? = some worker) (going : worker.outcome = none)
    (begun : worker.lifecycle.phase ≠ .uninitialized) :
    ∃ last, (run behaviour (scheduler.abort reason) actions).workers[index]? = some last ∧
      last.manager = worker.manager ∧ last.context = worker.context ∧
      (.work index ∈ actions →
        (run behaviour (scheduler.abort reason) actions).phase vertex = .ok .aborted ∧
          last.queue = []) := by
  have aborted := abort_sound scheduler sound reason
  obtain ⟨last, there, halted⟩ :=
    aborted_worker behaviour scheduler sound reason actions index worker found
  obtain ⟨manager, context⟩ : last.manager = worker.manager ∧ last.context = worker.context := by
    cases halted with
    | waiting _ context manager _ => exact ⟨manager, context⟩
    | started fresh => exact absurd fresh begun
    | dropped _ context manager _ _ => exact ⟨manager, context⟩
  refine ⟨last, there, manager, context, fun turn => ?_⟩
  obtain ⟨other, same, outcome, queue⟩ := run_dropped behaviour actions _ aborted
    (abort_isAborted scheduler reason) index worker
    ((abort_workers scheduler reason).symm ▸ found) going begun turn
  obtain rfl : last = other := Option.some.inj (there.symm.trans same)
  have placed := aborted_placeOf? behaviour scheduler sound reason actions vertex
  have shown := (worker_shown (placed.trans place) there).2.trans outcome
  exact ⟨(phase_aborted_iff _ (run_sound behaviour actions _ aborted) vertex).mpr ⟨_, shown⟩, queue⟩

end Aborting

/-- Once the job was aborted, no vertex becomes final but by the first answer of a manager that had
not been asked before. The manager of a vertex that had begun hears of nothing any more, and with
the next turn of its worker the vertex is aborted and its queue empty. -/
theorem abort_stops_begun_vertices (behaviour : Behaviour σ) (plan : Plan) (managers : Registry σ)
    (initializers : Registry ι) (earlier later : List Action) (reason vertex : String) :
    let now := run behaviour (submit plan managers initializers).scheduler earlier
    let after := run behaviour (now.abort reason) later
    (∀ decision, after.outcome? vertex = some (.finalized decision) →
      now.outcome? vertex = some (.finalized decision) ∨
        now.phase vertex = .ok .uninitialized ∧ ∃ index worker,
          now.placeOf? vertex = some index ∧ now.workers[index]? = some worker ∧
          (behaviour.start worker.context worker.manager).2 = .ok (.finalize decision)) ∧
      (now.phase vertex ≠ .ok .finalized → now.phase vertex ≠ .ok .uninitialized →
        after.phase vertex ≠ .ok .finalized) ∧
      ∀ index worker, now.placeOf? vertex = some index → now.workers[index]? = some worker →
        worker.outcome = none → worker.lifecycle.phase ≠ .uninitialized →
        ∃ last, after.workers[index]? = some last ∧ last.manager = worker.manager ∧
          last.context = worker.context ∧
          (.work index ∈ later → after.phase vertex = .ok .aborted ∧ last.queue = []) := by
  intro now after
  have sound : now.Sound := run_sound behaviour earlier _ (submit_sound plan managers initializers)
  have soundAfter : after.Sound :=
    run_sound behaviour later _ (abort_sound now sound reason)
  have finalized := aborted_finalized behaviour now sound reason later vertex
  refine ⟨finalized, fun undecided begun final => ?_,
    aborted_begun behaviour now sound reason later vertex⟩
  obtain ⟨decision, shown⟩ := (phase_finalized_iff after soundAfter vertex).mp final
  rcases finalized decision shown with before | ⟨fresh, _⟩
  · exact undecided ((phase_finalized_iff now sound vertex).mpr ⟨decision, before⟩)
  · exact begun fresh

def promptJob : List Mutation :=
  [.addVertex { name := "stage", processor := ⟨"Step", none⟩, parallelism := .fixed 2
                resource := ⟨64, 1⟩, manager := some ⟨BuiltIn.immediateClass, none⟩ }]

/-- A vertex that had not begun when the job was aborted becomes final all the same. -/
theorem fresh_vertex_decides_after_abort :
    ∃ plan, ((JobGraph.create "job" .shared).assemble promptJob).createPlan = .ok plan ∧
      (submit plan BuiltIn.registry (.empty : Registry Unit)).result = .ok () ∧
      let now := run BuiltIn.behaviour
        (submit plan BuiltIn.registry (.empty : Registry Unit)).scheduler []
      now.phase "stage" = .ok .uninitialized ∧
        (run BuiltIn.behaviour (now.abort "early") [.work 0]).phase "stage" = .ok .finalized := by
  obtain ⟨plan, created, accepted, facts⟩ :
      ∃ plan ∈ ((JobGraph.create "job" .shared).assemble promptJob).createPlan.toOption,
        (submit plan BuiltIn.registry (.empty : Registry Unit)).result = .ok () ∧
        (run BuiltIn.behaviour (submit plan BuiltIn.registry (.empty : Registry Unit)).scheduler
          []).phase "stage" = .ok .uninitialized ∧
        (run BuiltIn.behaviour ((run BuiltIn.behaviour
          (submit plan BuiltIn.registry (.empty : Registry Unit)).scheduler []).abort "early")
          [.work 0]).phase "stage" = .ok .finalized := by
    decide +kernel
  exact ⟨plan, toOption_eq_some_iff.mp created, accepted, facts⟩

end ElasticJob.Scheduler
