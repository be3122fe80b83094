import ElasticJob.Scheduler.Step
import Mathlib.Data.List.Basic

/-!
What a step of a running job does, said once. Clients and initializers only add events to queues.
A worker that takes a turn either asks its manager, and goes on or ends as the manager answers, or
ends because the job was aborted; what it tells downstream is queued before its outcome shows.
-/

namespace ElasticJob.Scheduler

variable {σ ι : Type}

def hear (events : List ManagerEvent) (worker : Worker σ) : Worker σ :=
  if worker.outcome.isSome then worker else { worker with queue := worker.queue ++ events }

def tell (event : ManagerEvent) (indices : List Nat) (workers : List (Worker σ)) :
    List (Worker σ) :=
  indices.foldl (fun current index => current.modify index (hear [event])) workers

theorem hear_nil : hear [] = (id : Worker σ → Worker σ) := by
  funext worker
  simp [hear]

theorem hear_append (worker : Worker σ) (first second : List ManagerEvent) :
    hear second (hear first worker) = hear (first ++ second) worker := by
  by_cases ended : worker.outcome.isSome = true <;> simp [hear, ended]

theorem hear_frame (events : List ManagerEvent) (worker : Worker σ) :
    (hear events worker).lifecycle = worker.lifecycle ∧
      (hear events worker).downstream = worker.downstream ∧
      (hear events worker).outcome = worker.outcome := by
  unfold hear
  split <;> exact ⟨rfl, rfl, rfl⟩

theorem enqueue_eq_hear (worker : Worker σ) (event : ManagerEvent) :
    enqueue worker event = hear [event] worker := rfl

theorem tell_getElem? (event : ManagerEvent) (indices : List Nat) (workers : List (Worker σ))
    (index : Nat) :
    (tell event indices workers)[index]? =
      (workers[index]?).map (hear (List.replicate (indices.count index) event)) := by
  induction indices generalizing workers with
  | nil => simp [tell, hear_nil]
  | cons first rest ih =>
      change (tell event rest (workers.modify first (hear [event])))[index]? = _
      rw [ih, List.getElem?_modify]
      by_cases same : first = index
      · subst first
        cases workers[index]? with
        | none => rfl
        | some worker =>
            simp [hear_append, List.replicate_succ]
      · simp [same]

theorem modify_of_getElem? {α : Type} (items : List α) (index : Nat) (item : α) (change : α → α)
    (found : items[index]? = some item) :
    items.modify index change = items.set index (change item) := by
  rw [List.modify_eq_set_getElem?, found]
  rfl

theorem deliver_eq (scheduler : Scheduler σ ι) (index : Nat) (event : ManagerEvent) :
    scheduler.deliver index event =
      { scheduler with workers := tell event [index] scheduler.workers } := by
  simp only [tell, List.foldl_cons, List.foldl_nil, deliver]
  cases found : scheduler.workers[index]? with
  | none => rw [List.modify_eq_self (List.getElem?_eq_none_iff.mp found)]
  | some worker =>
      rw [modify_of_getElem? _ _ _ _ found, ← enqueue_eq_hear]
      rfl

theorem tellParallelism_eq (event : ManagerEvent) (indices : List Nat)
    (scheduler : Scheduler σ ι) :
    indices.foldl (tellParallelism event) scheduler =
      { scheduler with workers := tell event indices scheduler.workers } := by
  induction indices generalizing scheduler with
  | nil => rfl
  | cons first rest ih =>
      rw [List.foldl_cons, ih, tellParallelism, deliver_eq]
      rfl

def SoundWorker (worker : Worker σ) : Prop :=
  match worker.outcome with
  | none => worker.lifecycle.phase = .uninitialized ∨ worker.lifecycle.phase = .awaitingEvents
  | some (.finalized decision) => worker.lifecycle.phase = .finalized ∧
      worker.lifecycle.decision = some decision ∧ worker.queue = []
  | some (.aborted _) => worker.lifecycle.phase = .aborted ∧ worker.queue = []

/-- What a worker that has not ended asks its manager: the context, the events that stay queued,
the facts reported before, and the manager's next state with its answer. -/
inductive Asked (behaviour : Behaviour σ) (isAborted : Bool) (worker : Worker σ) :
    Context → List ManagerEvent → List HistoryFact → σ × Except ManagerError Decision → Prop where
  /-- The first turn asks whether or not the job was aborted. -/
  | start (fresh : worker.lifecycle.phase = .uninitialized) :
      Asked behaviour isAborted worker worker.context worker.queue
        [.vertexStarted worker.lifecycle.vertex] (behaviour.start worker.context worker.manager)
  | event (event : ManagerEvent) (rest : List ManagerEvent)
      (begun : worker.lifecycle.phase = .awaitingEvents) (going : isAborted = false)
      (next : worker.queue = event :: rest) :
      Asked behaviour isAborted worker (learn worker.context event) rest []
        (behaviour.onEvent (learn worker.context event) event worker.manager)

def ended (worker : Worker σ) (context : Context) (manager : σ) (phase : Phase)
    (decision : Option Reconfiguration) (outcome : Outcome) : Worker σ :=
  { worker with
    context := context
    manager := manager
    lifecycle := { worker.lifecycle with phase := phase, decision := decision }
    queue := []
    outcome := some outcome }

inductive Turn (behaviour : Behaviour σ) (isAborted : Bool) (worker : Worker σ) :
    Worker σ → Option UInt32 → List HistoryFact → Prop where
  | pending (context : Context) (rest : List ManagerEvent) (facts : List HistoryFact) (manager : σ)
      (asked : Asked behaviour isAborted worker context rest facts (manager, .ok .pending)) :
      Turn behaviour isAborted worker
        { worker with
          context := context
          manager := manager
          lifecycle := { worker.lifecycle with phase := .awaitingEvents }
          queue := rest } none facts
  | finalized (context : Context) (rest : List ManagerEvent) (facts : List HistoryFact)
      (manager : σ) (decision : Reconfiguration)
      (asked : Asked behaviour isAborted worker context rest facts
        (manager, .ok (.finalize decision))) :
      Turn behaviour isAborted worker
        (ended worker context manager .finalized (some decision) (.finalized decision))
        (some decision.parallelism)
        (facts ++ [.vertexReconfigured worker.lifecycle.vertex decision.parallelism])
  | failed (context : Context) (rest : List ManagerEvent) (facts : List HistoryFact)
      (manager : σ) (error : ManagerError)
      (asked : Asked behaviour isAborted worker context rest facts (manager, .error error)) :
      Turn behaviour isAborted worker
        (ended worker context manager .aborted worker.lifecycle.decision
          (.aborted error.message)) none facts
  | aborted (begun : worker.lifecycle.phase = .awaitingEvents) (stop : isAborted = true) :
      Turn behaviour isAborted worker
        (ended worker worker.context worker.manager .aborted worker.lifecycle.decision
          (.aborted "job aborted")) none []

def afterTurn (workers : List (Worker σ)) (index : Nat) (worker after : Worker σ)
    (told : Option UInt32) : List (Worker σ) :=
  match told with
  | none => workers.set index after
  | some tasks =>
      (tell (.sourceConfigured worker.lifecycle.vertex tasks) worker.downstream workers).set index
        after

theorem tell_length (event : ManagerEvent) (indices : List Nat) (workers : List (Worker σ)) :
    (tell event indices workers).length = workers.length := by
  induction indices generalizing workers with
  | nil => rfl
  | cons first rest ih =>
      change (tell event rest (workers.modify first (hear [event]))).length = _
      rw [ih, List.length_modify]

theorem tell_set (event : ManagerEvent) (indices : List Nat) (workers : List (Worker σ))
    (index : Nat) (early late : Worker σ) :
    (tell event indices (workers.set index early)).set index late =
      (tell event indices workers).set index late := by
  apply List.ext_getElem?
  intro other
  by_cases here : index = other
  · simp [List.getElem?_set, here, tell_length]
  · simp [here, tell_getElem?]

theorem settle_turn (behaviour : Behaviour σ) (isAborted : Bool) (scheduler : Scheduler σ ι)
    (index : Nat) (worker : Worker σ) (context : Context) (rest : List ManagerEvent)
    (facts : List HistoryFact) (manager : σ) (answer : Except ManagerError Decision) (phase : Phase)
    (asked : Asked behaviour isAborted worker context rest facts (manager, answer))
    (busy : phase = .awaitingEvents ∨ phase = .reconfiguring) :
    ∃ after told more, Turn behaviour isAborted worker after told (facts ++ more) ∧
      scheduler.settle index { worker with
        context := context
        manager := manager
        lifecycle := { worker.lifecycle with phase := phase }
        queue := rest } answer =
      { scheduler with
        workers := afterTurn scheduler.workers index worker after told
        reported := scheduler.reported ++ more } := by
  cases answer with
  | error error =>
      refine ⟨_, _, [], by simpa using Turn.failed context rest facts manager error asked, ?_⟩
      -- asked at its start a worker awaits events, asked about one it is reconfiguring
      rcases busy with rfl | rfl <;>
        simp [settle, abortWorker, Lifecycle.abort, putWorker, endWorker, ended, afterTurn]
  | ok decision =>
      cases decision with
      | pending =>
          refine ⟨_, _, [], by simpa using Turn.pending context rest facts manager asked, ?_⟩
          rcases busy with rfl | rfl <;>
            simp [settle, Lifecycle.endEvent, putWorker, afterTurn]
      | finalize decision =>
          refine ⟨_, _, _, Turn.finalized context rest facts manager decision asked, ?_⟩
          rcases busy with rfl | rfl <;>
            simp [settle, finalizeWorker, Lifecycle.finalize, tellParallelism_eq, putWorker, report,
              endWorker, ended, afterTurn, tell_set]

theorem work_turn (behaviour : Behaviour σ) (scheduler : Scheduler σ ι) (index : Nat)
    (worker : Worker σ) (found : scheduler.workers[index]? = some worker)
    (sound : SoundWorker worker) :
    scheduler.work behaviour index = scheduler ∨
      worker.outcome = none ∧ ∃ after told facts,
        Turn behaviour scheduler.isAborted worker after told facts ∧
        scheduler.work behaviour index =
          { scheduler with
            workers := afterTurn scheduler.workers index worker after told
            reported := scheduler.reported ++ facts } := by
  unfold work
  simp only [found]
  by_cases terminal : worker.outcome.isSome = true
  · simp [terminal]
  · have going : worker.outcome = none := by simpa using terminal
    have phase : worker.lifecycle.phase = .uninitialized ∨
        worker.lifecycle.phase = .awaitingEvents := by
      simpa [SoundWorker, going] using sound
    rw [if_neg terminal]
    rcases phase with fresh | begun
    · right
      refine ⟨going, ?_⟩
      obtain ⟨after, told, more, turn, same⟩ := settle_turn behaviour scheduler.isAborted
        (scheduler.report (.vertexStarted worker.lifecycle.vertex)) index worker _ _ _ _ _
        .awaitingEvents (.start fresh) (.inl rfl)
      refine ⟨after, told, _, turn, ?_⟩
      simp only [fresh, if_true, startWorker, Lifecycle.awaitEvents, same]
      simp [report]
    · rw [if_neg (by simp [begun])]
      by_cases stop : scheduler.isAborted = true
      · right
        refine ⟨going, _, _, _, .aborted begun stop, ?_⟩
        simp [stop, abortWorker, Lifecycle.abort, begun, putWorker, endWorker, ended, afterTurn]
      · rw [if_neg stop]
        have running : scheduler.isAborted = false := by simpa using stop
        split
        · exact .inl rfl
        · rename_i event rest next
          right
          refine ⟨going, ?_⟩
          obtain ⟨after, told, more, turn, same⟩ := settle_turn behaviour scheduler.isAborted
            scheduler index worker _ _ _ _ _ .reconfiguring (.event event rest begun running next)
            (.inr rfl)
          refine ⟨after, told, _, turn, ?_⟩
          simp only [consume, Lifecycle.beginEvent, begun]
          simpa using same

theorem SoundWorker.ended_iff {worker : Worker σ} (sound : SoundWorker worker) :
    worker.lifecycle.phase.isTerminated = true ↔ worker.outcome.isSome = true := by
  unfold SoundWorker at sound
  split at sound
  · rename_i going
    rcases sound with phase | phase <;> simp [going, phase, Phase.isTerminated]
  · rename_i decision result
    simp [result, sound.1, Phase.isTerminated]
  · rename_i reason result
    simp [result, sound.1, Phase.isTerminated]

theorem hear_sound (events : List ManagerEvent) (worker : Worker σ) (sound : SoundWorker worker) :
    SoundWorker (hear events worker) := by
  unfold hear
  split
  · exact sound
  · rename_i going
    have none : worker.outcome = none := by simpa using going
    simpa [SoundWorker, none] using sound

theorem turn_sound (behaviour : Behaviour σ) (isAborted : Bool) (worker after : Worker σ)
    (told : Option UInt32) (facts : List HistoryFact) (going : worker.outcome = none)
    (turn : Turn behaviour isAborted worker after told facts) : SoundWorker after := by
  cases turn with
  | pending => simp [SoundWorker, going]
  | finalized => simp [SoundWorker, ended]
  | failed => simp [SoundWorker, ended]
  | aborted => simp [SoundWorker, ended]

def Sound (scheduler : Scheduler σ ι) : Prop :=
  ∀ worker ∈ scheduler.workers, SoundWorker worker

theorem work_frame (behaviour : Behaviour σ) (scheduler : Scheduler σ ι) (index : Nat)
    (sound : scheduler.Sound) :
    (scheduler.work behaviour index).plan = scheduler.plan ∧
      (scheduler.work behaviour index).handles = scheduler.handles ∧
      (scheduler.work behaviour index).tasks = scheduler.tasks ∧
      (scheduler.work behaviour index).isAborted = scheduler.isAborted := by
  cases found : scheduler.workers[index]? with
  | none => simp [work, found]
  | some worker =>
      have stored := sound worker (List.mem_of_getElem? found)
      rcases work_turn behaviour scheduler index worker found stored with
        same | ⟨_, _, _, _, _, same⟩
      · simp only [same, and_self]
      · simp only [same, and_self]

theorem tell_sound (event : ManagerEvent) (indices : List Nat) (workers : List (Worker σ))
    (sound : ∀ worker ∈ workers, SoundWorker worker) :
    ∀ worker ∈ tell event indices workers, SoundWorker worker := by
  intro worker member
  obtain ⟨index, found⟩ := List.mem_iff_getElem?.mp member
  rw [tell_getElem?, Option.map_eq_some_iff] at found
  obtain ⟨old, stored, rfl⟩ := found
  exact hear_sound _ _ (sound old (List.mem_of_getElem? stored))

theorem tell_ended (event : ManagerEvent) (index : Nat) (workers : List (Worker σ))
    (worker : Worker σ) (found : workers[index]? = some worker)
    (terminal : worker.outcome.isSome = true) : workers.modify index (hear [event]) = workers := by
  apply List.ext_getElem?
  intro other
  rw [List.getElem?_modify]
  by_cases here : index = other
  · subst here
    simp [found, hear, terminal]
  · simp [here]

def listeners (handles : SortedMap String Handle) : List String → List Nat
  | [] => []
  | vertex :: rest =>
      match handles.get? vertex with
      | none => []
      | some handle =>
          match handle.standing with
          | .settled _ => listeners handles rest
          | .managed index => index :: listeners handles rest

/-- Skipping the vertices that are terminal changes nothing: their workers hear nothing. -/
theorem notify_eq (event : ManagerEvent) (vertices : List String) (scheduler : Scheduler σ ι)
    (sound : scheduler.Sound) :
    (notify event scheduler vertices).1 =
      { scheduler with
        workers := tell event (listeners scheduler.handles vertices) scheduler.workers } := by
  induction vertices generalizing scheduler with
  | nil => rfl
  | cons vertex rest ih =>
      simp only [notify, listeners, handle]
      cases known : scheduler.handles.get? vertex with
      | none => rfl
      | some found =>
          cases place : found.standing with
          | settled decision =>
              simp only [place]
              exact ih scheduler sound
          | managed index =>
              simp only [place, phaseOf]
              change _ = { scheduler with
                workers := tell event (listeners scheduler.handles rest)
                  (scheduler.workers.modify index (hear [event])) }
              have delivered : scheduler.deliver index event = { scheduler with
                  workers := scheduler.workers.modify index (hear [event]) } :=
                deliver_eq scheduler index event
              have heard : (scheduler.deliver index event).Sound := by
                rw [deliver_eq]
                exact tell_sound event [index] scheduler.workers sound
              cases present : scheduler.workers[index]? with
              | none =>
                  rw [if_neg (by simp [Phase.isTerminated]), ih _ heard, delivered]
              | some worker =>
                  dsimp only
                  split
                  -- the worker is skipped, and would hear nothing if it were not
                  · rename_i terminal
                    have member := List.mem_of_getElem? present
                    rw [tell_ended event index scheduler.workers worker present
                      ((sound worker member).ended_iff.mp terminal)]
                    exact ih scheduler sound
                  · rw [ih _ heard, delivered]

theorem send_eq (scheduler : Scheduler σ ι) (vertex : String) (event : ManagerEvent)
    (sound : scheduler.Sound) :
    (scheduler.send vertex event).1 =
      { scheduler with
        workers := tell event (listeners scheduler.handles [vertex]) scheduler.workers } := by
  rw [← notify_eq event [vertex] scheduler sound]
  simp only [send, notify]
  cases scheduler.handle vertex with
  | error error => rfl
  | ok found =>
      cases place : found.standing with
      | settled decision => simp [place, phaseOf, Phase.isTerminated]
      | managed index =>
          simp only [place]
          split <;> rfl

theorem taskCompleted_eq (scheduler : Scheduler σ ι) (source : String) (task : UInt32)
    (size : UInt64) (sound : scheduler.Sound) :
    (scheduler.taskCompleted source task size).1 =
      { scheduler with
        workers := tell (.taskCompleted source task size)
          (listeners scheduler.handles
            (((scheduler.handles.get? source).map (·.downstream)).getD []))
          scheduler.workers } := by
  unfold taskCompleted handle
  cases scheduler.handles.get? source with
  | none => rfl
  | some found => exact notify_eq _ _ _ sound

def nextDelivery (scheduler : Scheduler σ ι) (index : Nat) : Option (Nat × ManagerEvent) :=
  match scheduler.tasks[index]? with
  | none => none
  | some task =>
      match task.stream with
      | some (event :: _) => some (task.worker, event)
      | _ => none

def takeEvent (task : InitializerTask ι) : InitializerTask ι :=
  { task with stream := task.stream.map List.tail }

def completeTask (outcome : InitializerOutcome) (task : InitializerTask ι) : InitializerTask ι :=
  if task.stream.isSome then task
  else { task with stream := some (toManagerEvents task.context.input outcome) }

theorem deliverNext_eq (scheduler : Scheduler σ ι) (index : Nat) :
    scheduler.deliverNext index =
      match scheduler.nextDelivery index with
      | some (worker, event) => { scheduler with
          workers := tell event [worker] scheduler.workers
          tasks := scheduler.tasks.modify index takeEvent }
      | none => scheduler := by
  unfold deliverNext nextDelivery
  cases found : scheduler.tasks[index]? with
  | none => rfl
  | some task =>
      rcases stream : task.stream with _ | (_ | ⟨event, rest⟩)
      · simp [stream]
      · simp [stream]
      · simp [stream, deliver_eq, putTask, modify_of_getElem? _ _ _ _ found, takeEvent]

theorem complete_eq (scheduler : Scheduler σ ι) (index : Nat) (outcome : InitializerOutcome) :
    scheduler.complete index outcome =
      { scheduler with tasks := scheduler.tasks.modify index (completeTask outcome) } := by
  unfold complete
  cases found : scheduler.tasks[index]? with
  | none => rw [List.modify_eq_self (List.getElem?_eq_none_iff.mp found)]
  | some task =>
      have inside := List.getElem?_eq_some_iff.mp found
      rw [modify_of_getElem? _ _ _ _ found]
      by_cases terminal : task.stream.isSome = true
      · have same : scheduler.tasks.set index task = scheduler.tasks := by
          rw [← inside.2, List.set_getElem_self]
        simp [terminal, completeTask, same]
      · simp [terminal, completeTask, putTask]

theorem abort_workers (scheduler : Scheduler σ ι) (reason : String) :
    (scheduler.abort reason).workers = scheduler.workers := by
  unfold abort
  split <;> rfl

/-- The events that an action may put into queues. -/
inductive Brings (scheduler : Scheduler σ ι) : Action → ManagerEvent → Prop where
  | send (vertex : String) (event : ManagerEvent) : Brings scheduler (.send vertex event) event
  | taskCompleted (source : String) (task : UInt32) (size : UInt64) :
      Brings scheduler (.taskCompleted source task size) (.taskCompleted source task size)
  | deliverNext (index worker : Nat) (event : ManagerEvent)
      (next : scheduler.nextDelivery index = some (worker, event)) :
      Brings scheduler (.deliverNext index) event

/-- All that an action does to the workers: nothing, some of them hear of an event that it brings,
or one takes a turn. -/
theorem perform_brings (behaviour : Behaviour σ) (scheduler : Scheduler σ ι) (action : Action)
    (sound : scheduler.Sound) :
    (scheduler.perform behaviour action).workers = scheduler.workers ∨
      (∃ event indices, Brings scheduler action event ∧
        (scheduler.perform behaviour action).workers = tell event indices scheduler.workers) ∨
      ∃ index worker after told facts, action = .work index ∧
        scheduler.workers[index]? = some worker ∧ worker.outcome = none ∧
        Turn behaviour scheduler.isAborted worker after told facts ∧
        (scheduler.perform behaviour action).workers =
          afterTurn scheduler.workers index worker after told := by
  cases action with
  | send vertex event =>
      exact .inr (.inl ⟨event, _, .send vertex event,
        congrArg Scheduler.workers (send_eq scheduler vertex event sound)⟩)
  | taskCompleted source task size =>
      exact .inr (.inl ⟨_, _, .taskCompleted source task size,
        congrArg Scheduler.workers (taskCompleted_eq scheduler source task size sound)⟩)
  | abort reason => exact .inl (abort_workers scheduler reason)
  | complete index outcome => exact .inl (by rw [perform, complete_eq])
  | deliverNext index =>
      have delivered := deliverNext_eq scheduler index
      cases next : scheduler.nextDelivery index with
      | none =>
          rw [next] at delivered
          exact .inl (congrArg Scheduler.workers delivered)
      | some delivery =>
          rw [next] at delivered
          exact .inr (.inl ⟨delivery.2, [delivery.1], .deliverNext index delivery.1 delivery.2 next,
            congrArg Scheduler.workers delivered⟩)
  | work index =>
      cases found : scheduler.workers[index]? with
      | none => exact .inl (by simp [perform, work, found])
      | some worker =>
          have stored := sound worker (List.mem_of_getElem? found)
          rcases work_turn behaviour scheduler index worker found stored with
            same | ⟨going, after, told, facts, turn, same⟩
          · exact .inl (congrArg Scheduler.workers same)
          · exact .inr (.inr ⟨index, worker, after, told, facts, rfl, found, going, turn,
              congrArg Scheduler.workers same⟩)

theorem perform_workers (behaviour : Behaviour σ) (scheduler : Scheduler σ ι) (action : Action)
    (sound : scheduler.Sound) :
    (∃ event indices, (scheduler.perform behaviour action).workers =
        tell event indices scheduler.workers) ∨
      ∃ index worker after told facts, action = .work index ∧
        scheduler.workers[index]? = some worker ∧ worker.outcome = none ∧
        Turn behaviour scheduler.isAborted worker after told facts ∧
        (scheduler.perform behaviour action).workers =
          afterTurn scheduler.workers index worker after told := by
  rcases perform_brings behaviour scheduler action sound with
    same | ⟨event, indices, _, same⟩ | turn
  -- where no worker changes, nobody hears of whatever event
  · exact .inl ⟨.inputInitialized "", [], same⟩
  · exact .inl ⟨event, indices, same⟩
  · exact .inr turn

theorem perform_frame (behaviour : Behaviour σ) (scheduler : Scheduler σ ι) (action : Action)
    (sound : scheduler.Sound) :
    (scheduler.perform behaviour action).plan = scheduler.plan ∧
      (scheduler.perform behaviour action).handles = scheduler.handles := by
  cases action with
  | send vertex event =>
      simp only [perform, send_eq scheduler vertex event sound, and_self]
  | taskCompleted source task size =>
      simp only [perform, taskCompleted_eq scheduler source task size sound, and_self]
  | abort reason =>
      simp only [perform, abort]
      split <;> exact ⟨rfl, rfl⟩
  | complete index outcome => simp only [perform, complete_eq, and_self]
  | deliverNext index =>
      simp only [perform, deliverNext_eq]
      split <;> exact ⟨rfl, rfl⟩
  | work index =>
      obtain ⟨plan, handles, _⟩ := work_frame behaviour scheduler index sound
      exact ⟨plan, handles⟩

end ElasticJob.Scheduler
