import ElasticJob.Proofs.Manager.Feeding
import ElasticJob.Proofs.Manager.InitializerStream
import ElasticJob.Proofs.Scheduler.Outcome

/-!
Every event that a worker was ever told, in order. A worker that has not ended is its manager fed
with the events of its log, but for those that are still queued; so what it does not know it was
never told. The log of a worker grows whether or not the worker still listens.
-/

namespace ElasticJob.Scheduler

variable {σ ι : Type}

abbrev Log := Nat → List ManagerEvent

def Log.add (log : Log) (event : ManagerEvent) (indices : List Nat) : Log :=
  fun index => log index ++ List.replicate (indices.count index) event

theorem Log.subset_add (log : Log) (event : ManagerEvent) (indices : List Nat) (index : Nat) :
    log index ⊆ log.add event indices index :=
  List.subset_append_left _ _

theorem Log.mem_add (log : Log) (event other : ManagerEvent) (indices : List Nat) (index : Nat) :
    other ∈ log.add event indices index ↔
      other ∈ log index ∨ index ∈ indices ∧ other = event := by
  simp [add, List.mem_replicate, List.count_eq_zero, and_comm]

/-- A worker that has not ended, as the replay of what it was told. -/
inductive Replayed (behaviour : Behaviour σ) (first : Worker σ) (told : List ManagerEvent)
    (worker : Worker σ) : Prop where
  | fresh (phase : worker.lifecycle.phase = .uninitialized) (queue : worker.queue = told)
      (context : worker.context = first.context) (manager : worker.manager = first.manager) :
      Replayed behaviour first told worker
  | begun (read : List ManagerEvent) (phase : worker.lifecycle.phase = .awaitingEvents)
      (split : told = read ++ worker.queue)
      (waits : behaviour.serve first.context first.manager read =
        .pending worker.context worker.manager) :
      Replayed behaviour first told worker

structure Logged (behaviour : Behaviour σ) (origin workers : List (Worker σ)) (log : Log) :
    Prop where
  kept : ∀ (index : Nat) (first : Worker σ), origin[index]? = some first →
    ∃ worker, workers[index]? = some worker ∧
      worker.lifecycle.vertex = first.lifecycle.vertex ∧ worker.downstream = first.downstream ∧
      (worker.outcome = none → Replayed behaviour first (log index) worker)
  stays : workers.length = origin.length
  /-- The workers downstream of one that is final were told so. -/
  heard : ∀ (index : Nat) (worker : Worker σ) (decision : Reconfiguration),
    workers[index]? = some worker → worker.outcome = some (.finalized decision) →
      ∀ listener ∈ worker.downstream,
        .sourceConfigured worker.lifecycle.vertex decision.parallelism ∈ log listener
  /-- Nobody else was told so. -/
  honest : ∀ (listener : Nat) (source : String) (tasks : UInt32),
    .sourceConfigured source tasks ∈ log listener →
      ∃ (index : Nat) (worker : Worker σ) (decision : Reconfiguration),
        workers[index]? = some worker ∧ worker.lifecycle.vertex = source ∧
        worker.outcome = some (.finalized decision) ∧ decision.parallelism = tasks

theorem Replayed.hear {behaviour : Behaviour σ} {first worker : Worker σ}
    {told : List ManagerEvent} (replayed : Replayed behaviour first told worker)
    (going : worker.outcome = none) (events : List ManagerEvent) :
    Replayed behaviour first (told ++ events) (hear events worker) := by
  have shape : Scheduler.hear events worker = { worker with queue := worker.queue ++ events } := by
    simp [Scheduler.hear, going]
  rw [shape]
  cases replayed with
  | fresh phase queue context manager => exact .fresh phase (by rw [queue]) context manager
  | begun read phase split waits =>
      exact .begun read phase (by rw [split, List.append_assoc]) waits

theorem Replayed.turn {behaviour : Behaviour σ} {first worker after : Worker σ}
    {events : List ManagerEvent} {told : Option UInt32} {facts : List HistoryFact}
    (replayed : Replayed behaviour first events worker)
    (turn : Turn behaviour false worker after told facts) (alive : after.outcome = none) :
    Replayed behaviour first events after := by
  cases turn with
  | pending context rest facts manager asked =>
      generalize answered : (manager, Except.ok Decision.pending) = answer at asked
      cases asked with
      | start phase =>
          cases replayed with
          | begun read begun => rw [begun] at phase; cases phase
          | fresh _ queue same state =>
              refine .begun [] rfl queue.symm ?_
              rw [same, state] at answered
              simp only [Behaviour.serve, ← answered, Behaviour.feed, same]
      | event event rest phase going next =>
          cases replayed with
          | fresh fresh => rw [fresh] at phase; cases phase
          -- the event in question is the first that was queued and the last that was read
          | begun read _ split waits =>
              refine .begun (read ++ [event]) rfl (by rw [split, next]; simp) ?_
              rw [behaviour.serve_append _ _ _ _ _ _ waits]
              simp only [Behaviour.feed, ← answered]
  | finalized => cases alive
  | failed => cases alive
  | aborted begun stop => cases stop

theorem turn_frame {behaviour : Behaviour σ} {isAborted : Bool} {worker after : Worker σ}
    {told : Option UInt32} {facts : List HistoryFact} (going : worker.outcome = none)
    (turn : Turn behaviour isAborted worker after told facts) :
    after.lifecycle.vertex = worker.lifecycle.vertex ∧ after.downstream = worker.downstream ∧
      ∀ tasks, told = some tasks ↔
        ∃ decision, after.outcome = some (.finalized decision) ∧
          decision.parallelism = tasks := by
  cases turn with
  | pending => simp [going]
  | finalized => simp [ended]
  | failed => simp [ended]
  | aborted => simp [ended]

theorem turn_silent {behaviour : Behaviour σ} {isAborted : Bool} {worker after : Worker σ}
    {told : Option UInt32} {facts : List HistoryFact} (going : worker.outcome = none)
    (turn : Turn behaviour isAborted worker after told facts) (alive : after.outcome = none) :
    told = none := by
  cases result : told with
  | none => rfl
  | some tasks =>
      obtain ⟨decision, ended, _⟩ := ((turn_frame going turn).2.2 tasks).mp result
      rw [alive] at ended
      cases ended

def Log.afterTurn (log : Log) (worker : Worker σ) : Option UInt32 → Log
  | none => log
  | some tasks => log.add (.sourceConfigured worker.lifecycle.vertex tasks) worker.downstream

theorem Log.mem_afterTurn (log : Log) (worker : Worker σ) (told : Option UInt32) (index : Nat)
    (event : ManagerEvent) :
    event ∈ log.afterTurn worker told index ↔
      event ∈ log index ∨ ∃ tasks, told = some tasks ∧ index ∈ worker.downstream ∧
        event = .sourceConfigured worker.lifecycle.vertex tasks := by
  cases told <;> simp [afterTurn, mem_add]

theorem start_logged (behaviour : Behaviour σ) (origin : List (Worker σ))
    (fresh : ∀ worker ∈ origin, worker.queue = [] ∧ worker.outcome = none ∧
      worker.lifecycle.phase = .uninitialized) :
    Logged behaviour origin origin fun _ => [] where
  kept := by
    intro index first found
    obtain ⟨queue, _, phase⟩ := fresh first (List.mem_of_getElem? found)
    exact ⟨first, found, rfl, rfl, fun _ => .fresh phase queue rfl rfl⟩
  stays := rfl
  heard := by
    intro index worker decision found ended
    rw [(fresh worker (List.mem_of_getElem? found)).2.1] at ended
    cases ended
  honest := by simp

section Steps

variable {behaviour : Behaviour σ} {origin workers : List (Worker σ)} {log : Log}
  (logged : Logged behaviour origin workers log)

include logged

theorem Logged.tell (event : ManagerEvent) (indices : List Nat)
    (other : ∀ source tasks, event ≠ .sourceConfigured source tasks) :
    Logged behaviour origin (tell event indices workers) (log.add event indices) where
  kept := by
    intro index first found
    obtain ⟨worker, place, vertex, downstream, replayed⟩ := logged.kept index first found
    obtain ⟨lifecycle, feeds, outcome⟩ :=
      hear_frame (List.replicate (indices.count index) event) worker
    refine ⟨_, by rw [tell_getElem?, place]; rfl, by rw [lifecycle, vertex],
      by rw [feeds, downstream], fun going => ?_⟩
    rw [outcome] at going
    exact (replayed going).hear going _
  stays := by rw [tell_length, logged.stays]
  heard := by
    intro index worker decision found ended listener listed
    rw [tell_getElem?, Option.map_eq_some_iff] at found
    obtain ⟨old, place, rfl⟩ := found
    obtain ⟨lifecycle, feeds, outcome⟩ :=
      hear_frame (List.replicate (indices.count index) event) old
    rw [outcome] at ended
    rw [feeds] at listed
    rw [lifecycle]
    exact log.subset_add event indices listener
      (logged.heard index old decision place ended listener listed)
  honest := by
    intro listener source tasks told
    rcases (log.mem_add _ _ _ _).mp told with old | ⟨_, same⟩
    · obtain ⟨index, worker, decision, place, vertex, ended, decided⟩ :=
        logged.honest listener source tasks old
      obtain ⟨lifecycle, _, outcome⟩ :=
        hear_frame (List.replicate (indices.count index) event) worker
      exact ⟨index, _, decision, by rw [tell_getElem?, place]; rfl, by rw [lifecycle, vertex],
        by rw [outcome, ended], decided⟩
    · exact absurd same.symm (other source tasks)

theorem Logged.turn {index : Nat} {worker after : Worker σ} {told : Option UInt32}
    {facts : List HistoryFact} (place : workers[index]? = some worker)
    (going : worker.outcome = none) (turn : Turn behaviour false worker after told facts) :
    Logged behaviour origin (afterTurn workers index worker after told)
      (log.afterTurn worker told) := by
  obtain ⟨vertex, downstream, decided⟩ := turn_frame going turn
  -- the worker whose turn it was, and any other one
  have here : (afterTurn workers index worker after told)[index]? = some after := by
    rw [afterTurn_getElem? _ _ _ _ _ _ place, if_pos rfl]
  have there : ∀ other old, other ≠ index → workers[other]? = some old →
      ∃ events, (afterTurn workers index worker after told)[other]? = some (hear events old) ∧
        log.afterTurn worker told other = log other ++ events := by
    intro other old apart stored
    refine ⟨_, by rw [afterTurn_getElem? _ _ _ _ _ _ place, if_neg apart, stored]; rfl, ?_⟩
    cases told <;> simp [Log.afterTurn, Log.add]
  have back : ∀ other now, (afterTurn workers index worker after told)[other]? = some now →
      other ≠ index → ∃ old events, workers[other]? = some old ∧ now = hear events old := by
    intro other now found apart
    rw [afterTurn_getElem? _ _ _ _ _ _ place, if_neg apart, Option.map_eq_some_iff] at found
    obtain ⟨old, stored, rfl⟩ := found
    exact ⟨old, _, stored, rfl⟩
  refine ⟨?_, ?_, ?_, ?_⟩
  · intro other first found
    obtain ⟨old, stored, name, feeds, replayed⟩ := logged.kept other first found
    by_cases same : other = index
    · subst same
      obtain rfl : old = worker := Option.some.inj (stored.symm.trans place)
      refine ⟨after, here, vertex.trans name, downstream.trans feeds, fun alive => ?_⟩
      obtain rfl : told = none := turn_silent going turn alive
      exact (replayed going).turn turn alive
    · obtain ⟨events, now, logs⟩ := there other old same stored
      obtain ⟨lifecycle, downs, outcome⟩ := hear_frame events old
      refine ⟨_, now, by rw [lifecycle, name], by rw [downs, feeds], fun alive => ?_⟩
      rw [outcome] at alive
      rw [logs]
      exact (replayed alive).hear alive events
  · rw [← logged.stays]
    cases told <;> simp [Scheduler.afterTurn, tell_length]
  · intro other now decision found ended listener listed
    rw [log.mem_afterTurn]
    by_cases same : other = index
    · subst same
      obtain rfl : after = now := Option.some.inj (here.symm.trans found)
      exact .inr ⟨decision.parallelism, (decided _).mpr ⟨decision, ended, rfl⟩,
        downstream ▸ listed, by rw [vertex]⟩
    · obtain ⟨old, events, stored, rfl⟩ := back other now found same
      obtain ⟨lifecycle, downs, outcome⟩ := hear_frame events old
      rw [outcome] at ended
      rw [downs] at listed
      rw [lifecycle]
      exact .inl (logged.heard other old decision stored ended listener listed)
  · intro listener source tasks member
    rcases (log.mem_afterTurn _ _ _ _).mp member with old | ⟨count, settled, _, same⟩
    -- whoever told so had ended before, so this turn was not its own
    · obtain ⟨other, earlier, decision, stored, name, ended, count⟩ :=
        logged.honest listener source tasks old
      have apart : other ≠ index := by
        rintro rfl
        obtain rfl : earlier = worker := Option.some.inj (stored.symm.trans place)
        rw [going] at ended
        cases ended
      obtain ⟨events, now, _⟩ := there other earlier apart stored
      obtain ⟨lifecycle, _, outcome⟩ := hear_frame events earlier
      exact ⟨other, _, decision, now, by rw [lifecycle, name], by rw [outcome, ended], count⟩
    · obtain ⟨rfl, rfl⟩ := ManagerEvent.sourceConfigured.inj same
      obtain ⟨decision, ended, count⟩ := (decided _).mp settled
      exact ⟨index, after, decision, here, vertex, ended, count⟩

end Steps

def Action.isReport : Action → Bool
  | .send _ _ => false
  | .abort _ => false
  | .taskCompleted _ _ _ | .complete _ _ | .deliverNext _ | .work _ => true

def listenersOf (scheduler : Scheduler σ ι) (source : String) : List Nat :=
  listeners scheduler.handles
    (((scheduler.handles.get? source).map (·.downstream)).getD [])

def Streamed (log : Log) (task : InitializerTask ι) : Prop :=
  ∀ rest, task.stream = some rest → ∃ outcome,
    (∀ event ∈ rest, event ∈ toManagerEvents task.context.input outcome) ∧
    ∀ event ∈ toManagerEvents task.context.input outcome,
      event ∈ rest ∨ event ∈ log task.worker

/-- A state of a run in which clients only report, against the state that it started from. -/
structure Tracked (behaviour : Behaviour σ) (origin : Scheduler σ ι) (past : List Action)
    (log : Log) (scheduler : Scheduler σ ι) : Prop where
  sound : scheduler.Sound
  running : scheduler.isAborted = false
  handles : scheduler.handles = origin.handles
  workers : Logged behaviour origin.workers scheduler.workers log
  reported : ∀ source task size, .taskCompleted source task size ∈ past →
    ∀ listener ∈ origin.listenersOf source, .taskCompleted source task size ∈ log listener
  initializers : ∀ (index : Nat) (old : InitializerTask ι), origin.tasks[index]? = some old →
    ∃ task, scheduler.tasks[index]? = some task ∧ task.worker = old.worker ∧
      task.context = old.context
  streamed : ∀ task ∈ scheduler.tasks, Streamed log task

theorem Streamed.grow {early late : Log} {task : InitializerTask ι} (streamed : Streamed early task)
    (grown : ∀ index, early index ⊆ late index) : Streamed late task := by
  intro rest same
  obtain ⟨outcome, own, all⟩ := streamed rest same
  exact ⟨outcome, own, fun event listed => (all event listed).imp id fun told => grown _ told⟩

theorem Streamed.complete {log : Log} {task : InitializerTask ι} (streamed : Streamed log task)
    (outcome : InitializerOutcome) : Streamed log (completeTask outcome task) := by
  unfold completeTask
  split
  · exact streamed
  · intro rest same
    cases same
    exact ⟨outcome, fun _ listed => listed, fun _ listed => .inl listed⟩

theorem Streamed.take {log : Log} {task : InitializerTask ι} (streamed : Streamed log task)
    (event : ManagerEvent) (rest : List ManagerEvent) (next : task.stream = some (event :: rest)) :
    Streamed (log.add event [task.worker]) (takeEvent task) := by
  intro left same
  obtain ⟨outcome, own, all⟩ := streamed _ next
  obtain rfl : rest = left := by simpa [takeEvent, next] using same
  refine ⟨outcome, fun other listed => own other (List.mem_cons_of_mem _ listed), ?_⟩
  intro other listed
  rw [show (takeEvent task).worker = task.worker from rfl, log.mem_add]
  rcases all other listed with waiting | told
  · rcases List.mem_cons.mp waiting with same | later
    · exact .inr (.inr ⟨List.mem_singleton_self _, same⟩)
    · exact .inl later
  · exact .inr (.inl told)

theorem nextDelivery_some (scheduler : Scheduler σ ι) (index worker : Nat) (event : ManagerEvent)
    (next : scheduler.nextDelivery index = some (worker, event)) :
    ∃ task, scheduler.tasks[index]? = some task ∧ ∃ rest, task.stream = some (event :: rest) ∧
      task.worker = worker := by
  unfold nextDelivery at next
  split at next
  · cases next
  · rename_i task found
    split at next
    · rename_i first rest stream
      cases next
      exact ⟨task, found, rest, stream, rfl⟩
    · cases next

theorem mem_modify {α : Type} (items : List α) (index : Nat) (change : α → α) (item : α)
    (member : item ∈ items.modify index change) :
    item ∈ items ∨ ∃ old, items[index]? = some old ∧ item = change old := by
  obtain ⟨other, found⟩ := List.mem_iff_getElem?.mp member
  rw [List.getElem?_modify] at found
  by_cases here : index = other
  · subst here
    obtain ⟨old, stored, rfl⟩ := Option.map_eq_some_iff.mp found
    exact .inr ⟨old, stored, by simp⟩
  · exact .inl (List.mem_of_getElem? (by simpa [here] using found))

theorem modify_task (tasks : List (InitializerTask ι)) (index : Nat)
    (change : InitializerTask ι → InitializerTask ι)
    (frame : ∀ task, (change task).worker = task.worker ∧ (change task).context = task.context)
    (other : Nat) (task : InitializerTask ι) (found : tasks[other]? = some task) :
    ∃ after, (tasks.modify index change)[other]? = some after ∧
      after.worker = task.worker ∧ after.context = task.context := by
  rw [List.getElem?_modify, found]
  by_cases here : index = other
  · exact ⟨change task, by simp [here], frame task⟩
  · exact ⟨task, by simp [here], rfl, rfl⟩

theorem tasks_stay (tasks : List (InitializerTask ι)) (index : Nat) (task : InitializerTask ι)
    (found : tasks[index]? = some task) :
    ∃ after, tasks[index]? = some after ∧ after.worker = task.worker ∧
      after.context = task.context :=
  ⟨task, found, rfl, rfl⟩

section Run

variable {behaviour : Behaviour σ} {origin scheduler : Scheduler σ ι} {past : List Action}
  {log : Log} (tracked : Tracked behaviour origin past log scheduler)

include tracked

/-- What has to be seen of one step; the rest only grows. -/
theorem Tracked.extend (action : Action) (next : Scheduler σ ι) (later : Log)
    (shape : scheduler.perform behaviour action = next)
    (grown : ∀ index, log index ⊆ later index) (running : next.isAborted = false)
    (handles : next.handles = scheduler.handles)
    (workers : Logged behaviour origin.workers next.workers later)
    (reported : ∀ source task size, action = .taskCompleted source task size →
      ∀ listener ∈ origin.listenersOf source,
        .taskCompleted source task size ∈ later listener)
    (initializers : ∀ (index : Nat) (task : InitializerTask ι),
      scheduler.tasks[index]? = some task → ∃ after, next.tasks[index]? = some after ∧
        after.worker = task.worker ∧ after.context = task.context)
    (streamed : ∀ task ∈ next.tasks, Streamed later task) :
    Tracked behaviour origin (past ++ [action]) later (scheduler.perform behaviour action) := by
  subst shape
  refine
    { sound := perform_sound behaviour scheduler action tracked.sound
      running := running
      handles := handles.trans tracked.handles
      workers := workers
      reported := fun source task size member listener listed => ?_
      initializers := fun index old found => ?_
      streamed := streamed }
  · rcases List.mem_append.mp member with old | new
    · exact grown listener (tracked.reported source task size old listener listed)
    · exact reported source task size (List.mem_singleton.mp new).symm listener listed
  · obtain ⟨task, stored, worker, context⟩ := tracked.initializers index old found
    obtain ⟨after, kept, same, equal⟩ := initializers index task stored
    exact ⟨after, kept, same.trans worker, equal.trans context⟩

theorem Tracked.unchanged (action : Action)
    (shape : scheduler.perform behaviour action = scheduler)
    (silent : ∀ source task size, action ≠ .taskCompleted source task size) :
    ∃ later, Tracked behaviour origin (past ++ [action]) later
      (scheduler.perform behaviour action) :=
  ⟨log, tracked.extend _ _ _ shape (fun _ => List.Subset.refl _) tracked.running rfl
    tracked.workers (fun source task size equal => absurd equal (silent source task size))
    (tasks_stay _) tracked.streamed⟩

theorem Tracked.taskCompleted (source : String) (task : UInt32) (size : UInt64) :
    ∃ later, Tracked behaviour origin (past ++ [.taskCompleted source task size]) later
      (scheduler.perform behaviour (.taskCompleted source task size)) := by
  have listens : scheduler.listenersOf source = origin.listenersOf source := by
    simp only [listenersOf, tracked.handles]
  have shape : scheduler.perform behaviour (.taskCompleted source task size) =
      { scheduler with
        workers := tell (.taskCompleted source task size) (origin.listenersOf source)
          scheduler.workers } :=
    listens ▸ taskCompleted_eq scheduler source task size tracked.sound
  refine ⟨_, tracked.extend _ _ _ shape (log.subset_add _ _) tracked.running rfl
    (tracked.workers.tell _ (origin.listenersOf source) (by simp)) ?_ (tasks_stay _)
    fun task listed => (tracked.streamed task listed).grow (log.subset_add _ _)⟩
  intro other index bytes equal listener listed
  cases equal
  exact (log.mem_add _ _ _ _).mpr (.inr ⟨listed, rfl⟩)

theorem Tracked.complete (index : Nat) (outcome : InitializerOutcome) :
    ∃ later, Tracked behaviour origin (past ++ [.complete index outcome]) later
      (scheduler.perform behaviour (.complete index outcome)) := by
  have shape : scheduler.perform behaviour (.complete index outcome) =
      { scheduler with tasks := scheduler.tasks.modify index (completeTask outcome) } :=
    complete_eq scheduler index outcome
  refine ⟨log, tracked.extend _ _ _ shape (fun _ => List.Subset.refl _) tracked.running rfl
    tracked.workers (by simp) (modify_task _ index _ fun task => ?_) fun task listed => ?_⟩
  · unfold completeTask
    split <;> exact ⟨rfl, rfl⟩
  · rcases mem_modify _ _ _ _ listed with old | ⟨old, found, rfl⟩
    · exact tracked.streamed task old
    · exact (tracked.streamed old (List.mem_of_getElem? found)).complete outcome

theorem Tracked.deliverNext (index : Nat) :
    ∃ later, Tracked behaviour origin (past ++ [.deliverNext index]) later
      (scheduler.perform behaviour (.deliverNext index)) := by
  have shape := deliverNext_eq scheduler index
  change scheduler.perform behaviour (.deliverNext index) = _ at shape
  cases next : scheduler.nextDelivery index with
  | none =>
      rw [next] at shape
      exact tracked.unchanged _ shape (by simp)
  | some delivery =>
      obtain ⟨worker, event⟩ := delivery
      rw [next] at shape
      obtain ⟨task, found, rest, stream, rfl⟩ := nextDelivery_some scheduler index worker event next
      have streamed := tracked.streamed task (List.mem_of_getElem? found)
      refine ⟨log.add event [task.worker], tracked.extend _ _ _ shape (log.subset_add _ _)
        tracked.running rfl (tracked.workers.tell _ _ ?_) (by simp)
        (modify_task _ index _ fun task => ⟨rfl, rfl⟩) fun other listed => ?_⟩
      -- no initializer speaks of the parallelism of a source
      · obtain ⟨outcome, own, _⟩ := streamed _ stream
        have about := toManagerEvents_input _ _ event (own event List.mem_cons_self)
        rintro source tasks rfl
        cases about
      · rcases mem_modify _ _ _ _ listed with old | ⟨old, stored, rfl⟩
        · exact (tracked.streamed other old).grow (log.subset_add _ _)
        · obtain rfl : task = old := Option.some.inj (found.symm.trans stored)
          exact streamed.take event rest stream

theorem Tracked.work (index : Nat) :
    ∃ later, Tracked behaviour origin (past ++ [.work index]) later
      (scheduler.perform behaviour (.work index)) := by
  cases found : scheduler.workers[index]? with
  | none =>
      exact tracked.unchanged _ (by simp [Scheduler.perform, Scheduler.work, found]) (by simp)
  | some worker =>
      rcases work_turn behaviour scheduler index worker found
        (tracked.sound worker (List.mem_of_getElem? found)) with
        idle | ⟨going, after, told, facts, turn, shape⟩
      · exact tracked.unchanged _ idle (by simp)
      · change scheduler.perform behaviour (.work index) = _ at shape
        rw [tracked.running] at turn
        -- what the worker tells is new in the logs of those downstream of it
        have grown : ∀ listener, log listener ⊆ log.afterTurn worker told listener :=
          fun listener event member => (log.mem_afterTurn _ _ _ _).mpr (.inl member)
        exact ⟨_, tracked.extend _ _ _ shape grown tracked.running rfl
          (tracked.workers.turn found going turn) (by simp) (tasks_stay _)
          fun task listed => (tracked.streamed task listed).grow grown⟩

/-- Every step of a run in which clients only report keeps track of what was told. -/
theorem Tracked.perform (action : Action) (quiet : action.isReport = true) :
    ∃ later, Tracked behaviour origin (past ++ [action]) later
      (scheduler.perform behaviour action) := by
  cases action with
  | send vertex event => cases quiet
  | abort reason => cases quiet
  | taskCompleted source task size => exact tracked.taskCompleted source task size
  | complete index outcome => exact tracked.complete index outcome
  | deliverNext index => exact tracked.deliverNext index
  | work index => exact tracked.work index

end Run

theorem run_tracked (behaviour : Behaviour σ) (origin : Scheduler σ ι) (actions past : List Action)
    (log : Log) (scheduler : Scheduler σ ι) (quiet : ∀ action ∈ actions, action.isReport = true)
    (tracked : Tracked behaviour origin past log scheduler) :
    ∃ later, Tracked behaviour origin (past ++ actions) later
      (run behaviour scheduler actions) := by
  induction actions generalizing past log scheduler with
  | nil => exact ⟨log, by simpa [run] using tracked⟩
  | cons action rest ih =>
      obtain ⟨later, next⟩ := tracked.perform action (quiet action List.mem_cons_self)
      have tail := ih (past ++ [action]) later _
        (fun other listed => quiet other (List.mem_cons_of_mem _ listed)) next
      simpa [run] using tail

end ElasticJob.Scheduler
