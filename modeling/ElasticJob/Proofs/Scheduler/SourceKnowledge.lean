import ElasticJob.Proofs.Graph.Assembly
import ElasticJob.Proofs.Scheduler.EventLog
import ElasticJob.Proofs.Scheduler.Submission

/-!
What a worker knows of the parallelism of its sources. A source that is final at submission stands
in the context from the start, any other is told by an event of its worker, and no source comes both
ways. So what the context holds and what is still queued are together one number at most, the right
one, and it is there as soon as the source is final.
-/

namespace ElasticJob

def ManagerEvent.tells? (source : String) : ManagerEvent → Option UInt32
  | .sourceConfigured other tasks => if other = source then some tasks else none
  | _ => none

theorem ManagerEvent.tells?_of_input {event : ManagerEvent} {input : String}
    (about : event.input? = some input) (source : String) : event.tells? source = none := by
  cases event <;> first | rfl | cases about

namespace Scheduler

variable {σ ι : Type}

def announced (source : String) (events : List ManagerEvent) : List UInt32 :=
  events.filterMap (·.tells? source)

/-- What a worker holds of a source, first in its context and then in its queue. -/
def knowledge (source : String) (worker : Worker σ) : List UInt32 :=
  (worker.context.sources.get? source).toList ++ announced source worker.queue

theorem announced_replicate_silent {source : String} {event : ManagerEvent}
    (silent : event.tells? source = none) (count : Nat) :
    announced source (List.replicate count event) = [] := by
  simp [announced, silent]

theorem announced_replicate_told (source vertex : String) (tasks : UInt32) (count : Nat) :
    announced source (List.replicate count (.sourceConfigured vertex tasks)) =
      if vertex = source then List.replicate count tasks else [] := by
  by_cases same : vertex = source <;>
    simp [announced, ManagerEvent.tells?, same]

theorem knowledge_hear (source : String) (events : List ManagerEvent) (worker : Worker σ)
    (going : worker.outcome = none) :
    knowledge source (hear events worker) = knowledge source worker ++ announced source events := by
  simp [knowledge, announced, hear, going]

theorem hear_context (events : List ManagerEvent) (worker : Worker σ) :
    (hear events worker).context = worker.context := by
  unfold hear
  split <;> rfl

theorem learn_sources (context : Context) (event : ManagerEvent) (source : String) :
    (learn context event).sources.get? source =
      (event.tells? source).or (context.sources.get? source) := by
  cases event with
  | sourceConfigured other tasks =>
      by_cases same : other = source
      · simp [learn, Context.setSource, ManagerEvent.tells?, same]
      · simp [learn, Context.setSource, ManagerEvent.tells?, same,
          SortedMap.get?_insert_ne _ _ (Ne.symm same)]
  | _ => rfl

section Turns

variable {behaviour : Behaviour σ} {isAborted : Bool} {worker after : Worker σ}

theorem Asked.knowledge {context : Context} {rest : List ManagerEvent} {facts : List HistoryFact}
    {answer : σ × Except ManagerError Decision}
    (asked : Asked behaviour isAborted worker context rest facts answer) (source : String)
    (single : (knowledge source worker).length ≤ 1) :
    (context.sources.get? source).toList ++ announced source rest =
      Scheduler.knowledge source worker := by
  cases asked with
  | start => rfl
  | event event rest begun going next =>
      rw [learn_sources]
      unfold Scheduler.knowledge at single ⊢
      rw [next] at single ⊢
      cases told : event.tells? source with
      | none => simp [announced, told]
      | some tasks =>
          simp only [announced, List.filterMap_cons, told] at single ⊢
          cases held : worker.context.sources.get? source with
          | none => simp
          | some before => simp [held] at single

theorem turn_context {told : Option UInt32} {facts : List HistoryFact}
    (turn : Turn behaviour isAborted worker after told facts) (source : String)
    (single : (knowledge source worker).length ≤ 1) :
    (∀ tasks, after.context.sources.get? source = some tasks → tasks ∈ knowledge source worker) ∧
      (after.outcome = none → worker.outcome = none →
        knowledge source after = knowledge source worker) := by
  have learned : ∀ {context rest facts answer},
      Asked behaviour isAborted worker context rest facts answer → ∀ tasks,
        context.sources.get? source = some tasks → tasks ∈ knowledge source worker := by
    intro context rest facts answer asked tasks held
    rw [← asked.knowledge source single, held]
    exact List.mem_append_left _ (List.mem_singleton_self tasks)
  cases turn with
  | pending context rest facts manager asked =>
      exact ⟨learned asked, fun _ _ => asked.knowledge source single⟩
  | finalized context rest facts manager decision asked =>
      exact ⟨learned asked, fun alive => by cases alive⟩
  | failed context rest facts manager error asked =>
      exact ⟨learned asked, fun alive => by cases alive⟩
  | aborted begun stop =>
      refine ⟨fun tasks held => ?_, fun alive => by cases alive⟩
      have kept : worker.context.sources.get? source = some tasks := held
      simp [knowledge, kept]

end Turns

def Mute (scheduler : Scheduler σ ι) : Prop :=
  ∀ task ∈ scheduler.tasks, ∀ events, task.stream = some events →
    ∀ event ∈ events, ∀ source, event.tells? source = none

theorem perform_mute (behaviour : Behaviour σ) (scheduler : Scheduler σ ι) (action : Action)
    (sound : scheduler.Sound) (mute : scheduler.Mute) :
    (scheduler.perform behaviour action).Mute := by
  cases action with
  | send vertex event => rwa [perform, send_eq scheduler vertex event sound]
  | taskCompleted source task size =>
      rwa [perform, taskCompleted_eq scheduler source task size sound]
  | abort reason =>
      rw [perform, abort]
      split <;> exact mute
  | complete index outcome =>
      rw [perform, complete_eq]
      intro task member
      rcases mem_modify _ _ _ _ member with old | ⟨old, found, rfl⟩
      · exact mute task old
      · unfold completeTask
        split
        · exact mute old (List.mem_of_getElem? found)
        · intro events same event listed source
          cases same
          exact ManagerEvent.tells?_of_input
            (toManagerEvents_input _ _ event listed) source
  | deliverNext index =>
      rw [perform, deliverNext_eq]
      split
      · intro task member
        rcases mem_modify _ _ _ _ member with old | ⟨old, found, rfl⟩
        · exact mute task old
        · intro events same event listed
          obtain ⟨whole, stream, rfl⟩ := Option.map_eq_some_iff.mp same
          exact mute old (List.mem_of_getElem? found) whole stream event
            (List.mem_of_mem_tail listed)
      · exact mute
  | work index =>
      obtain ⟨_, _, tasks, _⟩ := work_frame behaviour scheduler index sound
      exact fun task listed => mute task (tasks ▸ listed)

/-- A client that does not speak for sources. -/
def Action.Unassuming (action : Action) : Prop :=
  ∀ vertex source tasks, action ≠ .send vertex (.sourceConfigured source tasks)

theorem Brings.silent {scheduler : Scheduler σ ι} {action : Action} {event : ManagerEvent}
    (brings : Brings scheduler action event) (mute : scheduler.Mute)
    (unassuming : action.Unassuming) (source : String) : event.tells? source = none := by
  cases brings with
  | send vertex event =>
      cases event with
      | sourceConfigured other tasks => exact absurd rfl (unassuming vertex other tasks)
      | _ => rfl
  | taskCompleted => rfl
  | deliverNext index worker event next =>
      obtain ⟨task, found, rest, stream, _⟩ := nextDelivery_some scheduler index worker event next
      exact mute task (List.mem_of_getElem? found) _ stream event List.mem_cons_self source

structure Staffed (plan : Plan) (scheduler : Scheduler σ ι) : Prop where
  found : ∀ (index : Nat) (worker : Worker σ), scheduler.workers[index]? = some worker →
    scheduler.placeOf? worker.lifecycle.vertex = some index
  named : ∀ vertex ∈ plan.vertices, ∀ index, scheduler.placeOf? vertex.name = some index →
    ∃ worker, scheduler.workers[index]? = some worker ∧ worker.lifecycle.vertex = vertex.name
  feeds : ∀ (index other : Nat) (worker listener : Worker σ),
    scheduler.workers[index]? = some worker → scheduler.workers[other]? = some listener →
      worker.downstream.count other =
        if listener.lifecycle.vertex ∈ plan.destinationsOf worker.lifecycle.vertex then 1 else 0

theorem perform_placeOf? (behaviour : Behaviour σ) (scheduler : Scheduler σ ι) (action : Action)
    (sound : scheduler.Sound) (vertex : String) :
    (scheduler.perform behaviour action).placeOf? vertex = scheduler.placeOf? vertex := by
  rw [placeOf?, (perform_frame behaviour scheduler action sound).2]
  rfl

theorem perform_same (behaviour : Behaviour σ) (scheduler : Scheduler σ ι) (action : Action)
    (sound : scheduler.Sound) (index : Nat) :
    (∀ worker, scheduler.workers[index]? = some worker →
      ∃ after, (scheduler.perform behaviour action).workers[index]? = some after ∧
        after.lifecycle.vertex = worker.lifecycle.vertex ∧
        after.downstream = worker.downstream) ∧
      ∀ after, (scheduler.perform behaviour action).workers[index]? = some after →
        ∃ worker, scheduler.workers[index]? = some worker ∧
          after.lifecycle.vertex = worker.lifecycle.vertex ∧
          after.downstream = worker.downstream := by
  have onward : ∀ worker, scheduler.workers[index]? = some worker →
      ∃ after, (scheduler.perform behaviour action).workers[index]? = some after ∧
        after.lifecycle.vertex = worker.lifecycle.vertex ∧
        after.downstream = worker.downstream := by
    intro worker found
    refine perform_keeps behaviour (fun after => after.lifecycle.vertex = worker.lifecycle.vertex ∧
      after.downstream = worker.downstream) scheduler action sound ?_ ?_ index worker found
      ⟨rfl, rfl⟩
    · rintro events current ⟨vertex, downstream⟩
      obtain ⟨lifecycle, listeners, _⟩ := hear_frame events current
      exact ⟨by rw [lifecycle, vertex], listeners.trans downstream⟩
    · rintro current after told facts going turn ⟨vertex, downstream⟩
      obtain ⟨name, listeners, _⟩ := turn_frame going turn
      exact ⟨name.trans vertex, listeners.trans downstream⟩
  refine ⟨onward, fun after found => ?_⟩
  have inside := (List.getElem?_eq_some_iff.mp found).1
  rw [perform_length behaviour scheduler action sound] at inside
  obtain ⟨same, place, kept⟩ := onward _ (List.getElem?_eq_getElem inside)
  obtain rfl : after = same := Option.some.inj (found.symm.trans place)
  exact ⟨_, List.getElem?_eq_getElem inside, kept⟩

theorem Staffed.perform {plan : Plan} {scheduler : Scheduler σ ι} (staffed : Staffed plan scheduler)
    (behaviour : Behaviour σ) (action : Action) (sound : scheduler.Sound) :
    Staffed plan (scheduler.perform behaviour action) where
  found := by
    intro index after here
    obtain ⟨worker, found, vertex, _⟩ :=
      (perform_same behaviour scheduler action sound index).2 after here
    rw [perform_placeOf? behaviour scheduler action sound, vertex]
    exact staffed.found index worker found
  named := by
    intro vertex member index place
    rw [perform_placeOf? behaviour scheduler action sound] at place
    obtain ⟨worker, found, name⟩ := staffed.named vertex member index place
    obtain ⟨after, here, same, _⟩ :=
      (perform_same behaviour scheduler action sound index).1 worker found
    exact ⟨after, here, same.trans name⟩
  feeds := by
    intro index other after listener here there
    obtain ⟨worker, found, vertex, downstream⟩ :=
      (perform_same behaviour scheduler action sound index).2 after here
    obtain ⟨hearer, place, name, _⟩ :=
      (perform_same behaviour scheduler action sound other).2 listener there
    rw [vertex, downstream, name]
    exact staffed.feeds index other worker hearer found place

/-- The parallelism that a vertex is to know of a source by now: none unless it is fed by it. -/
def due? (plan : Plan) (scheduler : Scheduler σ ι) (source vertex : String) : Option UInt32 :=
  if vertex ∈ plan.destinationsOf source then scheduler.resolvedParallelism? source else none

theorem due?_eq_some_iff {plan : Plan} {scheduler : Scheduler σ ι} {source vertex : String}
    {tasks : UInt32} : scheduler.due? plan source vertex = some tasks ↔
      vertex ∈ plan.destinationsOf source ∧
        scheduler.resolvedParallelism? source = some tasks := by
  unfold due?
  split <;> simp [*]

theorem due?_length (plan : Plan) (scheduler : Scheduler σ ι) (source vertex : String) :
    (scheduler.due? plan source vertex).toList.length ≤ 1 := by
  cases scheduler.due? plan source vertex <;> simp

structure Informed (plan : Plan) (scheduler : Scheduler σ ι) : Prop where
  hears : ∀ (index : Nat) (worker : Worker σ), scheduler.workers[index]? = some worker →
    worker.outcome = none → ∀ source ∈ plan.vertices.map (·.name),
      knowledge source worker = (scheduler.due? plan source worker.lifecycle.vertex).toList
  knows : ∀ (index : Nat) (worker : Worker σ), scheduler.workers[index]? = some worker →
    ∀ source ∈ plan.vertices.map (·.name), ∀ tasks,
      worker.context.sources.get? source = some tasks →
        scheduler.resolvedParallelism? source = some tasks

section Steps

variable {plan : Plan} {scheduler next : Scheduler σ ι}
  (handles : next.handles = scheduler.handles)

include handles

theorem outcome?_same {vertex : String} (same : ∀ index, scheduler.placeOf? vertex = some index →
      (next.workers[index]?).bind (·.outcome) = (scheduler.workers[index]?).bind (·.outcome)) :
    next.outcome? vertex = scheduler.outcome? vertex := by
  unfold outcome?
  rw [handles]
  rcases stored : scheduler.handles.get? vertex with _ | ⟨_ | index, downstream⟩
  · rfl
  · rfl
  · exact same index ((placeOf?_eq_some_iff _ _ _).mpr ⟨downstream, stored⟩)

theorem outcome?_tell {event : ManagerEvent} {indices : List Nat}
    (workers : next.workers = tell event indices scheduler.workers) (vertex : String) :
    next.outcome? vertex = scheduler.outcome? vertex := by
  refine outcome?_same handles fun index _ => ?_
  rw [workers, tell_getElem?, Option.bind_map]
  exact congrArg _ (funext fun worker => (hear_frame _ worker).2.2)

theorem Informed.tell (informed : Informed plan scheduler) {event : ManagerEvent}
    {indices : List Nat} (workers : next.workers = tell event indices scheduler.workers)
    (silent : ∀ source, event.tells? source = none) : Informed plan next := by
  have resolved : ∀ source,
      next.resolvedParallelism? source = scheduler.resolvedParallelism? source := by
    intro source
    rw [resolvedParallelism?, outcome?_tell handles workers]
    rfl
  have before : ∀ (index : Nat) (after : Worker σ), next.workers[index]? = some after →
      ∃ worker, scheduler.workers[index]? = some worker ∧
        after = hear (List.replicate (indices.count index) event) worker := by
    intro index after found
    rw [workers, tell_getElem?] at found
    obtain ⟨worker, stored, rfl⟩ := Option.map_eq_some_iff.mp found
    exact ⟨worker, stored, rfl⟩
  constructor
  · intro index after found alive source known
    obtain ⟨worker, stored, rfl⟩ := before index after found
    obtain ⟨lifecycle, _, outcome⟩ := hear_frame (List.replicate (indices.count index) event) worker
    rw [outcome] at alive
    rw [knowledge_hear _ _ _ alive, announced_replicate_silent (silent source), List.append_nil,
      informed.hears index worker stored alive source known, due?, due?, resolved, lifecycle]
  · intro index after found source known tasks held
    obtain ⟨worker, stored, rfl⟩ := before index after found
    rw [hear_context] at held
    rw [resolved]
    exact informed.knows index worker stored source known tasks held

section Turning

variable (staffed : Staffed plan scheduler) {behaviour : Behaviour σ} {isAborted : Bool}
  {index : Nat} {worker after : Worker σ} {told : Option UInt32} {facts : List HistoryFact}
  (place : scheduler.workers[index]? = some worker) (going : worker.outcome = none)
  (taken : Turn behaviour isAborted worker after told facts)
  (workers : next.workers = afterTurn scheduler.workers index worker after told)

include staffed place going

omit handles in
theorem resolved_before : scheduler.resolvedParallelism? worker.lifecycle.vertex = none := by
  rw [resolvedParallelism?, (worker_shown (staffed.found index worker place) place).2, going]

include taken workers

theorem resolved_turn (source : String) (known : source ∈ plan.vertices.map (·.name)) :
    next.resolvedParallelism? source =
      if source = worker.lifecycle.vertex then told else scheduler.resolvedParallelism? source := by
  have there := afterTurn_getElem? scheduler.workers index index worker after told place
  rw [if_pos rfl, ← workers] at there
  have placed : ∀ vertex, next.placeOf? vertex = scheduler.placeOf? vertex := by
    intro vertex
    rw [placeOf?, handles]
    rfl
  split
  · rename_i same
    have shown := (worker_shown ((placed source).trans
      (same ▸ staffed.found index worker place)) there).2
    apply Option.ext
    intro tasks
    rw [resolvedParallelism?_eq_some_iff, shown]
    exact ((turn_frame going taken).2.2 tasks).symm
  · rename_i other
    have kept : next.outcome? source = scheduler.outcome? source := by
      refine outcome?_same handles fun position stored => ?_
      -- the worker at this place is that of the source, so it is another one
      have apart : position ≠ index := by
        rintro rfl
        obtain ⟨vertex, member, rfl⟩ := List.mem_map.mp known
        obtain ⟨own, found, name⟩ := staffed.named vertex member position stored
        obtain rfl : worker = own := Option.some.inj (place.symm.trans found)
        exact other name.symm
      rw [workers, afterTurn_getElem? _ _ _ _ _ _ place, if_neg apart, Option.bind_map]
      exact congrArg _ (funext fun listener => (hear_frame _ listener).2.2)
    rw [resolvedParallelism?, kept]
    rfl

theorem resolved_stands (source : String) (known : source ∈ plan.vertices.map (·.name))
    (tasks : UInt32) (resolved : scheduler.resolvedParallelism? source = some tasks) :
    next.resolvedParallelism? source = some tasks := by
  rw [resolved_turn handles staffed place going taken workers source known, if_neg, resolved]
  rintro rfl
  rw [resolved_before staffed place going] at resolved
  cases resolved

/-- What a worker is told with a turn of another one is what it is due to know from then on. -/
theorem announced_turn (other : Nat) (listener : Worker σ)
    (found : scheduler.workers[other]? = some listener) (source : String)
    (known : source ∈ plan.vertices.map (·.name)) :
    (scheduler.due? plan source listener.lifecycle.vertex).toList ++
        announced source (match told with
          | none => []
          | some tasks => List.replicate (worker.downstream.count other)
              (.sourceConfigured worker.lifecycle.vertex tasks)) =
      (next.due? plan source listener.lifecycle.vertex).toList := by
  unfold due?
  rw [resolved_turn handles staffed place going taken workers source known]
  by_cases own : source = worker.lifecycle.vertex
  · subst own
    rw [resolved_before staffed place going, if_pos rfl]
    cases told with
    | none => simp [announced]
    | some tasks =>
        rw [announced_replicate_told, if_pos rfl,
          staffed.feeds index other worker listener place found]
        split <;> rfl
  · rw [if_neg own]
    cases told with
    | none => simp [announced]
    | some tasks => rw [announced_replicate_told, if_neg (Ne.symm own), List.append_nil]

theorem Informed.turn (informed : Informed plan scheduler) : Informed plan next := by
  have single : ∀ source ∈ plan.vertices.map (·.name), (knowledge source worker).length ≤ 1 := by
    intro source known
    rw [informed.hears index worker place going source known]
    exact due?_length plan scheduler source _
  have stands := resolved_stands handles staffed place going taken workers
  constructor
  · intro other now found alive source known
    rw [workers, afterTurn_getElem? _ _ _ _ _ _ place] at found
    by_cases here : other = index
    · subst here
      obtain rfl : after = now := by simpa using found
      have vertex := (turn_frame going taken).1
      -- a worker that goes on told nothing, so nothing new is due to anyone
      obtain rfl : told = none := turn_silent going taken alive
      have kept : next.resolvedParallelism? source = scheduler.resolvedParallelism? source := by
        rw [resolved_turn handles staffed place going taken workers source known]
        split
        · rename_i own
          rw [own, resolved_before staffed place going]
        · rfl
      rw [(turn_context taken source (single source known)).2 alive going,
        informed.hears other worker place going source known, vertex, due?, due?, kept]
    · rw [if_neg here] at found
      obtain ⟨listener, stored, rfl⟩ := Option.map_eq_some_iff.mp found
      obtain ⟨lifecycle, _, outcome⟩ := hear_frame _ listener
      rw [outcome] at alive
      rw [knowledge_hear _ _ _ alive, informed.hears other listener stored alive source known,
        lifecycle]
      exact announced_turn handles staffed place going taken workers other listener stored source
        known
  · intro other now found source known tasks held
    rw [workers, afterTurn_getElem? _ _ _ _ _ _ place] at found
    by_cases here : other = index
    · subst here
      obtain rfl : after = now := by simpa using found
      have member := (turn_context taken source (single source known)).1 tasks held
      rw [informed.hears other worker place going source known, Option.mem_toList] at member
      exact stands source known tasks (due?_eq_some_iff.mp member).2
    · rw [if_neg here] at found
      obtain ⟨listener, stored, rfl⟩ := Option.map_eq_some_iff.mp found
      rw [hear_context] at held
      exact stands source known tasks (informed.knows other listener stored source known tasks held)

end Turning

end Steps

/-- One step keeps every worker informed, where clients do not speak for sources. -/
theorem Informed.perform {plan : Plan} {scheduler : Scheduler σ ι}
    (informed : Informed plan scheduler) (behaviour : Behaviour σ) (action : Action)
    (sound : scheduler.Sound) (staffed : Staffed plan scheduler) (mute : scheduler.Mute)
    (unassuming : action.Unassuming) : Informed plan (scheduler.perform behaviour action) := by
  have handles := (perform_frame behaviour scheduler action sound).2
  rcases perform_brings behaviour scheduler action sound with
    same | ⟨event, indices, brings, same⟩ | ⟨index, worker, after, told, facts, _, found, going,
      taken, same⟩
  · -- where no worker changes, nobody hears of whatever event
    have unheard : (scheduler.perform behaviour action).workers =
        Scheduler.tell (.inputInitialized "") [] scheduler.workers := same
    exact informed.tell handles unheard fun _ => rfl
  · exact informed.tell handles same (brings.silent mute unassuming)
  · exact informed.turn handles staffed found going taken same

theorem run_informed (plan : Plan) (behaviour : Behaviour σ) (actions : List Action)
    (scheduler : Scheduler σ ι) (unassuming : ∀ action ∈ actions, action.Unassuming)
    (sound : scheduler.Sound) (staffed : Staffed plan scheduler) (mute : scheduler.Mute)
    (informed : Informed plan scheduler) :
    Staffed plan (run behaviour scheduler actions) ∧
      Informed plan (run behaviour scheduler actions) := by
  induction actions generalizing scheduler with
  | nil => exact ⟨staffed, informed⟩
  | cons action rest ih =>
      exact ih _ (fun other listed => unassuming other (List.mem_cons_of_mem _ listed))
        (perform_sound behaviour scheduler action sound) (staffed.perform behaviour action sound)
        (perform_mute behaviour scheduler action sound mute)
        (informed.perform behaviour action sound staffed mute
          (unassuming action List.mem_cons_self))

section Start

variable {plan : Plan} {managers : Registry σ} {initializers : Registry ι}
  {managed : List String} {origin : Scheduler σ ι} (linked : plan.Linked)
  (started : Submission.Started plan managers initializers managed origin)

include started

theorem started_at {vertex : Vertex} (member : vertex ∈ plan.vertices) {index : Nat}
    (place : origin.placeOf? vertex.name = some index) :
    ∃ manager, origin.workers[index]? =
      some (Submission.freshWorker plan managed vertex manager) := by
  obtain ⟨downstream, here⟩ := (placeOf?_eq_some_iff _ _ _).mp place
  rcases started.standing member with ⟨_, tasks, _, handle⟩ | ⟨manager, position, _, handle, worker⟩
  · cases here.symm.trans handle
  · cases here.symm.trans handle
    exact ⟨manager, worker⟩

theorem started_worker (index : Nat) (worker : Worker σ)
    (found : origin.workers[index]? = some worker) :
    origin.placeOf? worker.lifecycle.vertex = some index ∧
      managed[index]? = some worker.lifecycle.vertex ∧ ∃ vertex ∈ plan.vertices, ∃ manager,
        vertex.name = worker.lifecycle.vertex ∧
        worker = Submission.freshWorker plan managed vertex manager := by
  obtain ⟨seen, fresh⟩ := started.fresh
  obtain ⟨_, downstream, handle⟩ := fresh.named index worker found
  have place := (placeOf?_eq_some_iff _ _ _).mpr ⟨downstream, handle⟩
  have listed : managed[index]? = some worker.lifecycle.vertex := by
    rw [← started.roster, List.getElem?_map, found]
    rfl
  refine ⟨place, listed, ?_⟩
  obtain ⟨vertex, member, name⟩ := List.mem_map.mp (started.known (List.mem_of_getElem? listed))
  obtain ⟨manager, there⟩ := started_at started member (name ▸ place)
  exact ⟨vertex, member, manager, name, Option.some.inj (found.symm.trans there)⟩

include linked

theorem started_staffed : Staffed plan origin where
  found := fun index worker found => (started_worker started index worker found).1
  named := by
    intro vertex member index place
    obtain ⟨manager, there⟩ := started_at started member place
    exact ⟨_, there, rfl⟩
  feeds := by
    intro index other worker listener found there
    obtain ⟨_, _, vertex, member, manager, name, fresh⟩ := started_worker started index worker found
    obtain ⟨_, listed, _⟩ := started_worker started other listener there
    have downstream : worker.downstream =
        (plan.destinationsOf vertex.name).filterMap (Submission.workerIndex? managed) := by
      rw [fresh]
      rfl
    have tells : (fun destination => Submission.workerIndex? managed destination == some other) =
        (· == listener.lifecycle.vertex) := by
      funext destination
      rw [Bool.eq_iff_iff, beq_iff_eq, beq_iff_eq]
      exact Submission.workerIndex?_eq_some_iff started.distinct other _ destination listed
    rw [downstream, ← name, List.count_filterMap, tells]
    change (plan.destinationsOf vertex.name).count _ = _
    split
    · rename_i fed
      exact List.count_eq_one_of_mem (linked.once vertex member) fed
    · rename_i unfed
      exact List.count_eq_zero.mpr unfed

theorem started_resolved (source : Vertex) (known : source ∈ plan.vertices) :
    origin.resolvedParallelism? source.name = Context.settledTasks? plan source.name := by
  have settled := linked.settledTasks?_eq_some_iff managers source known
  rcases started.standing known with ⟨alone, tasks, fixed, handle⟩ | ⟨manager, index, chosen, handle,
    there⟩
  · rw [(settled tasks).mpr ⟨alone, fixed⟩]
    exact (resolvedParallelism?_eq_some_iff _ _ _).mpr
      ⟨{ parallelism := tasks }, (outcome?_eq_some_iff _ _ _).mpr ⟨_, handle, rfl⟩, rfl⟩
  · have unsettled : Context.settledTasks? plan source.name = none := by
      apply Option.eq_none_iff_forall_ne_some.mpr
      intro tasks impossible
      cases chosen.symm.trans ((settled tasks).mp impossible).1
    have place := (placeOf?_eq_some_iff _ _ _).mpr ⟨_, handle⟩
    rw [unsettled, resolvedParallelism?, (worker_shown place there).2]
    rfl

theorem started_informed : Informed plan origin := by
  have hears : ∀ (index : Nat) (worker : Worker σ), origin.workers[index]? = some worker →
      ∀ source ∈ plan.vertices.map (·.name), worker.queue = [] ∧
        worker.context.sources.get? source =
          origin.due? plan source worker.lifecycle.vertex := by
    intro index worker found source known
    obtain ⟨seen, fresh⟩ := started.fresh
    obtain ⟨_, _, vertex, member, manager, name, same⟩ := started_worker started index worker found
    obtain ⟨feeding, stored, rfl⟩ := List.mem_map.mp known
    refine ⟨(fresh.workers worker (List.mem_of_getElem? found)).1, ?_⟩
    have context : worker.context = Context.ofPlan plan vertex := by
      rw [same]
      rfl
    rw [context, Context.ofPlan_sources, due?, started_resolved linked started feeding stored, ← name]
    have fed : feeding.name ∈ (Context.ofPlan plan vertex).edges.map (·.source) ↔
        vertex.name ∈ plan.destinationsOf feeding.name := by
      constructor
      · intro listed
        obtain ⟨edge, entering, source⟩ := List.mem_map.mp listed
        exact source ▸ (linked.fed vertex member edge entering).2
      · exact linked.read _ known vertex member
    simp only [fed]
  constructor
  · intro index worker found _ source known
    obtain ⟨queue, context⟩ := hears index worker found source known
    simp [knowledge, announced, queue, context]
  · intro index worker found source known tasks held
    rw [(hears index worker found source known).2] at held
    exact (due?_eq_some_iff.mp held).2

end Start

/-- At every point of a run in which clients do not speak for sources, what a manager holds of a
direct source is the parallelism that the source was finalized with. Once the source is final, a
managed vertex that is not terminal holds this number or has it queued, exactly once; before, it
neither holds nor has queued any. The edges of the job are made from their ends, so no source feeds
a vertex twice; two records of one pair would have its parallelism announced for each. -/
theorem parallelism_is_told_once (behaviour : Behaviour σ) (name : String)
    (policy : NamespacePolicy) (mutations : List Mutation) (plan : Plan) (managers : Registry σ)
    (initializers : Registry ι) (actions : List Action)
    (created : ((JobGraph.create name policy).assemble mutations).createPlan = .ok plan)
    (accepted : (submit plan managers initializers).result = .ok ())
    (unassuming : ∀ action ∈ actions, action.Unassuming) :
    let now := run behaviour (submit plan managers initializers).scheduler actions
    ∀ vertex ∈ plan.vertices, ∀ index, now.placeOf? vertex.name = some index →
      ∃ worker, now.workers[index]? = some worker ∧ worker.lifecycle.vertex = vertex.name ∧
        ∀ edge ∈ plan.edges, edge.destination = vertex.name →
          (∀ tasks, worker.context.sources.get? edge.source = some tasks →
            now.phase edge.source = .ok .finalized ∧
              now.resolvedParallelism? edge.source = some tasks) ∧
          ∀ phase, now.phase vertex.name = .ok phase → phase.isTerminated = false →
            (∀ tasks, now.resolvedParallelism? edge.source = some tasks →
              worker.context.sources.get? edge.source = some tasks ∧
                  announced edge.source worker.queue = [] ∨
                worker.context.sources.get? edge.source = none ∧
                  announced edge.source worker.queue = [tasks]) ∧
            (now.resolvedParallelism? edge.source = none →
              worker.context.sources.get? edge.source = none ∧
                announced edge.source worker.queue = []) := by
  intro now vertex member index place
  have adjacent := JobGraph.assemble_adjacent _ mutations (JobGraph.create_adjacent name policy)
  have linked : plan.Linked := JobGraph.createPlan_linked adjacent created
  obtain ⟨managed, started⟩ :=
    Submission.submit_started plan managers initializers linked.toRouted accepted
  obtain ⟨seen, fresh⟩ := started.fresh
  have submitted := submit_sound plan managers initializers
  have sound : now.Sound := run_sound behaviour actions _ submitted
  have mute : (submit plan managers initializers).scheduler.Mute := by
    intro task listed events stream
    rw [fresh.tasks task listed] at stream
    cases stream
  obtain ⟨staffed, informed⟩ := run_informed plan behaviour actions _ unassuming submitted
    (started_staffed linked started) mute (started_informed linked started)
  obtain ⟨worker, found, own⟩ := staffed.named vertex member index place
  refine ⟨worker, found, own, fun edge stored enters => ?_⟩
  have known := (JobGraph.createPlan_ends adjacent created edge stored).1
  constructor
  · intro tasks held
    have resolved := informed.knows index worker found edge.source known tasks held
    obtain ⟨decision, published, _⟩ := (resolvedParallelism?_eq_some_iff _ _ _).mp resolved
    exact ⟨(phase_finalized_iff now sound _).mpr ⟨decision, published⟩, resolved⟩
  · intro phase shown alive
    have going : worker.outcome = none := by
      rw [(worker_shown place found).1] at shown
      cases shown
      have ends := (sound worker (List.mem_of_getElem? found)).ended_iff
      simpa [alive] using ends
    have holds := informed.hears index worker found going edge.source known
    have fed := linked.joined edge stored
    rw [enters] at fed
    rw [due?, own, if_pos fed, knowledge] at holds
    constructor
    · intro tasks resolved
      rw [resolved] at holds
      cases held : worker.context.sources.get? edge.source with
      | none => exact .inr ⟨rfl, by simpa [held] using holds⟩
      | some before => exact .inl (by simpa [held] using holds)
    · intro unresolved
      rw [unresolved] at holds
      simpa using holds

def tellingJob : List Mutation :=
  [.addVertex { name := "map", processor := ⟨"Step", none⟩, parallelism := .fixed 2
                resource := ⟨64, 1⟩, manager := some ⟨BuiltIn.immediateClass, none⟩ },
    .addVertex { name := "reduce", processor := ⟨"Step", none⟩, parallelism := .fixed 4
                 resource := ⟨64, 1⟩, manager := some ⟨BuiltIn.shuffleClass, none⟩ },
    .addEdge "map" "reduce"
      ⟨.scatterGather, .persisted, .sequential, ⟨"Out", none⟩, ⟨"In", none⟩, none⟩]

/-- Between the decision of a stage and the next turn of the other one, the number is queued. -/
theorem decided_parallelism_is_queued :
    ∃ plan, ((JobGraph.create "count" .shared).assemble tellingJob).createPlan = .ok plan ∧
      ∃ worker, (run BuiltIn.behaviour (submit plan BuiltIn.registry
          (.empty : Registry Unit)).scheduler [.work 1, .work 0]).workers[1]? = some worker ∧
        worker.context.sources.get? "map" = none ∧ announced "map" worker.queue = [2] := by
  obtain ⟨plan, created, accepted, ⟨reduce, reduces, named⟩, ⟨edge, stored, source, enters⟩, place,
      resolved, phase, unread⟩ :
      ∃ plan ∈ ((JobGraph.create "count" .shared).assemble tellingJob).createPlan.toOption,
        (submit plan BuiltIn.registry (.empty : Registry Unit)).result = .ok () ∧
        (∃ vertex ∈ plan.vertices, vertex.name = "reduce") ∧
        (∃ edge ∈ plan.edges, edge.source = "map" ∧ edge.destination = "reduce") ∧
        (run BuiltIn.behaviour (submit plan BuiltIn.registry (.empty : Registry Unit)).scheduler
          [.work 1, .work 0]).placeOf? "reduce" = some 1 ∧
        (run BuiltIn.behaviour (submit plan BuiltIn.registry (.empty : Registry Unit)).scheduler
          [.work 1, .work 0]).resolvedParallelism? "map" = some 2 ∧
        (run BuiltIn.behaviour (submit plan BuiltIn.registry (.empty : Registry Unit)).scheduler
          [.work 1, .work 0]).phase "reduce" = .ok .awaitingEvents ∧
        ∀ worker ∈ (run BuiltIn.behaviour (submit plan BuiltIn.registry
            (.empty : Registry Unit)).scheduler [.work 1, .work 0]).workers[1]?,
          worker.context.sources.get? "map" ≠ some 2 := by
    decide +kernel
  have made := toOption_eq_some_iff.mp created
  obtain ⟨worker, found, _, told⟩ := parallelism_is_told_once BuiltIn.behaviour "count" .shared
    tellingJob plan BuiltIn.registry (.empty : Registry Unit) [.work 1, .work 0] made accepted
    (by simp [Action.Unassuming]) reduce reduces 1 (by rw [named, place])
  have queued := (told edge stored (enters.trans named.symm)).2 .awaitingEvents
    (by rw [named, phase]) rfl
  rw [source] at queued
  exact ⟨plan, made, worker, found,
    (queued.1 2 resolved).resolve_left fun held => unread worker found held.1⟩

end Scheduler

end ElasticJob
