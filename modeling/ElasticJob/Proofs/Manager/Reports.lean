import ElasticJob.Proofs.Manager.Waiting

/-!
What a shuffle manager has kept at any point of a run. It keeps of the events no more than the last
size that each task of its sources reported, and its context no more than the last parallelism of
each source. The last answer of a run is what the manager decides on all that it has kept, also
where the last event did not make it look.
-/

namespace ElasticJob

namespace Behaviour

variable {σ : Type}

/-- The last answer of a run that has heard these events, all but the last one answered with
nothing, with the context and the manager as they then are. -/
inductive Answered (behaviour : Behaviour σ) (context : Context) (manager : σ) :
    List ManagerEvent → Context → σ → Except ManagerError Decision → Prop where
  | start {next : σ} {answer : Except ManagerError Decision}
      (begins : behaviour.start context manager = (next, answer)) :
      Answered behaviour context manager [] context next answer
  | event {past : List ManagerEvent} {informed : Context} {before next : σ} {event : ManagerEvent}
      {answer : Except ManagerError Decision}
      (waits : behaviour.serve context manager past = .pending informed before)
      (replies : behaviour.onEvent (Scheduler.learn informed event) event before =
        (next, answer)) :
      Answered behaviour context manager (past ++ [event]) (Scheduler.learn informed event) next
        answer

end Behaviour

theorem Scheduler.foldl_learn_edges (context : Context) (events : List ManagerEvent) :
    (events.foldl Scheduler.learn context).edges = context.edges := by
  induction events generalizing context with
  | nil => rfl
  | cons event rest ih => rw [List.foldl_cons, ih, (Scheduler.learn_frame context event).1]

def ManagerEvent.reports? (task : SourceTask) : ManagerEvent → Option UInt64
  | .taskCompleted source index size => if ⟨source, index⟩ = task then some size else none
  | _ => none

def lastSize? (events : List ManagerEvent) (task : SourceTask) : Option UInt64 :=
  events.reverse.findSome? (·.reports? task)

@[simp]
theorem lastSize?_nil (task : SourceTask) : lastSize? [] task = none :=
  rfl

theorem lastSize?_append (first second : List ManagerEvent) (task : SourceTask) :
    lastSize? (first ++ second) task = (lastSize? second task).or (lastSize? first task) := by
  rw [lastSize?, List.reverse_append, List.findSome?_append]
  rfl

theorem lastSize?_cons (event : ManagerEvent) (rest : List ManagerEvent) (task : SourceTask) :
    lastSize? (event :: rest) task = (lastSize? rest task).or (event.reports? task) := by
  rw [← List.singleton_append, lastSize?_append]
  simp [lastSize?]

theorem lastSize?_isSome_iff {events : List ManagerEvent} {task : SourceTask} :
    (lastSize? events task).isSome = true ↔
      ∃ size, .taskCompleted task.source task.index size ∈ events := by
  induction events with
  | nil => simp
  | cons event rest ih =>
      have here : (event.reports? task).isSome = true ↔
          ∃ size, event = .taskCompleted task.source task.index size := by
        cases event with
        | taskCompleted source index size =>
            obtain ⟨other, place⟩ := task
            simp [ManagerEvent.reports?]
        | _ => simp [ManagerEvent.reports?]
      rw [lastSize?_cons, Option.isSome_or, Bool.or_eq_true, ih, here]
      simp only [List.mem_cons, exists_or, eq_comm (a := event), or_comm]

namespace ShuffleManager

theorem get?_note (manager : ShuffleManager) (event : ManagerEvent) (task : SourceTask) :
    (manager.note event).completed.get? task =
      if task.source ∈ manager.sources then
        (event.reports? task).or (manager.completed.get? task)
      else manager.completed.get? task := by
  cases event with
  | taskCompleted source index size =>
      simp only [note, recordTask, List.contains_iff_mem, ManagerEvent.reports?]
      by_cases here : (⟨source, index⟩ : SourceTask) = task
      · subst here
        by_cases listed : source ∈ manager.sources <;> simp [listed]
      · by_cases listed : source ∈ manager.sources <;>
          simp [listed, here, SortedMap.get?_insert_ne _ _ (Ne.symm here)]
  | _ => simp [note, ManagerEvent.reports?]

section Run

variable (manager : ShuffleManager) (events : List ManagerEvent)

theorem foldl_note_frame :
    (events.foldl note manager).settings = manager.settings ∧
      (events.foldl note manager).initial = manager.initial ∧
      (events.foldl note manager).sources = manager.sources := by
  induction events generalizing manager with
  | nil => exact ⟨rfl, rfl, rfl⟩
  | cons event rest ih =>
      obtain ⟨settings, initial, sources⟩ := note_frame manager event
      have later := ih (manager.note event)
      rwa [settings, initial, sources] at later

/-- Of all events about a task the last one counts, and only where its source is one of the
manager's. -/
theorem get?_foldl_note (task : SourceTask) :
    (events.foldl note manager).completed.get? task =
      if task.source ∈ manager.sources then
        (lastSize? events task).or (manager.completed.get? task)
      else manager.completed.get? task := by
  induction events generalizing manager with
  | nil => simp
  | cons event rest ih =>
      rw [List.foldl_cons, ih, get?_note, (note_frame manager event).2.2, lastSize?_cons]
      by_cases listed : task.source ∈ manager.sources <;> simp [listed, Option.or_assoc]

end Run

/-- An undecided manager and its context are what the events made of them. -/
theorem feed_pending_eq {context informed : Context} {manager last : ShuffleManager}
    {events : List ManagerEvent}
    (waits : behaviour.feed context manager events = .pending informed last) :
    informed = events.foldl Scheduler.learn context ∧ last = events.foldl note manager := by
  induction events generalizing context manager with
  | nil =>
      cases waits
      exact ⟨rfl, rfl⟩
  | cons event rest ih =>
      obtain ⟨next, silent, later⟩ := (behaviour.feed_cons_pending _ _ _ _ _ _).mp waits
      obtain rfl : manager.note event = next := congrArg Prod.fst
        ((onEvent_eq _ event manager).symm.trans silent)
      exact ih later

def begun (context : Context) (settings : ShuffleSettings) (initial : UInt32) : ShuffleManager :=
  { settings := settings, initial := initial, sources := scatteredSources context }

section Answers

variable {context informed : Context} {settings : ShuffleSettings} {initial : UInt32}
  {heard : List ManagerEvent} {manager : ShuffleManager} {answer : Except ManagerError Decision}
  (accepted : ShuffleSettings.ofPayload context.payload = .ok settings)
  (fixed : context.parallelism = .fixed initial)

include accepted fixed

theorem start_eq :
    start context {} = (begun context settings initial,
      if (scatteredSources context).isEmpty || initial = 0 then
        (begun context settings initial).keep
      else (begun context settings initial).tryDecide context) := by
  simp only [start, accepted, fixed]
  exact (apply_ite (Prod.mk (begun context settings initial)) _ _ _).symm

variable (answered : behaviour.Answered context {} heard informed manager answer)

include answered

theorem answered_state :
    informed = heard.foldl Scheduler.learn context ∧
      manager = heard.foldl note (begun context settings initial) := by
  cases answered with
  | start begins =>
      exact ⟨rfl, congrArg Prod.fst (begins.symm.trans (start_eq accepted fixed))⟩
  | @event past before waiting _ event _ waits replies =>
      obtain ⟨first, begins, fed⟩ := (behaviour.serve_pending _ _ _ _ _).mp waits
      obtain rfl : begun context settings initial = first :=
        congrArg Prod.fst ((start_eq accepted fixed).symm.trans begins)
      obtain ⟨rfl, rfl⟩ := feed_pending_eq fed
      refine ⟨by simp, ?_⟩
      rw [List.foldl_append]
      exact congrArg Prod.fst (replies.symm.trans (onEvent_eq _ event _))

theorem answered_frame :
    manager.settings = settings ∧ manager.initial = initial ∧
      manager.sources = scatteredSources context := by
  rw [(answered_state accepted fixed answered).2]
  exact foldl_note_frame _ heard

theorem answered_completed (task : SourceTask) :
    manager.completed.get? task =
      if task.source ∈ scatteredSources context then lastSize? heard task else none := by
  rw [(answered_state accepted fixed answered).2, get?_foldl_note]
  exact if_congr Iff.rfl Option.or_none rfl

theorem answered_decides :
    answer = manager.tryDecide informed ∨
      heard = [] ∧ (manager.sources = [] ∨ manager.initial = 0) ∧ answer = manager.keep := by
  cases answered with
  | start begins =>
      obtain ⟨rfl, rfl⟩ := Prod.mk.inj ((start_eq accepted fixed).symm.trans begins)
      split
      next idle => exact .inr ⟨rfl, by simpa [begun] using idle, rfl⟩
      next => exact .inl rfl
  | @event past before waiting _ event _ waits replies =>
      rw [show behaviour.onEvent _ event waiting = _ from onEvent_eq _ event waiting] at replies
      obtain ⟨rfl, rfl⟩ := Prod.mk.inj replies
      refine .inl ?_
      by_cases looks : consults event = true
      · rw [if_pos looks]
      -- nothing has changed since the last look, and that one led to nothing
      · obtain ⟨first, begins, fed⟩ := (behaviour.serve_pending _ _ _ _ _).mp waits
        obtain ⟨same, kept⟩ :=
          unchanged_of_not_consults (Bool.eq_false_iff.mpr looks) before waiting
        rw [if_neg looks, same, kept]
        exact (feed_gathered _ _ _ _ _ [] past (start_gathered context first begins) fed).silent.symm

end Answers

section Totals

theorem total_eq_sum (values : List Nat) : total values = values.sum := by
  induction values with
  | nil => rfl
  | cons value rest ih => rw [total, ih, List.sum_cons]

def tasksIn (context : Context) (sources : List String) : Option Nat :=
  (sources.mapM context.sources.get?).map fun tasks => total (tasks.map UInt32.toNat)

theorem tasksIn_cons (context : Context) (source : String) (rest : List String) :
    tasksIn context (source :: rest) =
      (context.sources.get? source).bind fun tasks =>
        (tasksIn context rest).map fun others => tasks.toNat + others := by
  unfold tasksIn
  rw [List.mapM_cons]
  cases context.sources.get? source <;> cases rest.mapM context.sources.get? <;> rfl

theorem tasksIn_perm (context : Context) {first second : List String}
    (order : first.Perm second) : tasksIn context first = tasksIn context second := by
  induction order with
  | nil => rfl
  | cons source _ ih => rw [tasksIn_cons, tasksIn_cons, ih]
  | swap source other rest =>
      simp only [tasksIn_cons]
      cases context.sources.get? source <;> cases context.sources.get? other <;>
        cases tasksIn context rest <;> simp [Nat.add_left_comm]
  | trans _ _ one other => exact one.trans other

theorem tasksIn_congr {here there : Context} {sources : List String}
    (known : ∀ source ∈ sources, here.sources.get? source = there.sources.get? source) :
    tasksIn here sources = tasksIn there sources := by
  induction sources with
  | nil => rfl
  | cons source rest ih =>
      rw [tasksIn_cons, tasksIn_cons, known source List.mem_cons_self,
        ih fun other listed => known other (List.mem_cons_of_mem _ listed)]

end Totals

end ShuffleManager

end ElasticJob
