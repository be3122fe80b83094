import ElasticJob.Proofs.Manager.Reports

/-!
What a shuffle manager does not see of its events: their order, how often they come, and those that
are not about its sources. Two lists of events with the same last reports leave the same manager,
and contexts that tell the same about its sources lead to the same answers. The containers of a
manager list their items in no order of their own, so every answer is also the one that walking them
in any order gives.
-/

namespace ElasticJob

namespace Behaviour

def replies {σ : Type} (behaviour : Behaviour σ) (context : Context) (manager : σ) :
    List ManagerEvent → List (Except ManagerError Decision)
  | [] => []
  | event :: rest =>
      let informed := Scheduler.learn context event
      let answered := behaviour.onEvent informed event manager
      answered.2 :: replies behaviour informed answered.1 rest

end Behaviour

namespace ShuffleManager

section Listing

structure Listing (manager : ShuffleManager) where
  sources : List String
  sizes : List UInt64
  allSources : sources.Perm manager.sources
  allSizes : sizes.Perm manager.completed.values

def decideBy (manager : ShuffleManager) (listing : Listing manager) (context : Context) :
    Except ManagerError Decision :=
  match tasksIn context listing.sources with
  | none => .ok .pending
  | some tasks =>
      if tasks = 0 then manager.keep
      else if manager.tooFew tasks then .ok .pending
      else if !manager.settings.reduces then manager.keep
      else
        let output := total (listing.sizes.map UInt64.toNat)
        let share := manager.initial.toNat /
          manager.desired (output * tasks / manager.completed.size)
        if share ≤ 1 then manager.keep else manager.reduce context share

theorem decideBy_eq (manager : ShuffleManager) (listing : Listing manager) (context : Context) :
    manager.decideBy listing context = manager.tryDecide context := by
  have tasks : tasksIn context listing.sources = manager.totalTasks? context :=
    tasksIn_perm context listing.allSources
  have output : total (listing.sizes.map UInt64.toNat) = manager.completedSize := by
    rw [completedSize, total_eq_sum, total_eq_sum]
    exact (listing.allSizes.map UInt64.toNat).sum_eq
  simp only [decideBy, tasks, output]
  rfl

/-- The answers to events by a manager that walks its containers in another order each time, with
the context and the manager afterwards. -/
inductive Reads : Context → ShuffleManager → List ManagerEvent →
    List (Except ManagerError Decision) → Context → ShuffleManager → Prop where
  | done {context : Context} {manager : ShuffleManager} : Reads context manager [] [] context manager
  | event {context last : Context} {manager final : ShuffleManager} {event : ManagerEvent}
      {rest : List ManagerEvent} {answers : List (Except ManagerError Decision)}
      (listing : Listing (manager.note event))
      (later : Reads (Scheduler.learn context event) (manager.note event) rest answers last final) :
      Reads context manager (event :: rest)
        ((if consults event then
            (manager.note event).decideBy listing (Scheduler.learn context event)
          else .ok .pending) :: answers) last final

def Replies (context : Context) (manager : ShuffleManager) (events : List ManagerEvent)
    (answers : List (Except ManagerError Decision)) : Prop :=
  ∃ last final, Reads context manager events answers last final

variable {context last : Context} {manager final : ShuffleManager} {events : List ManagerEvent}
  {answers : List (Except ManagerError Decision)}

theorem Reads.eq (reads : Reads context manager events answers last final) :
    answers = behaviour.replies context manager events ∧
      last = events.foldl Scheduler.learn context ∧ final = events.foldl note manager := by
  induction reads with
  | done => exact ⟨rfl, rfl, rfl⟩
  | @event context last manager final event rest answers listing later ih =>
      obtain ⟨same, learned, noted⟩ := ih
      refine ⟨?_, learned, noted⟩
      have answered := onEvent_eq (Scheduler.learn context event) event manager
      rw [same, decideBy_eq]
      simp only [Behaviour.replies, behaviour, answered]

theorem reads_replies (context : Context) (manager : ShuffleManager) (events : List ManagerEvent) :
    Reads context manager events (behaviour.replies context manager events)
      (events.foldl Scheduler.learn context) (events.foldl note manager) := by
  induction events generalizing context manager with
  | nil => exact .done
  | cons event rest ih =>
      have answered := onEvent_eq (Scheduler.learn context event) event manager
      have listing : Listing (manager.note event) := ⟨_, _, .refl _, .refl _⟩
      simp only [Behaviour.replies, behaviour, answered]
      rw [← decideBy_eq _ listing]
      exact .event listing (ih _ _)

/-- There is one list of answers, whatever the order of the containers. -/
theorem replies_iff :
    Replies context manager events answers ↔ answers = behaviour.replies context manager events := by
  constructor
  · rintro ⟨last, final, reads⟩
    exact reads.eq.1
  · rintro rfl
    exact ⟨_, _, reads_replies context manager events⟩

end Listing

section Congruence

/-- Events with the same last reports about the sources leave the same manager. -/
theorem foldl_note_congr (manager : ShuffleManager) {first second : List ManagerEvent}
    (same : ∀ task, task.source ∈ manager.sources →
      lastSize? first task = lastSize? second task) :
    first.foldl note manager = second.foldl note manager := by
  have completed : (first.foldl note manager).completed =
      (second.foldl note manager).completed := by
    refine SortedMap.ext_get? fun task => ?_
    rw [get?_foldl_note, get?_foldl_note]
    split
    next listed => rw [same task listed]
    next => rfl
  obtain ⟨settings, initial, sources⟩ := foldl_note_frame manager first
  obtain ⟨settings', initial', sources'⟩ := foldl_note_frame manager second
  calc first.foldl note manager
      = ⟨manager.settings, manager.initial, manager.sources,
          (first.foldl note manager).completed⟩ := by rw [← settings, ← initial, ← sources]
    _ = ⟨manager.settings, manager.initial, manager.sources,
          (second.foldl note manager).completed⟩ := by rw [completed]
    _ = second.foldl note manager := by rw [← settings', ← initial', ← sources']

structure Alike (sources : List String) (here there : Context) : Prop where
  edges : here.edges = there.edges
  known : ∀ source ∈ sources, here.sources.get? source = there.sources.get? source

variable {here there : Context} {manager : ShuffleManager}

theorem Alike.learn {sources : List String} (alike : Alike sources here there)
    (event : ManagerEvent) :
    Alike sources (Scheduler.learn here event) (Scheduler.learn there event) := by
  cases event with
  | sourceConfigured source tasks =>
      refine ⟨alike.edges, fun other listed => ?_⟩
      simp only [Scheduler.learn, Context.setSource, SortedMap.get?_insert,
        alike.known other listed]
  | _ => exact alike

theorem Alike.tryDecide (alike : Alike manager.sources here there) :
    manager.tryDecide here = manager.tryDecide there := by
  have tasks : manager.totalTasks? here = manager.totalTasks? there := tasksIn_congr alike.known
  simp only [ShuffleManager.tryDecide, reduce, tasks, alike.edges]

theorem Alike.replies (alike : Alike manager.sources here there) (events : List ManagerEvent) :
    behaviour.replies here manager events = behaviour.replies there manager events := by
  induction events generalizing here there manager with
  | nil => rfl
  | cons event rest ih =>
      have next : Alike (manager.note event).sources (Scheduler.learn here event)
          (Scheduler.learn there event) := by
        rw [(note_frame manager event).2.2]
        exact alike.learn event
      simp only [Behaviour.replies, behaviour, onEvent_eq, next.tryDecide]
      exact congrArg _ (ih next)

end Congruence

theorem start_sources (context : Context) :
    ∀ source ∈ (start context {}).1.sources, source ∈ scatteredSources context := by
  unfold start
  split
  next => simp
  next =>
    split
    next => simp
    next =>
      dsimp only
      split <;> exact fun source listed => listed

/-- Two runs from the same start, undecided or not, that heard the same last sizes of the tasks of
scattered sources and know the same of these sources, go on with the same answers, in whatever order
the containers are walked and whatever else was told before. -/
theorem order_and_repetition_are_immaterial (context here there : Context)
    (one other : ShuffleManager) (first second later : List ManagerEvent)
    (early before : List (Except ManagerError Decision))
    (read : Reads context (start context {}).1 first early here one)
    (reread : Reads context (start context {}).1 second before there other)
    (sizes : ∀ task, task.source ∈ scatteredSources context →
      lastSize? first task = lastSize? second task)
    (known : ∀ source ∈ scatteredSources context,
      here.sources.get? source = there.sources.get? source) :
    ∀ answers,
      (Replies here one later answers ↔ answers = behaviour.replies here one later) ∧
      (Replies there other later answers ↔ answers = behaviour.replies here one later) := by
  obtain ⟨_, learned, rfl⟩ := read.eq
  obtain ⟨_, relearned, rfl⟩ := reread.eq
  have listed := start_sources context
  have same : first.foldl note (start context {}).1 = second.foldl note (start context {}).1 :=
    foldl_note_congr _ fun task member => sizes task (listed _ member)
  have alike : Alike (first.foldl note (start context {}).1).sources here there := by
    refine ⟨?_, fun source member => known source ?_⟩
    · rw [learned, relearned, Scheduler.foldl_learn_edges, Scheduler.foldl_learn_edges]
    · rw [(foldl_note_frame _ first).2.2] at member
      exact listed source member
  refine fun answers => ⟨replies_iff, ?_⟩
  rw [replies_iff, ← same, alike.replies later]

def untoldSource : Context :=
  { vertex := "sort"
    parallelism := .fixed 10
    edges := [⟨⟨"map", "sort"⟩, "map", .scatterGather, "Out", none⟩] }

def correctedReports : List ManagerEvent :=
  [.taskCompleted "map" 0 9, .taskCompleted "map" 1 5, .sourceConfigured "log" 3,
    .taskCompleted "map" 0 157286395]

def repeatedReports : List ManagerEvent :=
  [.taskCompleted "map" 1 5, .taskCompleted "map" 0 157286395, .taskCompleted "log" 0 1,
    .inputInitialized "side", .taskCompleted "map" 1 5]

def fourTasks : Reconfiguration :=
  { parallelism := 4, routing := .ofList [("map", [0, 0, 0, 1, 1, 1, 2, 2, 2, 3])] }

theorem corrected_and_repeated_reports_agree :
    Replies (correctedReports.foldl Scheduler.learn untoldSource)
        (correctedReports.foldl note (start untoldSource {}).1)
        [.sourceConfigured "map" 4] [.ok (.finalize fourTasks)] ∧
      Replies (repeatedReports.foldl Scheduler.learn untoldSource)
        (repeatedReports.foldl note (start untoldSource {}).1)
        [.sourceConfigured "map" 4] [.ok (.finalize fourTasks)] := by
  have sizes : ∀ task : SourceTask, task.source ∈ scatteredSources untoldSource →
      lastSize? correctedReports task = lastSize? repeatedReports task := by
    rintro ⟨source, index⟩ listed
    obtain rfl : source = "map" := by simpa [scatteredSources, untoldSource] using listed
    by_cases first : 0 = index
    · simp [lastSize?_cons, correctedReports, repeatedReports, ManagerEvent.reports?, ← first]
    · simp [lastSize?_cons, correctedReports, repeatedReports, ManagerEvent.reports?, first]
  have four : behaviour.replies (correctedReports.foldl Scheduler.learn untoldSource)
      (correctedReports.foldl note (start untoldSource {}).1) [.sourceConfigured "map" 4] =
        [.ok (.finalize fourTasks)] := by
    decide +kernel
  obtain ⟨corrected, repeated⟩ := order_and_repetition_are_immaterial untoldSource _ _ _ _
    correctedReports repeatedReports [.sourceConfigured "map" 4] _ _ (reads_replies _ _ _)
    (reads_replies _ _ _) sizes (by decide) [.ok (.finalize fourTasks)]
  exact ⟨corrected.mpr four.symm, repeated.mpr four.symm⟩

end ShuffleManager

end ElasticJob
