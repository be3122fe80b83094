import ElasticJob.Manager.Registry
import ElasticJob.Proofs.Manager.Deciding
import ElasticJob.Proofs.Manager.Feeding
import ElasticJob.Proofs.Number.Rounding
import Mathlib.Data.List.Perm.Subperm

/-!
What a manager that has not decided still waits for. An undecided manager of root inputs misses
the last event about an input; an undecided shuffle manager that knows all its sources misses the
completion of one of their tasks. Neither can be left undecided by the order of its events.
-/

namespace ElasticJob

namespace RootInputManager

theorem decide_ne_pending (manager : RootInputManager) (context : Context) :
    manager.decide context ≠ .ok .pending := by
  unfold decide
  cases manager.splits.entries.foldlM (addRouting context.vertex) _ <;> simp [Except.map]

theorem onEvent_pending (context : Context) (event : ManagerEvent)
    (manager next : RootInputManager)
    (silent : onEvent context event manager = (next, .ok .pending)) :
    (∀ input detail, event ≠ .inputFailed input detail) ∧
      (∀ input, input ∈ next.waiting ↔
        input ∈ manager.waiting ∧ event ≠ .inputInitialized input) ∧
      (manager.waiting ≠ [] → next.waiting ≠ []) := by
  cases event with
  | dataInformation input index payload =>
      cases silent
      simp [addSplit]
  | setParallelism input tasks =>
      simp only [onEvent, setParallelism] at silent
      split at silent
      · cases silent
        simp
      · split at silent
        · cases silent
          simp
        · cases silent
  | inputInitialized input =>
      simp only [onEvent, complete] at silent
      split at silent
      · exact absurd (Prod.mk.inj silent).2 (decide_ne_pending _ context)
      · rename_i waits
        cases silent
        refine ⟨by simp, fun other => ?_, fun _ => by simpa using waits⟩
        simp [eq_comm (a := other)]
  | inputFailed input detail => cases silent
  | sourceConfigured source tasks =>
      cases silent
      simp
  | taskCompleted source task size =>
      cases silent
      simp

theorem feed_waits (context informed : Context) (manager last : RootInputManager)
    (events : List ManagerEvent) (waits : manager.waiting ≠ [])
    (undecided : behaviour.feed context manager events = .pending informed last) :
    ∃ input ∈ manager.waiting, .inputInitialized input ∉ events ∧
      ∀ detail, .inputFailed input detail ∉ events := by
  induction events generalizing context manager with
  | nil =>
      obtain ⟨input, waiting⟩ := List.exists_mem_of_ne_nil _ waits
      exact ⟨input, waiting, by simp⟩
  | cons event rest ih =>
      obtain ⟨next, silent, later⟩ := (behaviour.feed_cons_pending _ _ _ _ _ _).mp undecided
      obtain ⟨going, waiting, still⟩ := onEvent_pending _ event manager next silent
      obtain ⟨input, listed, missing, alive⟩ := ih _ next (still waits) later
      obtain ⟨earlier, apart⟩ := (waiting input).mp listed
      refine ⟨input, earlier, ?_, fun detail member => ?_⟩
      · simp [missing, apart.symm]
      · rcases List.mem_cons.mp member with same | member
        · exact going input detail same.symm
        · exact alive detail member

/-- An input that neither completed nor failed is what an undecided manager waits for. -/
theorem undecided_misses_input (context informed : Context) (last : RootInputManager)
    (events : List ManagerEvent)
    (undecided : behaviour.serve context {} events = .pending informed last) :
    ∃ input ∈ context.inputs, .inputInitialized input ∉ events ∧
      ∀ detail, .inputFailed input detail ∉ events := by
  obtain ⟨next, silent, fed⟩ := (behaviour.serve_pending _ _ _ _ _).mp undecided
  simp only [behaviour, start] at silent
  split at silent
  · split at silent
    · exact absurd (Prod.mk.inj silent).2 (decide_ne_pending _ context)
    · cases silent
  · rename_i waits
    cases silent
    obtain ⟨input, waiting, missing⟩ :=
      feed_waits context informed _ last events (by simpa using waits) fed
    exact ⟨input, List.mem_eraseDups.mp waiting, missing⟩

end RootInputManager

theorem eraseDups_nodup {α : Type} [BEq α] [LawfulBEq α] (items : List α) :
    items.eraseDups.Nodup := by
  induction size : items.length using Nat.strongRecOn generalizing items with
  | ind length ih =>
      cases items with
      | nil => simp
      | cons first rest =>
          rw [List.eraseDups_cons, List.nodup_cons]
          have shorter := List.length_filter_le (fun other => !other == first) rest
          simp only [List.length_cons] at size
          exact ⟨by simp [List.mem_eraseDups], ih _ (by omega) _ rfl⟩

theorem SortedMap.length_le_size {κ ν : Type} [KeyOrder κ] (map : SortedMap κ ν) (keys : List κ)
    (distinct : keys.Nodup) (present : ∀ key ∈ keys, map.contains key = true) :
    keys.length ≤ map.size := by
  have inside : keys ⊆ map.keys := fun key member => contains_iff.mp (present key member)
  calc keys.length ≤ map.keys.length := (distinct.subperm inside).length_le
    _ = map.size := List.length_map _

namespace ShuffleManager

theorem keep_ne_pending (manager : ShuffleManager) : manager.keep ≠ .ok .pending := by
  simp [keep]

theorem reduce_ne_pending (manager : ShuffleManager) (context : Context) (share : Nat) :
    manager.reduce context share ≠ .ok .pending := by
  simp only [reduce, Except.map]
  split <;> simp

theorem tryDecide_ne_pending (manager : ShuffleManager) (context : Context) (total : Nat)
    (known : manager.totalTasks? context = some total) (all : total ≤ manager.completed.size)
    (unit : manager.settings.fraction.isUnit = true) :
    manager.tryDecide context ≠ .ok .pending := by
  by_cases none : total = 0
  · simp only [tryDecide, known, if_pos none]
    exact manager.keep_ne_pending
  · have enough : manager.tooFew total = false := by
      have reached := Number.doubleQuotient_reaches manager.completed.size total
        manager.settings.fraction (Nat.pos_of_ne_zero none) all unit
      simp only [tooFew, reached, Bool.or_false, decide_eq_false_iff_not]
      omega
    have due : Due manager context total := ⟨known, Nat.pos_of_ne_zero none, enough⟩
    rw [due.tryDecide_eq]
    split
    next => exact manager.reduce_ne_pending context _
    next => exact manager.keep_ne_pending

theorem totalTasks?_eq (manager : ShuffleManager) (context : Context) (count : String → UInt32)
    (known : ∀ source ∈ manager.sources, context.sources.get? source = some (count source)) :
    manager.totalTasks? context =
      some (total (manager.sources.map fun source => (count source).toNat)) := by
  have read : ∀ sources : List String,
      (∀ source ∈ sources, context.sources.get? source = some (count source)) →
        sources.mapM context.sources.get? = some (sources.map count) := by
    intro sources
    induction sources with
    | nil => simp
    | cons first rest ih =>
        intro known
        simp [known first List.mem_cons_self,
          ih fun source member => known source (List.mem_cons_of_mem _ member)]
  simp [totalTasks?, read manager.sources known, Function.comp_def]

def tasksOf (count : String → UInt32) (sources : List String) : List SourceTask :=
  sources.flatMap fun source =>
    (List.range (count source).toNat).map fun index => ⟨source, UInt32.ofNat index⟩

theorem tasksOf_length (count : String → UInt32) (sources : List String) :
    (tasksOf count sources).length = total (sources.map fun source => (count source).toNat) := by
  induction sources with
  | nil => rfl
  | cons first rest ih =>
      simp only [tasksOf] at ih
      simp [tasksOf, total, ih]

theorem tasksOf_nodup (count : String → UInt32) (sources : List String)
    (distinct : sources.Nodup) : (tasksOf count sources).Nodup := by
  refine List.nodup_flatMap.mpr ⟨fun source _ => ?_, ?_⟩
  · apply List.Nodup.map_on _ List.nodup_range
    intro index first other second same
    have bound := (count source).toNat_lt
    have equal := congrArg UInt32.toNat (SourceTask.mk.inj same).2
    rw [List.mem_range] at first second
    simpa [Nat.mod_eq_of_lt (first.trans bound), Nat.mod_eq_of_lt (second.trans bound)] using equal
  · refine distinct.imp fun apart => ?_
    intro task left right
    obtain ⟨_, _, rfl⟩ := List.mem_map.mp left
    obtain ⟨_, _, same⟩ := List.mem_map.mp right
    exact apart (SourceTask.mk.inj same).1.symm

/-- What an undecided manager and its context have kept of the events so far. The last question
was answered with nothing, so nothing that is known now would lead to a decision. -/
structure Gathered (context : Context) (past : List ManagerEvent) (informed : Context)
    (manager : ShuffleManager) : Prop where
  sources : manager.sources = scatteredSources context
  unit : manager.settings.fraction.isUnit = true
  silent : manager.tryDecide informed = .ok .pending
  known : ∀ source tasks, context.sources.get? source = some tasks ∨
    .sourceConfigured source tasks ∈ past → (informed.sources.get? source).isSome
  honest : ∀ source tasks, informed.sources.get? source = some tasks →
    context.sources.get? source = some tasks ∨ .sourceConfigured source tasks ∈ past
  completed : ∀ source ∈ manager.sources, ∀ task size, .taskCompleted source task size ∈ past →
    manager.completed.contains ⟨source, task⟩ = true

theorem check_eq_ok_iff {settings found : ShuffleSettings} :
    settings.check = .ok found ↔
      settings = found ∧ settings.fraction.isUnit = true ∧ settings.desiredSize ≠ 0 := by
  unfold ShuffleSettings.check
  split
  next outside => simp_all
  next inside =>
    split
    next empty => simp [empty]
    next sized => simp_all

theorem ofPayload_bounds {payload : Option Bytes} {settings : ShuffleSettings}
    (read : ShuffleSettings.ofPayload payload = .ok settings) :
    settings.fraction.isUnit = true ∧ 0 < settings.desiredSize := by
  have checked : ∃ found : ShuffleSettings, found.check = .ok settings := by
    unfold ShuffleSettings.ofPayload at read
    split at read
    next => exact ⟨{}, read⟩
    next =>
      split at read
      next => cases read
      next =>
        obtain ⟨found, _, checked⟩ := bind_eq_ok_iff.mp read
        exact ⟨found, checked⟩
  obtain ⟨found, checked⟩ := checked
  obtain ⟨rfl, inside, sized⟩ := check_eq_ok_iff.mp checked
  exact ⟨inside, UInt64.pos_iff_ne_zero.mpr sized⟩

theorem start_gathered (context : Context) (next : ShuffleManager)
    (silent : start context {} = (next, .ok .pending)) : Gathered context [] context next := by
  unfold start at silent
  split at silent
  · cases silent
  · rename_i settings read
    split at silent
    · cases silent
    · dsimp only at silent
      split at silent
      · exact absurd (Prod.mk.inj silent).2 (keep_ne_pending _)
      · obtain ⟨rfl, answer⟩ := Prod.mk.inj silent
        exact ⟨rfl, (ofPayload_bounds read).1, answer, by simp +contextual, by simp, by simp⟩

theorem contains_recordTask (manager : ShuffleManager) (source other : String)
    (task index : UInt32) (size : UInt64) (listed : other ∈ manager.sources) :
    (manager.recordTask source task size).completed.contains ⟨other, index⟩ = true ↔
      other = source ∧ index = task ∨ manager.completed.contains ⟨other, index⟩ = true := by
  unfold recordTask
  by_cases here : (⟨other, index⟩ : SourceTask) = ⟨source, task⟩
  · obtain ⟨rfl, rfl⟩ := SourceTask.mk.inj here
    simp [listed, SortedMap.contains]
  · have apart : ¬ (other = source ∧ index = task) := by simpa using here
    split
    · simp [SortedMap.contains, SortedMap.get?_insert_ne _ _ here, apart]
    · simp [apart]

section Reading

variable {context informed : Context} {past : List ManagerEvent} {manager : ShuffleManager}
  (gathered : Gathered context past informed manager)

include gathered

theorem Gathered.skip (event : ManagerEvent)
    (parallelism : ∀ source tasks, event ≠ .sourceConfigured source tasks)
    (completion : ∀ source task size, event ≠ .taskCompleted source task size) :
    Gathered context (past ++ [event]) informed manager := by
  obtain ⟨sources, unit, silent, known, honest, completed⟩ := gathered
  have configured : ∀ source tasks, .sourceConfigured source tasks ∈ past ++ [event] ↔
      .sourceConfigured source tasks ∈ past := by
    intro source tasks
    simp [(parallelism source tasks).symm]
  refine ⟨sources, unit, silent, ?_, ?_, ?_⟩
  · simpa only [configured] using known
  · simpa only [configured] using honest
  · intro source listed task size member
    have before := (List.mem_append.mp member).resolve_right
      (by simpa using (completion source task size).symm)
    exact completed source listed task size before

theorem Gathered.hear (source : String) (tasks : UInt32)
    (silent : manager.tryDecide (informed.setSource source tasks) = .ok .pending) :
    Gathered context (past ++ [.sourceConfigured source tasks])
      (informed.setSource source tasks) manager := by
  refine ⟨gathered.sources, gathered.unit, silent, ?_, ?_, by simpa using gathered.completed⟩
  · intro other count told
    by_cases here : other = source
    · simp [Context.setSource, here]
    · rw [Context.setSource, SortedMap.get?_insert_ne _ _ here]
      exact gathered.known other count (by simpa [here] using told)
  · intro other count found
    by_cases here : other = source
    · subst here
      rw [Context.setSource, SortedMap.get?_insert_self] at found
      simp [Option.some.inj found]
    · rw [Context.setSource, SortedMap.get?_insert_ne _ _ here] at found
      exact (gathered.honest other count found).imp id (List.mem_append_left _)

theorem Gathered.record (source : String) (task : UInt32) (size : UInt64)
    (silent : (manager.recordTask source task size).tryDecide informed = .ok .pending) :
    Gathered context (past ++ [.taskCompleted source task size]) informed
      (manager.recordTask source task size) := by
  have same : (manager.recordTask source task size).sources = manager.sources :=
    (note_frame manager (.taskCompleted source task size)).2.2
  have settings : (manager.recordTask source task size).settings = manager.settings :=
    (note_frame manager (.taskCompleted source task size)).1
  refine ⟨same.trans gathered.sources, settings ▸ gathered.unit, silent,
    by simpa using gathered.known, by simpa using gathered.honest, ?_⟩
  rw [same]
  intro other listed index bytes member
  rw [contains_recordTask manager source other task index size listed]
  rcases List.mem_append.mp member with before | now
  · exact .inr (gathered.completed other listed index bytes before)
  · obtain ⟨rfl, rfl, _⟩ := by simpa using now
    exact .inl ⟨rfl, rfl⟩

theorem Gathered.read (event : ManagerEvent) (next : ShuffleManager)
    (silent : onEvent (Scheduler.learn informed event) event manager = (next, .ok .pending)) :
    Gathered context (past ++ [event]) (Scheduler.learn informed event) next := by
  cases event with
  | taskCompleted source task size =>
      obtain ⟨rfl, answer⟩ := Prod.mk.inj silent
      exact gathered.record source task size answer
  | sourceConfigured source tasks =>
      obtain ⟨rfl, answer⟩ := Prod.mk.inj silent
      exact gathered.hear source tasks answer
  | dataInformation input index payload =>
      cases silent
      exact gathered.skip _ (by simp) (by simp)
  | setParallelism input tasks =>
      cases silent
      exact gathered.skip _ (by simp) (by simp)
  | inputInitialized input =>
      cases silent
      exact gathered.skip _ (by simp) (by simp)
  | inputFailed input detail =>
      cases silent
      exact gathered.skip _ (by simp) (by simp)

end Reading

theorem feed_gathered (context informed after : Context) (manager last : ShuffleManager)
    (past rest : List ManagerEvent) (gathered : Gathered context past informed manager)
    (undecided : behaviour.feed informed manager rest = .pending after last) :
    Gathered context (past ++ rest) after last := by
  induction rest generalizing past informed manager with
  | nil =>
      cases undecided
      simpa using gathered
  | cons event rest ih =>
      obtain ⟨next, silent, later⟩ := (behaviour.feed_cons_pending _ _ _ _ _ _).mp undecided
      simpa using ih _ _ _ (gathered.read event next silent) later

/-- Where the parallelism of every source is known, the completion of one of their tasks is what
an undecided manager waits for, in whatever order it heard of them. -/
theorem undecided_misses_task (context informed : Context) (last : ShuffleManager)
    (events : List ManagerEvent) (count : String → UInt32)
    (undecided : behaviour.serve context {} events = .pending informed last)
    (known : ∀ source ∈ scatteredSources context,
      context.sources.get? source = some (count source) ∨
        .sourceConfigured source (count source) ∈ events)
    (honest : ∀ source ∈ scatteredSources context, ∀ tasks,
      context.sources.get? source = some tasks ∨ .sourceConfigured source tasks ∈ events →
        tasks = count source) :
    ∃ source ∈ scatteredSources context, ∃ index < (count source).toNat,
      ∀ size, .taskCompleted source (UInt32.ofNat index) size ∉ events := by
  obtain ⟨next, silent, fed⟩ := (behaviour.serve_pending _ _ _ _ _).mp undecided
  have gathered := feed_gathered context context informed next last [] events
    (start_gathered context next silent) fed
  by_contra complete
  push Not at complete
  have counted : ∀ source ∈ last.sources,
      informed.sources.get? source = some (count source) := by
    intro source listed
    rw [gathered.sources] at listed
    obtain ⟨tasks, found⟩ := Option.isSome_iff_exists.mp
      (gathered.known source (count source) (known source listed))
    rw [found, honest source listed tasks (gathered.honest source tasks found)]
  -- tasks are counted by key, so a task that was reported twice counts once
  have all : total (last.sources.map fun source => (count source).toNat) ≤
      last.completed.size := by
    rw [← tasksOf_length]
    apply SortedMap.length_le_size
    · exact tasksOf_nodup count _ (gathered.sources ▸ eraseDups_nodup _)
    · intro task member
      obtain ⟨source, listed, member⟩ := List.mem_flatMap.mp member
      obtain ⟨index, inside, rfl⟩ := List.mem_map.mp member
      obtain ⟨size, reported⟩ := complete source (gathered.sources ▸ listed) index
        (List.mem_range.mp inside)
      exact gathered.completed source listed _ size reported
  exact tryDecide_ne_pending last informed _ (totalTasks?_eq last informed count counted) all
    gathered.unit gathered.silent

end ShuffleManager

end ElasticJob
