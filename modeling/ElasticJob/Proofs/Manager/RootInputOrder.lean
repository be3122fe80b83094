import ElasticJob.Manager.RootInput
import ElasticJob.Proofs.Manager.Feeding
import ElasticJob.Proofs.Manager.InitializerStream

/-!
The order in which initializers deliver their events does not matter. A manager of root inputs
comes to one decision, with the very last event, or fails whatever the order is; which of the two
is read off the outcomes of the initializers alone.
-/

namespace ElasticJob

namespace RootInputManager

/-- The first directive that an input keeps, else the fixed parallelism, else the most splits. -/
def resultingTasks (context : Context) (outcome : String → InitializerOutcome) : Nat :=
  match context.inputs.findSome? fun input => keptDirective? (outcome input),
      context.parallelism with
  | some tasks, _ => tasks.toNat
  | none, .fixed tasks => tasks.toNat
  | none, .deferred => (context.inputs.map fun input => splitCount (outcome input)).foldl max 0

structure Settles (context : Context) (outcome : String → InitializerOutcome) : Prop where
  completed : ∀ input ∈ context.inputs, (outcome input).isOk = true
  agreed : ∀ first ∈ context.inputs, ∀ second ∈ context.inputs, ∀ one other,
    keptDirective? (outcome first) = some one → keptDirective? (outcome second) = some other →
      one = other
  room : ¬ (resultingTasks context outcome = 0 ∧
    ∃ input ∈ context.inputs, 0 < splitCount (outcome input))

def agreedDecision (context : Context) (outcome : String → InitializerOutcome) :
    Reconfiguration :=
  let tasks := UInt32.ofNat (resultingTasks context outcome)
  { parallelism := tasks
    routing := .ofList ((context.inputs.filter fun input => 0 < splitCount (outcome input)).map
      fun input => (input, roundRobin tasks (splitCount (outcome input)))) }

def inputStreams (context : Context) (outcome : String → InitializerOutcome) :
    List (List ManagerEvent) :=
  context.inputs.map fun input => toManagerEvents input (outcome input)

structure Delivered (context : Context) (outcome : String → InitializerOutcome)
    (merged : List ManagerEvent) : Prop where
  known : ∀ event ∈ merged, ∃ input ∈ context.inputs,
    event ∈ toManagerEvents input (outcome input)
  ordered : ∀ input ∈ context.inputs,
    merged.filter (fun event => event.input? = some input) =
      toManagerEvents input (outcome input)

theorem interleaving_delivered (context : Context) (outcome : String → InitializerOutcome)
    (merged : List ManagerEvent) (distinct : context.inputs.Nodup)
    (mixed : Interleaving (inputStreams context outcome) merged) :
    Delivered context outcome merged := by
  constructor
  · intro event member
    obtain ⟨stream, listed, held⟩ := mixed.mem_stream event member
    obtain ⟨input, present, rfl⟩ := List.mem_map.mp listed
    exact ⟨input, present, held⟩
  · intro input present
    obtain ⟨index, found⟩ := List.mem_iff_getElem?.mp present
    apply mixed.filter_eq index
    · simp [inputStreams, found]
    · intro event member
      simp [toManagerEvents_input input _ event member]
    · intro other stream apart stored event member
      obtain ⟨name, listed, rfl⟩ := by simpa [inputStreams] using stored
      have different : name ≠ input := fun same => by
        subst same
        exact apart ((List.getElem?_inj (List.getElem?_eq_some_iff.mp listed).1 distinct).mp
          (listed.trans found.symm))
      simp [toManagerEvents_input name _ event member, different]

section Facts

variable {context : Context} {outcome : String → InitializerOutcome} {merged : List ManagerEvent}
  (delivered : Delivered context outcome merged)

include delivered

theorem Delivered.about (event : ManagerEvent) (input : String) (member : event ∈ merged)
    (names : event.input? = some input) :
    input ∈ context.inputs ∧ event ∈ toManagerEvents input (outcome input) := by
  obtain ⟨other, listed, held⟩ := delivered.known event member
  obtain rfl : other = input := by
    simpa [toManagerEvents_input other _ event held] using names
  exact ⟨listed, held⟩

theorem Delivered.mem_iff (event : ManagerEvent) (input : String)
    (names : event.input? = some input) :
    event ∈ merged ↔ input ∈ context.inputs ∧ event ∈ toManagerEvents input (outcome input) := by
  refine ⟨fun member => delivered.about event input member names, ?_⟩
  rintro ⟨listed, held⟩
  rw [← delivered.ordered input listed] at held
  exact List.mem_of_mem_filter held

theorem Delivered.splits (input : String) :
    merged.countP (·.isSplitOf input) =
      if input ∈ context.inputs then splitCount (outcome input) else 0 := by
  have split : ∀ event : ManagerEvent, event.isSplitOf input = true →
      event.input? = some input := by
    intro event
    cases event <;> simp [ManagerEvent.isSplitOf, ManagerEvent.input?]
  by_cases listed : input ∈ context.inputs
  · rw [if_pos listed, ← toManagerEvents_splits input, ← delivered.ordered input listed,
      List.countP_filter]
    apply List.countP_congr
    intro event _
    simpa using split event
  · rw [if_neg listed, List.countP_eq_zero]
    intro event member belongs
    exact listed (delivered.about event input member (split event belongs)).1

end Facts

structure Follows (context : Context) (past : List ManagerEvent) (manager : RootInputManager) :
    Prop where
  waiting : ∀ input, input ∈ manager.waiting ↔
    input ∈ context.inputs ∧ .inputInitialized input ∉ past
  going : ∀ input detail, .inputFailed input detail ∉ past
  undirected : manager.directive = none → ∀ input tasks, .setParallelism input tasks ∉ past
  directed : ∀ first tasks, manager.directive = some (first, tasks) →
    .setParallelism first tasks ∈ past ∧
      ∀ input other, .setParallelism input other ∈ past → other = tasks
  splits : ∀ input, manager.splits.get? input =
    if past.countP (·.isSplitOf input) = 0 then none
    else some (past.countP (·.isSplitOf input))

theorem follows_start (context : Context) :
    Follows context [] { waiting := context.inputs.eraseDups } where
  waiting := by simp
  going := by simp
  undirected := by simp
  directed := by simp
  splits := by simp

section Steps

variable {context : Context} {past : List ManagerEvent} {manager : RootInputManager}
  (follows : Follows context past manager)

include follows

theorem Follows.split (input : String) (index : UInt32) (payload : Bytes) :
    Follows context (past ++ [.dataInformation input index payload]) (manager.addSplit input) where
  waiting := by simpa [addSplit] using follows.waiting
  going := by simpa using follows.going
  undirected := by simpa [addSplit] using follows.undirected
  directed := by simpa [addSplit] using follows.directed
  splits := by
    intro other
    by_cases same : other = input
    · subst other
      simp only [addSplit, SortedMap.get?_insert_self, follows.splits, List.countP_append]
      split <;> simp_all [ManagerEvent.isSplitOf]
    · rw [addSplit, SortedMap.get?_insert_ne _ _ same, follows.splits, List.countP_append]
      simp [ManagerEvent.isSplitOf, Ne.symm same]

theorem Follows.direct (input : String) (tasks : UInt32) (free : manager.directive = none) :
    Follows context (past ++ [.setParallelism input tasks])
      { manager with directive := some (input, tasks) } where
  waiting := by simpa using follows.waiting
  going := by simpa using follows.going
  undirected := by simp
  directed := by
    have fresh := follows.undirected free
    rintro first other same
    obtain ⟨rfl, rfl⟩ := by simpa using same
    simp [fresh]
  splits := by
    intro other
    simpa [ManagerEvent.isSplitOf, List.countP_append] using follows.splits other

theorem Follows.agree (first input : String) (tasks : UInt32)
    (known : manager.directive = some (first, tasks)) :
    Follows context (past ++ [.setParallelism input tasks]) manager where
  waiting := by simpa using follows.waiting
  going := by simpa using follows.going
  undirected := by simp [known]
  directed := by
    obtain ⟨kept, only⟩ := follows.directed first tasks known
    rintro other one same
    obtain ⟨rfl, rfl⟩ : first = other ∧ tasks = one := by simpa [known] using same
    refine ⟨List.mem_append_left _ kept, ?_⟩
    intro name two member
    rcases List.mem_append.mp member with old | new
    · exact only name two old
    · exact (by simpa using new : name = input ∧ two = tasks).2
  splits := by
    intro other
    simpa [ManagerEvent.isSplitOf, List.countP_append] using follows.splits other

theorem Follows.complete (input : String) :
    Follows context (past ++ [.inputInitialized input])
      { manager with waiting := manager.waiting.filter (· ≠ input) } where
  waiting := by
    intro other
    simp [follows.waiting, and_assoc]
  going := by simpa using follows.going
  undirected := by simpa using follows.undirected
  directed := by simpa using follows.directed
  splits := by
    intro other
    simpa [ManagerEvent.isSplitOf, List.countP_append] using follows.splits other

end Steps

theorem foldl_max_le_iff (counts : List Nat) (start bound : Nat) :
    counts.foldl max start ≤ bound ↔ start ≤ bound ∧ ∀ count ∈ counts, count ≤ bound := by
  induction counts generalizing start with
  | nil => simp
  | cons first rest ih =>
      rw [List.foldl_cons, ih, Nat.max_le, List.forall_mem_cons, and_assoc]

theorem agreedDecision_parallelism (context : Context) (outcome : String → InitializerOutcome)
    (bounded : ∀ input ∈ context.inputs, splitCount (outcome input) < UInt32.size) :
    (agreedDecision context outcome).parallelism.toNat = resultingTasks context outcome := by
  apply UInt32.toNat_ofNat_of_lt'
  unfold resultingTasks
  split
  · exact UInt32.toNat_lt_size _
  · exact UInt32.toNat_lt_size _
  · apply Nat.lt_of_le_pred (by decide)
    rw [foldl_max_le_iff]
    refine ⟨by decide, fun count member => ?_⟩
    obtain ⟨input, listed, rfl⟩ := List.mem_map.mp member
    exact Nat.le_pred_of_lt (bounded input listed)

theorem foldlM_addRouting (vertex : String) (entries : List (String × Nat))
    (decision : Reconfiguration)
    (room : ∀ entry ∈ entries, entry.2 ≠ 0 ∧ decision.parallelism ≠ 0) :
    entries.foldlM (addRouting vertex) decision =
      .ok { decision with
        routing := decision.routing.insertMany
          (entries.map fun entry => (entry.1, roundRobin decision.parallelism entry.2)) } := by
  induction entries generalizing decision with
  | nil => rfl
  | cons first rest ih =>
      obtain ⟨some, tasks⟩ := room first List.mem_cons_self
      rw [List.foldlM_cons, addRouting, if_neg some, if_neg tasks]
      exact ih (decision.withRouting first.1 (roundRobin decision.parallelism first.2))
        fun entry member => room entry (List.mem_cons_of_mem _ member)

section Whole

variable {context : Context} {outcome : String → InitializerOutcome} {merged : List ManagerEvent}
  {manager : RootInputManager} (delivered : Delivered context outcome merged)
  (follows : Follows context merged manager)

include delivered follows

theorem directives_agree (first second : String) (listed : first ∈ context.inputs)
    (present : second ∈ context.inputs) (one other : UInt32)
    (kept : keptDirective? (outcome first) = some one)
    (set : keptDirective? (outcome second) = some other) : one = other := by
  have early : .setParallelism first one ∈ merged := (delivered.mem_iff _ first rfl).mpr
    ⟨listed, (toManagerEvents_setParallelism first _ one).mpr kept⟩
  have late : .setParallelism second other ∈ merged := (delivered.mem_iff _ second rfl).mpr
    ⟨present, (toManagerEvents_setParallelism second _ other).mpr set⟩
  cases known : manager.directive with
  | none => exact absurd early (follows.undirected known first one)
  | some directive =>
      obtain ⟨_, only⟩ := follows.directed directive.1 directive.2 known
      rw [only first one early, only second other late]

theorem splits_get? (input : String) :
    manager.splits.get? input =
      if input ∈ context.inputs ∧ 0 < splitCount (outcome input) then
        some (splitCount (outcome input))
      else none := by
  rw [follows.splits, delivered.splits]
  by_cases listed : input ∈ context.inputs
  · by_cases none : splitCount (outcome input) = 0
    · simp [none]
    · simp [listed, none, Nat.pos_of_ne_zero]
  · simp [listed]

theorem mostSplits_eq :
    mostSplits manager.splits =
      (context.inputs.map fun input => splitCount (outcome input)).foldl max 0 := by
  apply Nat.le_antisymm
  · refine (foldl_max_le_iff _ _ _).mpr ⟨Nat.zero_le _, fun count member => ?_⟩
    obtain ⟨entry, stored, rfl⟩ := List.mem_map.mp member
    have found := SortedMap.get?_eq_some_iff.mpr stored
    rw [splits_get? delivered follows] at found
    split at found
    · rename_i known
      rw [← Option.some.inj found]
      exact ((foldl_max_le_iff _ 0 _).mp (Nat.le_refl _)).2 _ (List.mem_map_of_mem known.1)
    · cases found
  · refine (foldl_max_le_iff _ _ _).mpr ⟨Nat.zero_le _, fun count member => ?_⟩
    obtain ⟨input, listed, rfl⟩ := List.mem_map.mp member
    by_cases none : splitCount (outcome input) = 0
    · omega
    · have entry : manager.splits.get? input = some (splitCount (outcome input)) := by
        simp [splits_get? delivered follows, listed, Nat.pos_of_ne_zero none]
      exact ((foldl_max_le_iff _ 0 _).mp (Nat.le_refl _)).2 _
        (List.mem_map.mpr ⟨_, SortedMap.get?_eq_some_iff.mp entry, rfl⟩)

theorem parallelism_eq :
    manager.parallelism context = UInt32.ofNat (resultingTasks context outcome) := by
  unfold parallelism resultingTasks
  cases known : manager.directive with
  | none =>
      have free : context.inputs.findSome? (fun input => keptDirective? (outcome input)) =
          none := by
        rw [List.findSome?_eq_none_iff]
        intro input listed
        cases kept : keptDirective? (outcome input) with
        | none => rfl
        | some tasks =>
            have read := (delivered.mem_iff (.setParallelism input tasks) input rfl).mpr
              ⟨listed, (toManagerEvents_setParallelism input _ tasks).mpr kept⟩
            exact absurd read (follows.undirected known input tasks)
      rw [free]
      cases context.parallelism with
      | fixed tasks => simp
      | deferred => simp [mostSplits_eq delivered follows]
  | some directive =>
      obtain ⟨read, _⟩ := follows.directed directive.1 directive.2 known
      obtain ⟨listed, event⟩ := delivered.about _ _ read rfl
      have kept := (toManagerEvents_setParallelism _ _ _).mp event
      cases first : context.inputs.findSome? fun input => keptDirective? (outcome input) with
      | none =>
          rw [List.findSome?_eq_none_iff] at first
          simp [first _ listed] at kept
      | some tasks =>
          obtain ⟨input, present, set⟩ := List.exists_of_findSome?_eq_some first
          have same := directives_agree delivered follows _ _ listed present _ _ kept set
          simp [same]

theorem entries_known (entry : String × Nat) (stored : entry ∈ manager.splits.entries) :
    entry.1 ∈ context.inputs ∧ entry.2 = splitCount (outcome entry.1) ∧ entry.2 ≠ 0 := by
  have found := SortedMap.get?_eq_some_iff.mpr stored
  rw [splits_get? delivered follows] at found
  split at found
  · rename_i known
    have same := Option.some.inj found
    exact ⟨known.1, same.symm, by omega⟩
  · cases found

theorem routing_eq (tasks : UInt32) :
    SortedMap.empty.insertMany
        (manager.splits.entries.map fun entry => (entry.1, roundRobin tasks entry.2)) =
      .ofList ((context.inputs.filter fun input => 0 < splitCount (outcome input)).map
        fun input => (input, roundRobin tasks (splitCount (outcome input)))) := by
  have named : (manager.splits.entries.map fun entry => (entry.1, roundRobin tasks entry.2)) =
      manager.splits.keys.map
        fun input => (input, roundRobin tasks (splitCount (outcome input))) := by
    rw [SortedMap.keys, List.map_map]
    apply List.map_congr_left
    intro entry stored
    simp [← (entries_known delivered follows entry stored).2.1]
  apply SortedMap.ext_get?
  intro input
  have listed : input ∈ manager.splits.keys ↔
      input ∈ context.inputs.filter fun input => 0 < splitCount (outcome input) := by
    rw [← SortedMap.contains_iff, SortedMap.contains, splits_get? delivered follows,
      List.mem_filter]
    split <;> simp_all
  rw [named, SortedMap.ofList, SortedMap.get?_insertMany_map, SortedMap.get?_insertMany_map]
  simp only [listed]

theorem decide_settles (completed : ∀ input ∈ context.inputs, (outcome input).isOk = true)
    (bounded : ∀ input ∈ context.inputs, splitCount (outcome input) < UInt32.size) :
    Settles context outcome ∧
        manager.decide context = .ok (.finalize (agreedDecision context outcome)) ∨
      ¬ Settles context outcome ∧ ∃ error, manager.decide context = .error error := by
  have tasks := parallelism_eq delivered follows
  have counted := agreedDecision_parallelism context outcome bounded
  by_cases full : resultingTasks context outcome = 0 ∧
      ∃ input ∈ context.inputs, 0 < splitCount (outcome input)
  · right
    refine ⟨fun settles => settles.room full, ?_⟩
    obtain ⟨zero, input, listed, some⟩ := full
    have found : (input, splitCount (outcome input)) ∈ manager.splits.entries := by
      rw [← SortedMap.get?_eq_some_iff, splits_get? delivered follows, if_pos ⟨listed, some⟩]
    cases entries : manager.splits.entries with
    | nil => simp [entries] at found
    | cons first rest =>
        -- every entry has splits, so the first one is refused already
        have stored : first ∈ manager.splits.entries := entries ▸ List.mem_cons_self
        refine ⟨.splitsWithoutTasks context.vertex first.1 first.2, ?_⟩
        simp [decide, entries, addRouting, (entries_known delivered follows first stored).2.2,
          tasks, zero, bind, Except.bind, Except.map]
  · left
    have agreed := fun first listed second present =>
      directives_agree delivered follows first second listed present
    refine ⟨⟨completed, agreed, full⟩, ?_⟩
    rw [decide, foldlM_addRouting]
    · simp only [agreedDecision, Except.map, tasks, routing_eq delivered follows]
    · intro entry stored
      obtain ⟨listed, same, some⟩ := entries_known delivered follows entry stored
      refine ⟨some, ?_⟩
      have manned : resultingTasks context outcome ≠ 0 := fun zero =>
        full ⟨zero, entry.1, listed, by omega⟩
      rw [tasks]
      intro zero
      exact manned (counted ▸ congrArg UInt32.toNat zero)

end Whole

def Concluded (context : Context) (outcome : String → InitializerOutcome)
    (verdict : Verdict RootInputManager) : Prop :=
  Settles context outcome ∧ verdict = .finalized (agreedDecision context outcome) [] ∨
    ¬ Settles context outcome ∧ ∃ error unread, verdict = .failed error unread

section Run

variable {context : Context} {outcome : String → InitializerOutcome} {merged : List ManagerEvent}
  (delivered : Delivered context outcome merged)
  (bounded : ∀ input ∈ context.inputs, splitCount (outcome input) < UInt32.size)

include delivered

theorem Delivered.all_read (past rest : List ManagerEvent) (whole : past ++ rest = merged)
    (completed : ∀ input ∈ context.inputs, .inputInitialized input ∈ past) : rest = [] := by
  by_contra unread
  obtain ⟨event, member⟩ := List.exists_mem_of_ne_nil rest unread
  obtain ⟨input, listed, held⟩ := delivered.known event (whole ▸ List.mem_append_right past member)
  have belongs : (event.input? = some input) = true := by
    simp [toManagerEvents_input input _ event held]
  have own := delivered.ordered input listed
  rw [← whole, List.filter_append] at own
  have nothing := completed_last input _ _ _ own
    (List.mem_filter.mpr ⟨completed input listed, by simp [ManagerEvent.input?]⟩)
  have left : event ∈ rest.filter fun event => event.input? = some input :=
    List.mem_filter.mpr ⟨member, by simpa using belongs⟩
  simp [nothing] at left

include bounded

theorem all_completed (past rest : List ManagerEvent) (manager : RootInputManager)
    (whole : past ++ rest = merged) (follows : Follows context past manager)
    (terminal : manager.waiting = []) :
    rest = [] ∧
      (Settles context outcome ∧
          manager.decide context = .ok (.finalize (agreedDecision context outcome)) ∨
        ¬ Settles context outcome ∧ ∃ error, manager.decide context = .error error) := by
  have read : ∀ input ∈ context.inputs, .inputInitialized input ∈ past := by
    intro input listed
    by_contra missing
    have waits := (follows.waiting input).mpr ⟨listed, missing⟩
    simp [terminal] at waits
  obtain rfl : rest = [] := delivered.all_read past rest whole read
  obtain rfl : past = merged := by simpa using whole
  refine ⟨rfl, decide_settles delivered follows ?_ bounded⟩
  intro input listed
  rw [← toManagerEvents_completed input]
  exact (delivered.about _ input (read input listed) rfl).2

/-- A manager that follows the events while it waits comes to the one conclusion. -/
theorem feed_concludes (past rest : List ManagerEvent) (manager : RootInputManager)
    (whole : past ++ rest = merged) (follows : Follows context past manager)
    (waits : manager.waiting ≠ []) :
    Concluded context outcome (behaviour.feed context manager rest) := by
  induction rest generalizing past manager with
  | nil =>
      -- an input that never completes has failed, and its failure would have been read
      obtain ⟨input, waiting⟩ := List.exists_mem_of_ne_nil _ waits
      obtain ⟨listed, missing⟩ := (follows.waiting input).mp waiting
      obtain rfl : past = merged := by simpa using whole
      have failed : (outcome input).isOk = false := by
        by_contra completed
        apply missing
        rw [delivered.mem_iff _ input rfl, toManagerEvents_completed]
        exact ⟨listed, by simpa using completed⟩
      obtain ⟨detail, held⟩ := (toManagerEvents_failed input _).mpr failed
      have read := (delivered.mem_iff (.inputFailed input detail) input rfl).mpr ⟨listed, held⟩
      exact absurd read (follows.going input detail)
  | cons event rest ih =>
      have step : (past ++ [event]) ++ rest = merged := by simpa using whole
      have member : event ∈ merged := by simp [← whole]
      obtain ⟨name, present, held⟩ := delivered.known event member
      have about := toManagerEvents_input name _ event held
      cases event with
      | dataInformation input index payload =>
          exact ih _ (manager.addSplit input) step (follows.split input index payload) waits
      | setParallelism input tasks =>
          simp only [Behaviour.feed, behaviour, onEvent, Scheduler.learn, setParallelism]
          cases known : manager.directive with
          | none => exact ih _ _ step (follows.direct input tasks known) waits
          | some directive =>
              obtain ⟨first, other⟩ := directive
              by_cases same : other = tasks
              · subst other
                simp only [if_true]
                exact ih _ manager step (follows.agree first input tasks known) waits
              -- two inputs that keep different directives never agree
              · simp only [if_neg same]
                refine .inr ⟨fun settles => same ?_, _, _, rfl⟩
                obtain ⟨read, _⟩ := follows.directed first other known
                have earlier : .setParallelism first other ∈ merged :=
                  whole ▸ List.mem_append_left _ read
                obtain ⟨listed, kept⟩ := delivered.about _ first earlier rfl
                obtain ⟨here, set⟩ := delivered.about _ input member rfl
                exact settles.agreed first listed input here other tasks
                  ((toManagerEvents_setParallelism _ _ _).mp kept)
                  ((toManagerEvents_setParallelism _ _ _).mp set)
      | inputInitialized input =>
          have next := follows.complete input
          simp only [Behaviour.feed, behaviour, onEvent, Scheduler.learn, complete]
          by_cases terminal : manager.waiting.filter (· ≠ input) = []
          · obtain ⟨rfl, settles⟩ := all_completed delivered bounded _ rest _ step next terminal
            simp only [terminal, List.isEmpty_nil, if_true] at settles ⊢
            rcases settles with ⟨settles, decided⟩ | ⟨stuck, error, decided⟩
            · exact .inl ⟨settles, by rw [decided]⟩
            · exact .inr ⟨stuck, error, [], by rw [decided]⟩
          · rw [if_neg (by simpa using terminal)]
            exact ih _ _ step next terminal
      | inputFailed input detail =>
          refine .inr ⟨fun settles => ?_, _, _, rfl⟩
          obtain ⟨listed, failed⟩ := delivered.about _ input member rfl
          have broken := (toManagerEvents_failed input _).mp ⟨detail, failed⟩
          simp [settles.completed input listed] at broken
      | sourceConfigured source tasks => cases about
      | taskCompleted source task size => cases about

end Run

/-- Whatever order the initializers of a vertex deliver in, its manager ends the same way: with
one decision at the last event, or with a failure. -/
theorem delivery_order_is_immaterial (context : Context) (outcome : String → InitializerOutcome)
    (initialized : context.inputs ≠ []) (distinct : context.inputs.Nodup)
    (bounded : ∀ input ∈ context.inputs, splitCount (outcome input) < UInt32.size) :
    (Settles context outcome ∧
        (agreedDecision context outcome).parallelism.toNat = resultingTasks context outcome ∧
        ∀ merged, Interleaving (inputStreams context outcome) merged →
          behaviour.serve context {} merged =
            .finalized (agreedDecision context outcome) []) ∨
      (¬ Settles context outcome ∧
        ∀ merged, Interleaving (inputStreams context outcome) merged →
          ∃ error unread, behaviour.serve context {} merged = .failed error unread) := by
  have concluded : ∀ merged, Interleaving (inputStreams context outcome) merged →
      Concluded context outcome (behaviour.serve context {} merged) := by
    intro merged mixed
    have waits : context.inputs.eraseDups ≠ [] := by
      obtain ⟨input, listed⟩ := List.exists_mem_of_ne_nil _ initialized
      exact List.ne_nil_of_mem (List.mem_eraseDups.mpr listed)
    have delivered := interleaving_delivered context outcome merged distinct mixed
    have fed := feed_concludes delivered bounded [] merged _ rfl (follows_start context) waits
    simpa [Behaviour.serve, behaviour, start, waits] using fed
  by_cases settles : Settles context outcome
  · left
    refine ⟨settles, agreedDecision_parallelism context outcome bounded, fun merged mixed => ?_⟩
    rcases concluded merged mixed with ⟨_, decided⟩ | ⟨stuck, _⟩
    · exact decided
    · exact absurd settles stuck
  · right
    refine ⟨settles, fun merged mixed => ?_⟩
    rcases concluded merged mixed with ⟨settled, _⟩ | ⟨_, failed⟩
    · exact absurd settled settles
    · exact failed

/-- Two inputs of a deferred vertex, one with three splits and one with a directive. -/
theorem directed_inputs_settle :
    let context : Context :=
      { vertex := "scan", parallelism := .deferred, inputs := ["orders", "items"] }
    let outcome := fun input : String =>
      if input = "orders" then .ok [.dataInformation [], .dataInformation [], .dataInformation []]
      else (.ok [.setParallelism 2] : InitializerOutcome)
    ∀ merged, Interleaving (inputStreams context outcome) merged →
      behaviour.serve context {} merged =
        .finalized { parallelism := 2, routing := .ofList [("orders", [0, 1, 0])] } [] := by
  intro context outcome merged mixed
  rcases delivery_order_is_immaterial context outcome (by decide) (by decide) (by decide) with
    ⟨_, _, decided⟩ | ⟨_, failed⟩
  · have value : agreedDecision context outcome =
        { parallelism := 2, routing := .ofList [("orders", [0, 1, 0])] } := by decide
    exact value ▸ decided merged mixed
  · obtain ⟨error, unread, stuck⟩ := failed _ (Interleaving.flatten _)
    have served : behaviour.serve context {} (inputStreams context outcome).flatten =
        .finalized { parallelism := 2, routing := .ofList [("orders", [0, 1, 0])] } [] := by
      decide
    rw [served] at stuck
    cases stuck

end RootInputManager

end ElasticJob
