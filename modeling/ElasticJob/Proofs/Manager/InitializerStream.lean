import ElasticJob.Manager.Event
import Mathlib.Data.List.Nodup

/-!
The stream of events that an initializer comes to. All of it is about one input, the completion or
the failure of the input stands at its end and nowhere else, and the splits and the directive that
a manager hears of are those that were emitted.
-/

namespace ElasticJob

def InitializerEvent.directive? : InitializerEvent → Option UInt32
  | .setParallelism tasks => some tasks
  | .dataInformation _ => none

def emitted : InitializerOutcome → List InitializerEvent
  | .ok events => events
  | .error _ => []

def keptDirective? (outcome : InitializerOutcome) : Option UInt32 :=
  (emitted outcome).findSome? InitializerEvent.directive?

def splitCount (outcome : InitializerOutcome) : Nat :=
  (emitted outcome).countP (·.directive?.isNone)

def ManagerEvent.input? : ManagerEvent → Option String
  | .dataInformation input _ _ => some input
  | .setParallelism input _ => some input
  | .inputInitialized input => some input
  | .inputFailed input _ => some input
  | .sourceConfigured _ _ => none
  | .taskCompleted _ _ _ => none

def ManagerEvent.isSplitOf (input : String) : ManagerEvent → Bool
  | .dataInformation other _ _ => other = input
  | _ => false

section Streams

variable (input : String)

theorem numberEvents_input (index : Nat) (directed : Bool) (events : List InitializerEvent) :
    ∀ event ∈ numberEvents input index directed events, event.input? = some input := by
  induction events generalizing index directed with
  | nil => simp [numberEvents, ManagerEvent.input?]
  | cons first rest ih =>
      cases first with
      | dataInformation payload => simpa [numberEvents, ManagerEvent.input?] using ih _ _
      | setParallelism tasks =>
          cases directed with
          | true => simpa [numberEvents] using ih _ _
          | false => simpa [numberEvents, ManagerEvent.input?] using ih _ _

/-- The completion of an input is the last event about it, and comes once. -/
theorem numberEvents_ends (index : Nat) (directed : Bool) (events : List InitializerEvent) :
    ∃ front, numberEvents input index directed events = front ++ [.inputInitialized input] ∧
      .inputInitialized input ∉ front ∧ ∀ detail, .inputFailed input detail ∉ front := by
  induction events generalizing index directed with
  | nil => exact ⟨[], by simp [numberEvents]⟩
  | cons first rest ih =>
      cases first with
      | dataInformation payload =>
          obtain ⟨front, same, fresh, going⟩ := ih (index + 1) directed
          refine ⟨.dataInformation input (UInt32.ofNat index) payload :: front, ?_⟩
          simp [numberEvents, same, fresh, going]
      | setParallelism tasks =>
          obtain ⟨front, same, fresh, going⟩ := ih index true
          cases directed with
          | true => exact ⟨front, by simp [numberEvents, same, fresh, going]⟩
          | false =>
              refine ⟨.setParallelism input tasks :: front, ?_⟩
              simp [numberEvents, same, fresh, going]

theorem numberEvents_setParallelism (index : Nat) (directed : Bool)
    (events : List InitializerEvent) (tasks : UInt32) :
    .setParallelism input tasks ∈ numberEvents input index directed events ↔
      directed = false ∧ events.findSome? InitializerEvent.directive? = some tasks := by
  induction events generalizing index directed with
  | nil => simp [numberEvents]
  | cons first rest ih =>
      cases first with
      | dataInformation payload =>
          simp [numberEvents, ih, List.findSome?_cons, InitializerEvent.directive?]
      | setParallelism first =>
          cases directed with
          | true => simp [numberEvents, ih]
          | false =>
              simp [numberEvents, ih, List.findSome?_cons, InitializerEvent.directive?, eq_comm]

theorem numberEvents_splits (index : Nat) (directed : Bool) (events : List InitializerEvent) :
    (numberEvents input index directed events).countP (·.isSplitOf input) =
      events.countP (·.directive?.isNone) := by
  induction events generalizing index directed with
  | nil => simp [numberEvents, ManagerEvent.isSplitOf]
  | cons first rest ih =>
      cases first with
      | dataInformation payload =>
          rw [numberEvents, List.countP_cons_of_pos (by simp [ManagerEvent.isSplitOf]),
            List.countP_cons_of_pos (by simp [InitializerEvent.directive?]), ih]
      | setParallelism tasks =>
          rw [List.countP_cons_of_neg (by simp [InitializerEvent.directive?]), ← ih index true]
          cases directed with
          | true => rfl
          | false => rw [numberEvents, if_neg (by simp),
              List.countP_cons_of_neg (by simp [ManagerEvent.isSplitOf])]

variable (outcome : InitializerOutcome)

theorem toManagerEvents_input :
    ∀ event ∈ toManagerEvents input outcome, event.input? = some input := by
  cases outcome with
  | ok events => exact numberEvents_input input 0 false events
  | error detail => simp [toManagerEvents, ManagerEvent.input?]

theorem toManagerEvents_setParallelism (tasks : UInt32) :
    .setParallelism input tasks ∈ toManagerEvents input outcome ↔
      keptDirective? outcome = some tasks := by
  cases outcome with
  | ok events => simp [toManagerEvents, numberEvents_setParallelism, keptDirective?, emitted]
  | error detail => simp [toManagerEvents, keptDirective?, emitted]

theorem toManagerEvents_splits :
    (toManagerEvents input outcome).countP (·.isSplitOf input) = splitCount outcome := by
  cases outcome with
  | ok events => exact numberEvents_splits input 0 false events
  | error detail => simp [toManagerEvents, splitCount, emitted, ManagerEvent.isSplitOf]

theorem toManagerEvents_completed :
    .inputInitialized input ∈ toManagerEvents input outcome ↔ outcome.isOk = true := by
  cases outcome with
  | ok events =>
      obtain ⟨front, same, _⟩ := numberEvents_ends input 0 false events
      simp [toManagerEvents, same, Except.isOk, Except.toBool]
  | error detail => simp [toManagerEvents, Except.isOk, Except.toBool]

theorem toManagerEvents_failed :
    (∃ detail, .inputFailed input detail ∈ toManagerEvents input outcome) ↔
      outcome.isOk = false := by
  cases outcome with
  | ok events =>
      obtain ⟨front, same, _, going⟩ := numberEvents_ends input 0 false events
      simp [toManagerEvents, same, going, Except.isOk, Except.toBool]
  | error detail => simp [toManagerEvents, Except.isOk, Except.toBool]

theorem completed_last (past rest : List ManagerEvent)
    (whole : past ++ rest = toManagerEvents input outcome)
    (read : .inputInitialized input ∈ past) : rest = [] := by
  cases outcome with
  | error detail =>
      have listed : ManagerEvent.inputInitialized input ∈ past ++ rest :=
        List.mem_append_left rest read
      simp [whole, toManagerEvents] at listed
  | ok events =>
      obtain ⟨front, same, fresh, _⟩ := numberEvents_ends input 0 false events
      rw [toManagerEvents, same] at whole
      rcases List.eq_nil_or_concat rest with rfl | ⟨early, last, rfl⟩
      · rfl
      · rw [List.concat_eq_append, ← List.append_assoc] at whole
        have before : past ++ early = front := (List.append_inj' whole rfl).1
        exact absurd (before ▸ List.mem_append_left early read) fresh

end Streams

end ElasticJob
