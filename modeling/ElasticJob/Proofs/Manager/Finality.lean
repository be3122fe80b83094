import ElasticJob.Reconfiguration
import Mathlib.Data.List.Basic

/-!
Any calls on a lifecycle, in any order and any number. A call is refused and changes nothing, or it
does what the phase lets it do; how a call can go is said once, and what a sequence of calls leaves
behind follows from it. A decision is held exactly in the final phase, it is that of the first call
that was accepted, and neither a final nor an aborted lifecycle changes any more.
-/

namespace ElasticJob

namespace Lifecycle

inductive Call where
  | awaitEvents
  | beginEvent
  | endEvent
  | finalize (decision : Reconfiguration)
  | abort

inductive Reply where
  | done
  | decided (decision : Reconfiguration)
  /-- Whether the lifecycle was not final yet. -/
  | stopped (undecided : Bool)

def perform (life : Lifecycle) : Call → Attempt Reply
  | .awaitEvents => (life.awaitEvents.1, life.awaitEvents.2.map fun _ => .done)
  | .beginEvent => (life.beginEvent.1, life.beginEvent.2.map fun _ => .done)
  | .endEvent => (life.endEvent, .ok .done)
  | .finalize decision => ((life.finalize decision).1, (life.finalize decision).2.map .decided)
  | .abort => (life.abort.1, .ok (.stopped life.abort.2))

def performAll (life : Lifecycle) (calls : List Call) : Lifecycle :=
  calls.foldl (fun current call => (current.perform call).1) life

abbrev Answered := Call × Except JobError Reply

def answers (life : Lifecycle) : List Call → List Answered
  | [] => []
  | call :: rest => (call, (life.perform call).2) :: (life.perform call).1.answers rest

def accepted? : Answered → Option Reconfiguration
  | (.finalize decision, .ok _) => some decision
  | _ => none

def isWait : Answered → Bool
  | (.awaitEvents, .ok _) => true
  | _ => false

def Admits (life : Lifecycle) : Call → Prop
  | .awaitEvents => life.phase = .uninitialized
  | .beginEvent => life.phase = .awaitingEvents ∨ life.phase = .reconfiguring
  | .finalize _ => life.phase ≠ .finalized ∧ life.phase ≠ .aborted
  | .endEvent | .abort => True

inductive Move (life : Lifecycle) : Call → Lifecycle → Except JobError Reply → Prop where
  | waits (fresh : life.phase = .uninitialized) :
      Move life .awaitEvents { life with phase := .awaitingEvents } (.ok .done)
  | begins (ready : life.phase = .awaitingEvents ∨ life.phase = .reconfiguring) :
      Move life .beginEvent { life with phase := .reconfiguring } (.ok .done)
  | ends (busy : life.phase = .reconfiguring) :
      Move life .endEvent { life with phase := .awaitingEvents } (.ok .done)
  | idles (idle : life.phase ≠ .reconfiguring) : Move life .endEvent life (.ok .done)
  | decides (decision : Reconfiguration)
      (going : life.phase ≠ .finalized ∧ life.phase ≠ .aborted) :
      Move life (.finalize decision)
        { life with phase := .finalized, decision := some decision } (.ok (.decided decision))
  | stops (undecided : life.phase ≠ .finalized) :
      Move life .abort { life with phase := .aborted } (.ok (.stopped true))
  | stands (final : life.phase = .finalized) : Move life .abort life (.ok (.stopped false))
  | refuses (call : Call) (error : JobError) (shut : ¬ life.Admits call) :
      Move life call life (.error error)

theorem perform_move (life : Lifecycle) (call : Call) :
    Move life call (life.perform call).1 (life.perform call).2 := by
  cases call with
  | awaitEvents =>
      rw [perform, awaitEvents]
      split
      next fresh => exact .waits fresh
      next used => exact .refuses _ _ used
  | beginEvent =>
      rw [perform, beginEvent]
      split
      next waiting => exact .begins (.inl waiting)
      next busy => exact .begins (.inr busy)
      next apart idle => exact .refuses _ _ (not_or.mpr ⟨apart, idle⟩)
  | endEvent =>
      rw [perform, endEvent]
      split
      next busy => exact .ends busy
      next idle => exact .idles idle
  | finalize decision =>
      rw [perform, finalize]
      split
      next final => exact .refuses _ _ fun going => going.1 final
      next stopped => exact .refuses _ _ fun going => going.2 stopped
      next undecided going => exact .decides decision ⟨undecided, going⟩
  | abort =>
      rw [perform, abort]
      split
      next final => exact .stands final
      next undecided => exact .stops undecided

section Moves

variable {life after : Lifecycle} {call : Call} {answer : Except JobError Reply}

theorem Move.of_error {error : JobError} (move : Move life call after (.error error)) :
    after = life := by
  cases move
  rfl

theorem Move.admits_iff (move : Move life call after answer) :
    (∃ reply, answer = .ok reply) ↔ life.Admits call := by
  cases move with
  | waits fresh => exact ⟨fun _ => fresh, fun _ => ⟨_, rfl⟩⟩
  | begins ready => exact ⟨fun _ => ready, fun _ => ⟨_, rfl⟩⟩
  | ends => exact ⟨fun _ => trivial, fun _ => ⟨_, rfl⟩⟩
  | idles => exact ⟨fun _ => trivial, fun _ => ⟨_, rfl⟩⟩
  | decides decision going => exact ⟨fun _ => going, fun _ => ⟨_, rfl⟩⟩
  | stops => exact ⟨fun _ => trivial, fun _ => ⟨_, rfl⟩⟩
  | stands => exact ⟨fun _ => trivial, fun _ => ⟨_, rfl⟩⟩
  | refuses call error shut =>
      constructor
      · rintro ⟨_, ⟨⟩⟩
      · exact fun admitted => absurd admitted shut

theorem Move.of_terminated (move : Move life call after answer)
    (terminated : life.phase = .finalized ∨ life.phase = .aborted) : after = life := by
  cases move with
  | waits fresh => simp [fresh] at terminated
  | begins ready => rcases ready with waiting | busy <;> simp_all
  | ends busy => simp [busy] at terminated
  | idles => rfl
  | decides decision going => exact (terminated.elim going.1 going.2).elim
  | stops undecided =>
      have aborted := terminated.resolve_left undecided
      rw [← aborted]
  | stands => rfl
  | refuses => rfl

theorem Move.of_used (move : Move life call after answer) (used : life.phase ≠ .uninitialized) :
    after.phase ≠ .uninitialized := by
  cases move with
  | idles => exact used
  | stands => exact used
  | refuses => exact used
  | _ => nofun

theorem Move.of_isWait (move : Move life call after answer) (waited : isWait (call, answer)) :
    life.phase = .uninitialized ∧ after.phase ≠ .uninitialized := by
  cases move with
  | waits fresh => exact ⟨fresh, nofun⟩
  | _ => simp [isWait] at waited

def Settled (life : Lifecycle) : Prop :=
  life.decision.isSome ↔ life.phase = .finalized

theorem Settled.undecided (settled : life.Settled) (going : life.phase ≠ .finalized) :
    life.decision = none :=
  Option.not_isSome_iff_eq_none.mp (mt settled.mp going)

theorem Move.settled (move : Move life call after answer) (settled : life.Settled) :
    after.Settled := by
  cases move with
  | waits fresh => simp [Settled, settled.undecided (by simp [fresh])]
  | begins ready =>
      have going : life.phase ≠ .finalized := by rcases ready with same | same <;> simp [same]
      simp [Settled, settled.undecided going]
  | ends busy => simp [Settled, settled.undecided (by simp [busy])]
  | idles => exact settled
  | decides => simp [Settled]
  | stops undecided => simp [Settled, settled.undecided undecided]
  | stands => exact settled
  | refuses => exact settled

/-- A call leaves the decision that was there, or the one that it was accepted with. -/
theorem Move.decision (move : Move life call after answer) (settled : life.Settled) :
    after.decision = life.decision.or (accepted? (call, answer)) := by
  cases move with
  | decides decision going => simp [accepted?, settled.undecided going.1]
  | _ => simp [accepted?]

end Moves

section Runs

variable {life : Lifecycle} (calls : List Call)

theorem performAll_of_terminated (terminated : life.phase = .finalized ∨ life.phase = .aborted) :
    life.performAll calls = life := by
  induction calls with
  | nil => rfl
  | cons call rest ih =>
      rw [performAll, List.foldl_cons, (life.perform_move call).of_terminated terminated]
      exact ih

theorem Settled.performAll (settled : life.Settled) : (life.performAll calls).Settled := by
  apply List.foldlRecOn calls (motive := Settled)
  · exact settled
  · exact fun current kept call _ => (current.perform_move call).settled kept

theorem Settled.performAll_decision (settled : life.Settled) :
    (life.performAll calls).decision =
      life.decision.or ((life.answers calls).findSome? accepted?) := by
  induction calls generalizing life with
  | nil => simp [Lifecycle.performAll, answers]
  | cons call rest ih =>
      have move := life.perform_move call
      rw [Lifecycle.performAll, List.foldl_cons]
      refine (ih (move.settled settled)).trans ?_
      rw [move.decision settled, Option.or_assoc, answers, List.findSome?_cons]
      cases accepted? (call, (life.perform call).2) <;> simp

/-- A lifecycle that is no longer fresh is never made to wait, so a fresh one is once at most. -/
theorem countP_isWait_le :
    (life.answers calls).countP isWait ≤ if life.phase = .uninitialized then 1 else 0 := by
  induction calls generalizing life with
  | nil => simp [answers]
  | cons call rest ih =>
      have move := life.perform_move call
      have later := @ih (life.perform call).1
      rw [answers, List.countP_cons]
      by_cases waited : isWait (call, (life.perform call).2) = true
      · obtain ⟨fresh, used⟩ := move.of_isWait waited
        rw [if_neg used] at later
        rw [if_pos waited, if_pos fresh]
        omega
      · rw [if_neg waited]
        by_cases fresh : life.phase = .uninitialized
        · rw [if_pos fresh]
          exact Nat.le_trans later (by split <;> decide)
        · rw [if_neg (move.of_used fresh)] at later
          rwa [if_neg fresh]

end Runs

/-- Whatever is called on a fresh lifecycle: it holds a decision exactly in the final phase, that of
the first call that was accepted; a final or aborted lifecycle stays as it is; a refused call
changes nothing; events are awaited once at most, and begin exactly in the two phases for them; and
an abort answers false exactly where a decision is held. -/
theorem first_accepted_decision_stands (vertex : String) (calls : List Call) :
    let life := (create vertex).performAll calls
    let answers := (create vertex).answers calls
    (life.decision.isSome ↔ life.phase = .finalized) ∧
    life.decision = answers.findSome? accepted? ∧
    (life.phase = .finalized ∨ life.phase = .aborted → ∀ later, life.performAll later = life) ∧
    (∀ call error, (life.perform call).2 = .error error → (life.perform call).1 = life) ∧
    answers.countP isWait ≤ 1 ∧
    ((∃ reply, (life.perform .beginEvent).2 = .ok reply) ↔
      life.phase = .awaitingEvents ∨ life.phase = .reconfiguring) ∧
    ((life.perform .abort).2 = .ok (.stopped false) ↔ life.decision.isSome) := by
  intro life answers
  have new : (create vertex).Settled := by simp [Settled, create]
  have settled : life.Settled := new.performAll calls
  refine ⟨settled, ?_, fun terminated later => performAll_of_terminated later terminated,
    fun call error refused => ?_, countP_isWait_le calls,
    (life.perform_move .beginEvent).admits_iff, ?_⟩
  · exact (new.performAll_decision calls).trans (Option.none_or)
  · have move := life.perform_move call
    rw [refused] at move
    exact move.of_error
  · have move := life.perform_move .abort
    generalize (life.perform .abort).1 = after at move
    generalize (life.perform .abort).2 = answer at move ⊢
    cases move with
    | stops undecided => simp [settled.undecided undecided]
    | stands final => simpa using settled.mpr final
    | refuses _ _ shut => exact absurd trivial shut

/-- A second decision and an abort come too late. -/
theorem second_decision_is_refused :
    let life := (create "reduce").performAll
      [.awaitEvents, .beginEvent, .endEvent, .beginEvent, .finalize { parallelism := 5 }]
    life.decision = some { parallelism := 5 } ∧
      (∀ later, life.performAll later = life) ∧
      (life.perform (.finalize { parallelism := 7 })).1 = life ∧
      (life.perform .abort).2 = .ok (.stopped false) := by
  intro life
  obtain ⟨_, decided, ended, refused, _, _, aborted⟩ := first_accepted_decision_stands "reduce"
    [.awaitEvents, .beginEvent, .endEvent, .beginEvent, .finalize { parallelism := 5 }]
  refine ⟨decided, ended (.inl rfl), refused (.finalize { parallelism := 7 }) _ rfl, ?_⟩
  exact aborted.mpr rfl

end Lifecycle

end ElasticJob
