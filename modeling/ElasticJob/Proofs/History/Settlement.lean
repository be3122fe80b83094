import ElasticJob.Proofs.History.Accounting
import Mathlib.Algebra.GroupWithZero.Nat

/-!
What becomes of accepted events until a stop returns. Whatever leaves the counter was taken by the
store, or was given up by the stop that says so, or was in a batch that the store refused.
-/

namespace ElasticJob.HistoryConsumer

variable {ε : Type}

@[simp] def acknowledges (consumer : HistoryConsumer ε) : HistoryStep ε → List ε
  | .answer true => if consumer.stage = .calling then consumer.service.inFlight else []
  | _ => []

/-- The events of a refused batch, which no longer count once the rest is over. -/
@[simp] def writesOff (consumer : HistoryConsumer ε) : HistoryStep ε → List ε
  | .rest => if consumer.stage = .resting then consumer.service.inFlight else []
  | _ => []

@[simp] def drops (consumer : HistoryConsumer ε) : HistoryStep ε → List Nat
  | .abandon => if consumer.service.isStopped then [consumer.service.abandon.2] else []
  | _ => []

theorem resume_pending (consumer : HistoryConsumer ε) :
    consumer.resume.service.pending =
      consumer.service.pending - consumer.service.inFlight.length := rfl

section Steps

variable {accepted : List ε} {consumer : HistoryConsumer ε}
  (accounted : Accounted accepted consumer)

include accounted

/-- What a step takes off the counter was accepted, and went to the store or was given up. -/
theorem Accounted.balance (step : HistoryStep ε) :
    (consumer.perform step).service.pending + (consumer.acknowledges step).length +
        (consumer.writesOff step).length + (consumer.drops step).sum =
      consumer.service.pending + (consumer.accepts step).length := by
  have covered := accounted.covered
  cases step with
  | handle event =>
      rcases consumer.service.handle_cases event with refused | ⟨_, _, _, taken⟩
      · simp [HistoryConsumer.perform, refused]
      · simp [HistoryConsumer.perform, taken, HistoryService.count]
  | receive =>
      rcases consumer.receive_cases with same | ⟨_, _, died⟩ | ⟨_, _, _, _, _, taken⟩
      · simp [HistoryConsumer.perform, same]
      · simp [HistoryConsumer.perform, died, HistoryConsumer.leaveBehind, HistoryService.orphan]
      · simp [HistoryConsumer.perform, taken]
  | ship =>
      simp only [HistoryConsumer.perform, HistoryConsumer.ship]
      split <;> simp
  | answer taken =>
      by_cases calling : consumer.stage = .calling
      · cases taken with
        | true =>
            simp only [HistoryConsumer.perform, HistoryConsumer.answer, calling, if_true,
              consumer.resume_pending, acknowledges, writesOff, drops, accepts, List.length_nil,
              List.sum_nil]
            omega
        | false => simp [HistoryConsumer.perform, HistoryConsumer.answer, calling]
      · cases taken <;> simp [HistoryConsumer.perform, HistoryConsumer.answer, calling]
  | rest =>
      by_cases resting : consumer.stage = .resting
      · simp only [HistoryConsumer.perform, HistoryConsumer.rest, resting, if_true,
          consumer.resume_pending, acknowledges, writesOff, drops, accepts, List.length_nil,
          List.sum_nil]
        omega
      · simp [HistoryConsumer.perform, HistoryConsumer.rest, resting]
  | leave =>
      simp only [HistoryConsumer.perform, HistoryConsumer.leave]
      split <;> simp [HistoryConsumer.leaveBehind, HistoryService.orphan]
  | close => simp [HistoryConsumer.perform, HistoryService.close]
  | abandon =>
      by_cases stopped : consumer.service.isStopped = true <;>
        simp [HistoryConsumer.perform, HistoryConsumer.abandon, HistoryConsumer.leaveBehind,
          stopped, HistoryService.abandon]

theorem Accounted.run_balance (steps : List (HistoryStep ε)) :
    (consumer.run steps).service.pending + (consumer.gather acknowledges steps).length +
        (consumer.gather writesOff steps).length + (consumer.gather drops steps).sum =
      consumer.service.pending + (consumer.gather accepts steps).length := by
  induction steps generalizing accepted consumer with
  | nil => rfl
  | cons step rest ih =>
      have now := accounted.balance step
      have later := ih (accounted.perform step)
      simp only [gather, List.length_append, List.sum_append]
      change ((consumer.perform step).run rest).service.pending + _ + _ + _ = _
      omega

end Steps

/-- When a stop returns, every accepted event was taken by the store, or is among the dropped ones,
or was in a refused batch whose rest was over. -/
theorem every_event_is_settled (capacity batchLimit : Nat) (steps : List (HistoryStep ε))
    (stops : .close ∈ steps) :
    let fresh : HistoryConsumer ε := start true capacity batchLimit
    let whole := steps ++ [.abandon]
    (fresh.gather accepts whole).length = (fresh.gather acknowledges whole).length +
        (fresh.gather writesOff whole).length + (fresh.gather drops whole).sum ∧
      ((fresh.gather accepts whole).length = (fresh.gather acknowledges whole).length +
          (fresh.gather drops whole).sum ↔ fresh.gather writesOff whole = []) := by
  intro fresh whole
  have stopped := (fresh.run_frame steps).2.2.mpr (.inr stops)
  have none : (fresh.run whole).service.pending = 0 := by
    rw [run, List.foldl_append]
    change ((fresh.run steps).abandon).service.pending = 0
    simp [abandon, stopped, leaveBehind, HistoryService.abandon]
  have accounted : Accounted [] fresh := start_accounted true capacity batchLimit
  have balance := accounted.run_balance whole
  have empty : fresh.service.pending = 0 := rfl
  refine ⟨by omega, ?_⟩
  rw [← List.length_eq_zero_iff]
  omega

def partlyShippedRun : List (HistoryStep Nat) :=
  [.handle 0, .handle 1, .receive, .ship, .answer false, .rest, .receive, .ship, .answer true,
    .handle 2, .close]

theorem partly_shipped_events_are_settled :
    let fresh : HistoryConsumer Nat := start true 2 1
    let whole := partlyShippedRun ++ [.abandon]
    .close ∈ partlyShippedRun ∧ fresh.gather accepts whole = [0, 1, 2] ∧
      fresh.gather acknowledges whole = [1] ∧ fresh.gather writesOff whole = [0] ∧
      fresh.gather drops whole = [1] ∧
      (fresh.gather accepts whole).length = (fresh.gather acknowledges whole).length +
        (fresh.gather writesOff whole).length + (fresh.gather drops whole).sum :=
  ⟨by decide, by decide, by decide, by decide, by decide,
    (every_event_is_settled 2 1 partlyShippedRun (by decide)).1⟩

/-- A refused event is neither at the store nor among the dropped ones. -/
theorem refused_event_is_not_dropped :
    let fresh : HistoryConsumer Nat := start true 10 1
    let steps := [.handle 0, .receive, .ship, .answer false, .rest, .close, .leave, .abandon]
    (fresh.gather accepts steps).length ≠
      (fresh.gather acknowledges steps).length + (fresh.gather drops steps).sum := by
  decide

end ElasticJob.HistoryConsumer
