import ElasticJob.History.Service
import Mathlib.Data.List.Basic

/-!
Where the accepted events of a history service are: in the batches that the store was called with,
in the batch in hand, in the queue, or lost with the consumer. No step puts one before another, and
the counter tells how many of them are still open.
-/

namespace ElasticJob

namespace HistoryService

variable {ε : Type} (service : HistoryService ε) (event : ε)

theorem handle_cases :
    service.handle event = (service, false) ∨
      service.isStopped = false ∧ service.isClosed = false ∧
        service.queue.length < service.capacity ∧
        service.handle event = ({ service.count 1 with
          queue := service.queue ++ [event] }, true) := by
  unfold handle
  split
  · exact .inl rfl
  · rename_i running
    dsimp only
    split
    · exact .inl (by simp [count, uncount])
    · rename_i room
      simp only [Bool.or_eq_true, decide_eq_true_eq, not_or, Bool.not_eq_true] at room
      exact .inr ⟨by simpa using running, room.1, Nat.lt_of_not_le room.2, rfl⟩

theorem handle_eq_true_iff :
    (service.handle event).2 = true ↔
      service.isStopped = false ∧ service.isClosed = false ∧
        service.queue.length < service.capacity := by
  constructor
  · intro taken
    rcases service.handle_cases event with refused | ⟨running, opened, space, _⟩
    · simp [refused] at taken
    · exact ⟨running, opened, space⟩
  · rintro ⟨running, opened, space⟩
    simp [handle, running, opened, Nat.not_le.mpr space]

theorem hasMore_iff :
    service.hasMore = true ↔
      service.inFlight.length < service.batchLimit ∧
        ∃ event rest, service.queue = event :: rest := by
  unfold hasMore
  cases service.queue <;> simp

end HistoryService

namespace HistoryConsumer

variable {ε : Type}

def gather {α : Type} (brings : HistoryConsumer ε → HistoryStep ε → List α)
    (consumer : HistoryConsumer ε) : List (HistoryStep ε) → List α
  | [] => []
  | step :: rest => brings consumer step ++ gather brings (consumer.perform step) rest

@[simp] def accepts (consumer : HistoryConsumer ε) : HistoryStep ε → List ε
  | .handle event => if (consumer.service.handle event).2 then [event] else []
  | _ => []

def unshipped (consumer : HistoryConsumer ε) : List ε :=
  if consumer.stage = .filling then consumer.service.inFlight else []

theorem receive_cases (consumer : HistoryConsumer ε) :
    consumer.receive = consumer ∨
      (consumer.stage = .waiting ∧ unreservable ≤ consumer.service.batchLimit ∧
        consumer.receive = consumer.leaveBehind consumer.service.orphan) ∨
      ∃ event rest, consumer.service.queue = event :: rest ∧
        (consumer.stage = .waiting ∨ consumer.stage = .filling) ∧
        consumer.service.inFlight.length < consumer.service.batchLimit ∧
        consumer.receive = { consumer with
          service := { consumer.service with
            queue := rest
            inFlight := consumer.service.inFlight ++ [event] }
          stage := .filling } := by
  unfold receive
  split
  · rename_i more
    obtain ⟨room, event, rest, queued⟩ := consumer.service.hasMore_iff.mp more
    have taken : consumer.takeNext = { consumer with
        service := { consumer.service with
          queue := rest
          inFlight := consumer.service.inFlight ++ [event] }
        stage := .filling } := by
      simp [takeNext, HistoryService.take, queued]
    split
    · rename_i waits
      split
      · rename_i unreservable
        exact .inr (.inl ⟨waits, unreservable, rfl⟩)
      · exact .inr (.inr ⟨event, rest, queued, .inl waits, room, taken⟩)
    · rename_i fills
      exact .inr (.inr ⟨event, rest, queued, .inr fills, room, taken⟩)
    · exact .inl rfl
  · exact .inl rfl

theorem perform_frame (consumer : HistoryConsumer ε) (step : HistoryStep ε) :
    (consumer.perform step).service.capacity = consumer.service.capacity ∧
      (consumer.perform step).service.batchLimit = consumer.service.batchLimit ∧
      ((consumer.perform step).service.isStopped = true ↔
        consumer.service.isStopped = true ∨ step = .close) := by
  cases step with
  | handle event =>
      rcases consumer.service.handle_cases event with refused | ⟨_, _, _, taken⟩
      · simp [perform, refused]
      · simp [perform, taken, HistoryService.count]
  | receive =>
      rcases consumer.receive_cases with same | ⟨_, _, died⟩ | ⟨_, _, _, _, _, taken⟩
      · simp [perform, same]
      · simp [perform, died, leaveBehind, HistoryService.orphan]
      · simp [perform, taken]
  | ship => simp only [perform, ship]; split <;> simp
  | answer taken =>
      simp only [perform, answer]
      split
      · cases taken <;> simp [resume, HistoryService.finishBatch, HistoryService.uncount]
      · simp
  | rest =>
      simp only [perform, rest]
      split <;> simp [resume, HistoryService.finishBatch, HistoryService.uncount]
  | leave =>
      simp only [perform, leave]
      split <;> simp [leaveBehind, HistoryService.orphan]
  | close => simp [perform, HistoryService.close]
  | abandon =>
      simp only [perform, abandon]
      split <;> simp [leaveBehind, HistoryService.abandon, HistoryService.orphan]

theorem run_frame (consumer : HistoryConsumer ε) (steps : List (HistoryStep ε)) :
    (consumer.run steps).service.capacity = consumer.service.capacity ∧
      (consumer.run steps).service.batchLimit = consumer.service.batchLimit ∧
      ((consumer.run steps).service.isStopped = true ↔
        consumer.service.isStopped = true ∨ .close ∈ steps) := by
  induction steps generalizing consumer with
  | nil => simp [run]
  | cons step rest ih =>
      obtain ⟨capacity, limit, stopped⟩ := consumer.perform_frame step
      obtain ⟨lastCapacity, lastLimit, lastStopped⟩ := ih (consumer.perform step)
      refine ⟨lastCapacity.trans capacity, lastLimit.trans limit, lastStopped.trans ?_⟩
      rw [stopped, List.mem_cons, or_assoc, @eq_comm _ step]

/-- What holds between two steps, where these events were accepted so far. -/
structure Accounted (accepted : List ε) (consumer : HistoryConsumer ε) : Prop where
  room : 0 < consumer.service.batchLimit
  fits : consumer.service.inFlight.length ≤ consumer.service.batchLimit
  free : consumer.stage = .waiting ∨ consumer.stage = .gone → consumer.service.inFlight = []
  held : consumer.stage ≠ .waiting → consumer.stage ≠ .gone → consumer.service.inFlight ≠ []
  gone : consumer.stage = .gone → consumer.service.isClosed = true ∧ consumer.service.queue = []
  closed : consumer.service.isClosed = true →
    consumer.service.isStopped = true ∨ unreservable ≤ consumer.service.batchLimit
  covered : consumer.service.queue.length + consumer.service.inFlight.length ≤
    consumer.service.pending
  exact : consumer.service.batchLimit < unreservable →
    consumer.service.pending =
      consumer.service.queue.length + consumer.service.inFlight.length
  batches : ∀ batch ∈ consumer.calls, batch ≠ [] ∧ batch.length ≤ consumer.service.batchLimit
  /-- Only what went with the consumer is in none of these places. -/
  ordered : ∃ lost, (consumer.stage ≠ .gone → lost = []) ∧
    consumer.calls.flatten ++ consumer.unshipped ++ consumer.service.queue ++ lost = accepted

theorem start_accounted (enabled : Bool) (capacity batchLimit : Nat) :
    Accounted [] (start enabled capacity batchLimit : HistoryConsumer ε) where
  room := Nat.lt_of_lt_of_le Nat.one_pos (Nat.le_max_right batchLimit 1)
  fits := Nat.zero_le _
  free _ := rfl
  held waits here := by cases enabled <;> simp [start] at waits here
  gone absent := by cases enabled <;> simp [start] at absent ⊢; exact ⟨rfl, rfl⟩
  closed shut := .inl shut
  covered := Nat.le_refl 0
  exact _ := rfl
  batches batch called := by cases called
  ordered := ⟨[], fun _ => rfl, by cases enabled <;> rfl⟩

section Steps

variable {accepted : List ε} {consumer : HistoryConsumer ε}
  (accounted : Accounted accepted consumer)

include accounted

theorem Accounted.handle (event : ε) :
    Accounted (accepted ++ consumer.accepts (.handle event))
      (consumer.perform (.handle event)) := by
  rcases consumer.service.handle_cases event with refused | ⟨running, opened, space, taken⟩
  · simpa [perform, accepts, refused] using accounted
  · have present : consumer.stage ≠ .gone := fun absent => by
      simp [(accounted.gone absent).1] at opened
    obtain ⟨lost, none, order⟩ := accounted.ordered
    obtain rfl := none present
    have covered := accounted.covered
    have exact := accounted.exact
    simp only [perform, accepts, taken, HistoryService.count, if_true]
    refine { accounted with
      gone := fun absent => absurd absent present
      covered := by simp only [List.length_append, List.length_singleton]; omega
      exact := by simp only [List.length_append, List.length_singleton]; omega
      ordered := ⟨[], fun _ => rfl, by simp [← order, unshipped]⟩ }

/-- A consumer with nothing in hand may go, where that is the end of the service. -/
theorem Accounted.leaveBehind (free : consumer.service.inFlight = [])
    (ended : consumer.service.isStopped = true ∨ unreservable ≤ consumer.service.batchLimit)
    (counted : consumer.service.batchLimit < unreservable → consumer.service.queue = []) :
    Accounted accepted (consumer.leaveBehind consumer.service.orphan) := by
  obtain ⟨lost, _, order⟩ := accounted.ordered
  have covered := accounted.covered
  refine { accounted with
    free := fun _ => free
    held := fun _ here => absurd rfl here
    gone := fun _ => ⟨rfl, rfl⟩
    closed := fun _ => ended
    covered := ?_
    exact := ?_
    ordered := ⟨consumer.unshipped ++ consumer.service.queue ++ lost,
      fun here => absurd rfl here, by simp [← order, HistoryConsumer.leaveBehind,
        HistoryService.orphan, unshipped]⟩ }
  · simp only [HistoryConsumer.leaveBehind, HistoryService.orphan, List.length_nil]
    omega
  · intro reservable
    simpa [HistoryConsumer.leaveBehind, HistoryService.orphan, counted reservable] using
      accounted.exact reservable

theorem Accounted.receive : Accounted accepted consumer.receive := by
  rcases consumer.receive_cases with same | ⟨waits, unreserved, died⟩ |
    ⟨event, rest, queued, stage, room, taken⟩
  · rwa [same]
  · rw [died]
    exact accounted.leaveBehind (accounted.free (.inl waits)) (.inr unreserved) (by omega)
  · rw [taken]
    have covered := accounted.covered
    have exact := accounted.exact
    obtain ⟨lost, none, order⟩ := accounted.ordered
    obtain rfl : lost = [] := none (by rcases stage with stage | stage <;> simp [stage])
    have unshipped : consumer.unshipped = consumer.service.inFlight := by
      rcases stage with waits | fills
      · simp [HistoryConsumer.unshipped, waits, accounted.free (.inl waits)]
      · simp [HistoryConsumer.unshipped, fills]
    simp only [queued, List.length_cons] at covered exact
    exact { accounted with
      fits := by simp only [List.length_append, List.length_singleton]; omega
      free := by simp
      held := by simp
      gone := by simp
      covered := by simp only [List.length_append, List.length_singleton]; omega
      exact := by simp only [List.length_append, List.length_singleton]; omega
      ordered := ⟨[], fun _ => rfl, by
        rw [← order, unshipped, queued]
        simp [HistoryConsumer.unshipped]⟩ }

theorem Accounted.ship : Accounted accepted consumer.ship := by
  unfold HistoryConsumer.ship
  split
  · rename_i full
    obtain ⟨fills, _⟩ := full
    obtain ⟨lost, none, order⟩ := accounted.ordered
    have held := accounted.held (by simp [fills]) (by simp [fills])
    exact { accounted with
      free := by simp
      held := fun _ _ => held
      gone := by simp
      batches := by
        intro batch called
        rcases List.mem_append.mp called with earlier | now
        · exact accounted.batches batch earlier
        · rw [List.mem_singleton.mp now]
          exact ⟨held, accounted.fits⟩
      ordered := ⟨lost, fun _ => none (by simp [fills]), by
        simp [← order, unshipped, fills]⟩ }
  · exact accounted

theorem Accounted.resume (stage : consumer.stage = .calling ∨ consumer.stage = .resting) :
    Accounted accepted consumer.resume := by
  obtain ⟨lost, none, order⟩ := accounted.ordered
  have covered := accounted.covered
  have exact := accounted.exact
  exact { accounted with
    fits := Nat.zero_le _
    free := fun _ => rfl
    held := fun here => absurd rfl here
    gone := by simp [HistoryConsumer.resume]
    covered := by
      simp only [HistoryConsumer.resume, HistoryService.finishBatch, HistoryService.uncount,
        List.length_nil]
      omega
    exact := by
      simp only [HistoryConsumer.resume, HistoryService.finishBatch, HistoryService.uncount,
        List.length_nil]
      omega
    ordered := ⟨lost, fun _ => none (by rcases stage with stage | stage <;> simp [stage]), by
      rw [← order]
      rcases stage with stage | stage <;>
        simp [HistoryConsumer.resume, HistoryService.finishBatch, HistoryService.uncount,
          unshipped, stage]⟩ }

theorem Accounted.answer (taken : Bool) : Accounted accepted (consumer.answer taken) := by
  unfold HistoryConsumer.answer
  split
  · rename_i calling
    cases taken with
    | true => exact accounted.resume (.inl calling)
    | false =>
        obtain ⟨lost, none, order⟩ := accounted.ordered
        exact { accounted with
          free := by simp
          held := fun _ _ => accounted.held (by simp [calling]) (by simp [calling])
          gone := by simp
          ordered := ⟨lost, fun _ => none (by simp [calling]), by
            simpa [unshipped, calling] using order⟩ }
  · exact accounted

theorem Accounted.rest : Accounted accepted consumer.rest := by
  unfold HistoryConsumer.rest
  split
  · rename_i resting
    exact accounted.resume (.inr resting)
  · exact accounted

theorem Accounted.leave : Accounted accepted consumer.leave := by
  unfold HistoryConsumer.leave
  split
  · rename_i drained
    obtain ⟨waits, stopped, none⟩ := drained
    exact accounted.leaveBehind (accounted.free (.inl waits)) (.inl stopped)
      fun _ => List.isEmpty_iff.mp none
  · exact accounted

theorem Accounted.abandon : Accounted accepted consumer.abandon := by
  unfold HistoryConsumer.abandon
  split
  · rename_i stopped
    obtain ⟨lost, _, order⟩ := accounted.ordered
    exact { accounted with
      fits := Nat.zero_le _
      free := fun _ => rfl
      held := fun _ here => absurd rfl here
      gone := fun _ => ⟨rfl, rfl⟩
      closed := fun _ => .inl stopped
      covered := Nat.le_refl 0
      exact := fun _ => rfl
      ordered := ⟨consumer.unshipped ++ consumer.service.queue ++ lost,
        fun here => absurd rfl here, by simp [← order, HistoryConsumer.leaveBehind,
          HistoryService.abandon, HistoryService.orphan, unshipped]⟩ }
  · exact accounted

theorem Accounted.perform (step : HistoryStep ε) :
    Accounted (accepted ++ consumer.accepts step) (consumer.perform step) := by
  have silent {next : HistoryConsumer ε} (kept : Accounted accepted next) :
      Accounted (accepted ++ []) next := by
    rwa [List.append_nil]
  cases step with
  | handle event => exact accounted.handle event
  | receive => exact silent accounted.receive
  | ship => exact silent accounted.ship
  | answer taken => exact silent (accounted.answer taken)
  | rest => exact silent accounted.rest
  | leave => exact silent accounted.leave
  | close => exact silent { accounted with closed := fun _ => .inl rfl }
  | abandon => exact silent accounted.abandon

theorem Accounted.run (steps : List (HistoryStep ε)) :
    Accounted (accepted ++ consumer.gather accepts steps) (consumer.run steps) := by
  induction steps generalizing accepted consumer with
  | nil => rwa [gather, List.append_nil]
  | cons step rest ih =>
      rw [gather, ← List.append_assoc]
      exact ih (accounted.perform step)

end Steps

/-- Events are accepted while the service runs and its queue has room. They go to the store in the
order in which they were accepted, in batches of a bounded size, each of them once; and what is
queued or under way counts as pending. -/
theorem batches_follow_acceptance (enabled : Bool) (capacity batchLimit : Nat)
    (steps : List (HistoryStep ε)) :
    let fresh : HistoryConsumer ε := start enabled capacity batchLimit
    let consumer := fresh.run steps
    (batchLimit < unreservable →
      (∀ event, (consumer.service.handle event).2 = true ↔
        enabled = true ∧ .close ∉ steps ∧ consumer.service.queue.length < max capacity 1) ∧
      (.abandon ∉ steps → consumer.service.pending =
        consumer.service.queue.length + consumer.service.inFlight.length)) ∧
    (∀ batch ∈ consumer.calls, batch ≠ [] ∧ batch.length ≤ max batchLimit 1) ∧
    consumer.calls.flatten <+: fresh.gather accepts steps ∧
    consumer.service.inFlight.length ≤ consumer.service.pending := by
  intro fresh consumer
  have accounted : Accounted (fresh.gather accepts steps) consumer :=
    (start_accounted enabled capacity batchLimit).run steps
  obtain ⟨sameCapacity, sameLimit, stopped⟩ := fresh.run_frame steps
  have limit : consumer.service.batchLimit = max batchLimit 1 := sameLimit
  refine ⟨fun reservable => ?_, fun batch called => ?_, ?_, ?_⟩
  · have below : consumer.service.batchLimit < unreservable := by
      rw [limit, Nat.max_lt]
      exact ⟨reservable, by decide⟩
    refine ⟨fun event => ?_, fun _ => accounted.exact below⟩
    -- without a death the queue is closed by a stop only
    have closed : consumer.service.isStopped = false → consumer.service.isClosed = false := by
      intro running
      by_contra shut
      rcases accounted.closed (by simpa using shut) with ended | unreserved
      · simp [ended] at running
      · omega
    have running : consumer.service.isStopped = false ↔ enabled = true ∧ .close ∉ steps := by
      rw [← Bool.not_eq_true, stopped, not_or]
      simp [fresh, start, HistoryService.start]
    rw [HistoryService.handle_eq_true_iff, ← and_assoc (a := enabled = true), ← running,
      show consumer.service.capacity = max capacity 1 from sameCapacity]
    exact ⟨fun ⟨first, _, space⟩ => ⟨first, space⟩,
      fun ⟨first, space⟩ => ⟨first, closed first, space⟩⟩
  · rw [← limit]
    exact accounted.batches batch called
  · obtain ⟨lost, _, order⟩ := accounted.ordered
    rw [← order, List.append_assoc, List.append_assoc]
    exact List.prefix_append _ _
  · have covered := accounted.covered
    omega

def fillingRun : List (HistoryStep Nat) :=
  [.handle 0, .receive, .handle 1, .receive, .handle 2, .ship]

theorem filled_batch_leaves_the_third :
    let consumer := (start true 3 2).run fillingRun
    2 < unreservable ∧ .abandon ∉ fillingRun ∧ consumer.calls = [[0, 1]] ∧
      consumer.service.pending =
        consumer.service.queue.length + consumer.service.inFlight.length ∧
      consumer.service.queue = [2] ∧ consumer.service.pending = 3 :=
  ⟨by decide, by decide, by decide,
    ((batches_follow_acceptance true 3 2 fillingRun).1 (by decide)).2 (by decide), by decide,
    by decide⟩

/-- The room of a batch of this size may not be asked for: the consumer dies with the first event,
and a running service with an empty queue refuses the next one. -/
theorem unreservable_batch_ends_acceptance :
    let steps : List (HistoryStep Nat) := [.handle 0, .receive]
    let consumer := (start true 10 18446744073709551615).run steps
    .close ∉ steps ∧ consumer.service.queue.length < max 10 1 ∧
      (consumer.service.handle 1).2 = false ∧ .abandon ∉ steps ∧
      consumer.service.pending ≠
        consumer.service.queue.length + consumer.service.inFlight.length := by
  decide

end HistoryConsumer

end ElasticJob
