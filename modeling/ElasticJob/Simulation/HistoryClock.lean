import ElasticJob.History.Service

/-!
Trial runs of the history service on a virtual clock. The store records a batch when it is called,
takes a while, and then fails at the calls that it is told to; after a failure the consumer rests.
-/

namespace ElasticJob

structure StoreScript where
  delay : Nat := 0
  failing : List Nat := []

structure HistorySimulation (ε : Type) extends HistoryConsumer ε where
  script : StoreScript
  flushTimeout : Nat
  now : Nat := 0
  /-- When the call or the rest under way is over. -/
  due : Nat := 0

namespace HistorySimulation

variable {ε : Type}

def restAfterFailure : Nat := 100

def performAll (simulation : HistorySimulation ε) (steps : List (HistoryStep ε)) :
    HistorySimulation ε :=
  { simulation with toHistoryConsumer := simulation.toHistoryConsumer.run steps }

def returned (simulation : HistorySimulation ε) : HistorySimulation ε :=
  if simulation.calls.length - 1 ∈ simulation.script.failing then
    { simulation.performAll [.answer false] with due := simulation.now + restAfterFailure }
  else simulation.performAll [.answer true]

def ship (simulation : HistorySimulation ε) : HistorySimulation ε :=
  if simulation.stage ≠ .waiting then simulation
  else
    let size := min simulation.service.queue.length simulation.service.batchLimit
    let called := simulation.performAll (List.replicate size .receive ++ [.ship])
    if called.stage ≠ .calling then called
    else if simulation.script.delay = 0 then called.returned
    else { called with due := called.now + simulation.script.delay }

def shipMany (simulation : HistorySimulation ε) : Nat → HistorySimulation ε
  | 0 => simulation
  | count + 1 => shipMany simulation.ship count

def settle (simulation : HistorySimulation ε) : HistorySimulation ε :=
  simulation.shipMany (simulation.service.queue.length + 1)

def due? (simulation : HistorySimulation ε) : Option Nat :=
  match simulation.stage with
  | .calling | .resting => some simulation.due
  | _ => none

def jump (simulation : HistorySimulation ε) (instant : Nat) : HistorySimulation ε :=
  let moved := { simulation with now := instant }
  match simulation.stage with
  | .calling => moved.returned
  | _ => moved.performAll [.rest]

def runUntil (simulation : HistorySimulation ε) (instant : Nat) : Nat → HistorySimulation ε
  | 0 => simulation
  | count + 1 =>
      let settled := simulation.settle
      match settled.due? with
      | some due => if due ≤ instant then runUntil (settled.jump due) instant count else settled
      | none => settled

/-- Every queued event causes two waits at most, and so does the batch under way. -/
def waitBound (simulation : HistorySimulation ε) : Nat :=
  2 * simulation.service.queue.length + 4

def advance (simulation : HistorySimulation ε) (milliseconds : Nat) : HistorySimulation ε :=
  let instant := simulation.now + milliseconds
  { simulation.runUntil instant simulation.waitBound with now := instant }

def drainUntil (simulation : HistorySimulation ε) (instant : Nat) : Nat → HistorySimulation ε
  | 0 => simulation
  | count + 1 =>
      let settled := simulation.settle.performAll [.leave]
      if settled.stage = .gone then settled
      else
        match settled.due? with
        | some due =>
            if due ≤ instant then drainUntil (settled.jump due) instant count
            else { settled with now := instant }
        | none => settled

/-- A stop waits for the timeout at most, and not at all where the timeout is zero. The number of
dropped events is what is still pending then. -/
def stop (simulation : HistorySimulation ε) : HistorySimulation ε × Nat :=
  let closed := simulation.performAll [.close]
  -- a timeout of zero is over before the consumer runs
  let drained :=
    if closed.stage = .gone || closed.flushTimeout = 0 then closed
    else closed.drainUntil (closed.now + closed.flushTimeout) closed.waitBound
  (drained.performAll [.abandon], drained.service.pending)

def handleAll (simulation : HistorySimulation ε) (accepted : Nat) :
    List ε → HistorySimulation ε × Nat
  | [] => (simulation, accepted)
  | event :: rest =>
      let count := if (simulation.service.handle event).2 then accepted + 1 else accepted
      handleAll (simulation.performAll [.handle event]) count rest

end HistorySimulation

end ElasticJob
