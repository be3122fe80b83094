/-!
The queue between a job and the store of its history, and the consumer that ships what is queued.
Events are taken without waiting while the service runs and the queue has room; stopping waits for a
time and then gives up what is left. `pending` counts the events that are queued or under way.

The consumer goes one step at a time. It waits for an event, fills a batch with what is queued, calls
the store with it, and rests after a call that failed; a failed batch is not shipped again. Clients
and a stop come in between at any point. It asks for the room of a whole batch when its first event
comes. Where that is more than may be asked for it dies there, and what was pending stays pending.
-/

namespace ElasticJob

structure HistoryService (ε : Type) where
  /-- At least one event fits. -/
  capacity : Nat
  /-- At least one event is shipped at a time. -/
  batchLimit : Nat
  /-- A stop was called, or there is nothing to stop. -/
  isStopped : Bool := false
  /-- Nobody takes events off the queue any more. -/
  isClosed : Bool := false
  queue : List ε := []
  inFlight : List ε := []
  pending : Nat := 0
  deriving DecidableEq

namespace HistoryService

variable {ε : Type}

def start (enabled : Bool) (capacity batchLimit : Nat) : HistoryService ε :=
  { capacity := max capacity 1
    batchLimit := max batchLimit 1
    isStopped := !enabled
    isClosed := !enabled }

def count (service : HistoryService ε) (events : Nat) : HistoryService ε :=
  { service with pending := service.pending + events }

def uncount (service : HistoryService ε) (events : Nat) : HistoryService ε :=
  { service with pending := service.pending - events }

/-- Whether the event was accepted. It counts before it is queued, and no longer where the queue
does not take it. -/
def handle (service : HistoryService ε) (event : ε) : HistoryService ε × Bool :=
  if service.isStopped then (service, false)
  else
    let counted := service.count 1
    if service.isClosed || service.capacity ≤ service.queue.length then (counted.uncount 1, false)
    else ({ counted with queue := service.queue ++ [event] }, true)

def take (service : HistoryService ε) : HistoryService ε :=
  match service.queue with
  | [] => service
  | event :: rest => { service with queue := rest, inFlight := service.inFlight ++ [event] }

def hasMore (service : HistoryService ε) : Bool :=
  service.inFlight.length < service.batchLimit && !service.queue.isEmpty

def finishBatch (service : HistoryService ε) : HistoryService ε :=
  { service.uncount service.inFlight.length with inFlight := [] }

/-- The consumer is gone, and the queue with it. What was pending still counts. -/
def orphan (service : HistoryService ε) : HistoryService ε :=
  { service with queue := [], isClosed := true }

def close (service : HistoryService ε) : HistoryService ε :=
  { service with isStopped := true }

def abandon (service : HistoryService ε) : HistoryService ε × Nat :=
  ({ service.orphan with inFlight := [], pending := 0 }, service.pending)

end HistoryService

inductive ConsumerStage where
  | waiting
  /-- The batch in hand may still grow. -/
  | filling
  | calling
  /-- The store refused the batch in hand, which still counts. -/
  | resting
  | gone
  deriving DecidableEq, Repr

structure HistoryConsumer (ε : Type) where
  service : HistoryService ε
  stage : ConsumerStage := .waiting
  calls : List (List ε) := []
  deriving DecidableEq

inductive HistoryStep (ε : Type) where
  | handle (event : ε)
  | receive
  | ship
  | answer (taken : Bool)
  /-- The rest after a failed call is over. -/
  | rest
  /-- The consumer of a stopped service finds nothing queued. -/
  | leave
  | close
  | abandon
  deriving DecidableEq

namespace HistoryConsumer

variable {ε : Type}

def start (enabled : Bool) (capacity batchLimit : Nat) : HistoryConsumer ε :=
  { service := .start enabled capacity batchLimit
    stage := if enabled then .waiting else .gone }

/-- At 64 bytes an event, more than the `2 ^ 63 - 1` bytes that a list may ask for. -/
def unreservable : Nat := 144115188075855872

def leaveBehind (consumer : HistoryConsumer ε) (service : HistoryService ε) : HistoryConsumer ε :=
  { consumer with service := service, stage := .gone }

def takeNext (consumer : HistoryConsumer ε) : HistoryConsumer ε :=
  { consumer with service := consumer.service.take, stage := .filling }

def receive (consumer : HistoryConsumer ε) : HistoryConsumer ε :=
  if consumer.service.hasMore then
    match consumer.stage with
    | .waiting =>
        if unreservable ≤ consumer.service.batchLimit then
          consumer.leaveBehind consumer.service.orphan
        else consumer.takeNext
    | .filling => consumer.takeNext
    | _ => consumer
  else consumer

def ship (consumer : HistoryConsumer ε) : HistoryConsumer ε :=
  if consumer.stage = .filling ∧ ¬ consumer.service.hasMore then
    { consumer with stage := .calling, calls := consumer.calls ++ [consumer.service.inFlight] }
  else consumer

def resume (consumer : HistoryConsumer ε) : HistoryConsumer ε :=
  { consumer with service := consumer.service.finishBatch, stage := .waiting }

def answer (consumer : HistoryConsumer ε) (taken : Bool) : HistoryConsumer ε :=
  if consumer.stage = .calling then
    if taken then consumer.resume else { consumer with stage := .resting }
  else consumer

def rest (consumer : HistoryConsumer ε) : HistoryConsumer ε :=
  if consumer.stage = .resting then consumer.resume else consumer

def leave (consumer : HistoryConsumer ε) : HistoryConsumer ε :=
  if consumer.stage = .waiting ∧ consumer.service.isStopped ∧ consumer.service.queue.isEmpty then
    consumer.leaveBehind consumer.service.orphan
  else consumer

def abandon (consumer : HistoryConsumer ε) : HistoryConsumer ε :=
  if consumer.service.isStopped then consumer.leaveBehind consumer.service.abandon.1 else consumer

def perform (consumer : HistoryConsumer ε) : HistoryStep ε → HistoryConsumer ε
  | .handle event => { consumer with service := (consumer.service.handle event).1 }
  | .receive => consumer.receive
  | .ship => consumer.ship
  | .answer taken => consumer.answer taken
  | .rest => consumer.rest
  | .leave => consumer.leave
  | .close => { consumer with service := consumer.service.close }
  | .abandon => consumer.abandon

def run (consumer : HistoryConsumer ε) (steps : List (HistoryStep ε)) : HistoryConsumer ε :=
  steps.foldl perform consumer

end HistoryConsumer

end ElasticJob
