import ElasticJob.Edge
import ElasticJob.Error

/-!
The one final decision about a vertex: its parallelism, the task that reads each partition or split of
each source, and new output payloads for the vertex's own edges. A managed vertex goes through a few
states until its decision is final; every operation gives back the lifecycle it leaves behind, also
when it is refused.
-/

namespace ElasticJob

abbrev Routing := List UInt32

structure Reconfiguration where
  parallelism : UInt32
  routing : SortedMap String Routing := .empty
  payloads : SortedMap EdgeId Bytes := .empty
  deriving DecidableEq

namespace Reconfiguration

def withRouting (decision : Reconfiguration) (source : String) (routing : Routing) :
    Reconfiguration :=
  { decision with routing := decision.routing.insert source routing }

def withPayload (decision : Reconfiguration) (edge : EdgeId) (payload : Bytes) :
    Reconfiguration :=
  { decision with payloads := decision.payloads.insert edge payload }

def entryToJson (entry : EdgeId × Bytes) : Json :=
  .arr [entry.1.toJson, .bytes entry.2]

def entryOfJson? : Json → Option (EdgeId × Bytes)
  | .arr [id, payload] => do return (← EdgeId.ofJson? id, ← payload.asBytes?)
  | _ => none

/-- An edge id is no text, so the payloads are a list of pairs. -/
def toJson (decision : Reconfiguration) : Json :=
  .obj [("parallelism", .uint32 decision.parallelism),
    ("routing", .stringMap (.list .uint32) decision.routing),
    ("edge_payloads", .list entryToJson decision.payloads.entries)]

def ofJson? (json : Json) : Option Reconfiguration := do
  let [parallelism, routing, payloads] ←
    json.record? ["parallelism", "routing", "edge_payloads"] | none
  let entries ← Json.required? (Json.asList? entryOfJson?) payloads
  return {
    parallelism := ← Json.required? Json.asUInt32? parallelism
    routing := ← Json.required? (Json.asStringMap? (Json.asList? Json.asUInt32?)) routing
    payloads := .ofList entries }

end Reconfiguration

inductive Phase where
  /-- The manager has not been asked yet. -/
  | uninitialized
  | awaitingEvents
  | reconfiguring
  | finalized
  | aborted
  deriving DecidableEq, Repr

namespace Phase

def name : Phase → String
  | uninitialized => "Uninitialized"
  | awaitingEvents => "AwaitingEvents"
  | reconfiguring => "Reconfiguring"
  | finalized => "Finalized"
  | aborted => "Aborted"

def isTerminated : Phase → Bool
  | finalized | aborted => true
  | _ => false

end Phase

structure Lifecycle where
  vertex : String
  phase : Phase := .uninitialized
  decision : Option Reconfiguration := none
  deriving DecidableEq

namespace Lifecycle

def create (vertex : String) : Lifecycle := { vertex := vertex }

abbrev Attempt (α : Type) := Lifecycle × Except JobError α

def refuse {α : Type} (life : Lifecycle) (target : Phase) : Attempt α :=
  (life, .error (.invalidState
    s!"vertex `{life.vertex}` can not move from {life.phase.name} to {target.name}"))

def awaitEvents (life : Lifecycle) : Attempt Unit :=
  match life.phase with
  | .uninitialized => ({ life with phase := .awaitingEvents }, .ok ())
  | _ => life.refuse .awaitingEvents

def beginEvent (life : Lifecycle) : Attempt Unit :=
  match life.phase with
  | .awaitingEvents | .reconfiguring => ({ life with phase := .reconfiguring }, .ok ())
  | _ => life.refuse .reconfiguring

def endEvent (life : Lifecycle) : Lifecycle :=
  match life.phase with
  | .reconfiguring => { life with phase := .awaitingEvents }
  | _ => life

def finalize (life : Lifecycle) (decision : Reconfiguration) : Attempt Reconfiguration :=
  match life.phase with
  | .finalized | .aborted => life.refuse .finalized
  | _ => ({ life with phase := .finalized, decision := some decision }, .ok decision)

/-- Whether the lifecycle was not final yet. -/
def abort (life : Lifecycle) : Lifecycle × Bool :=
  match life.phase with
  | .finalized => (life, false)
  | _ => ({ life with phase := .aborted }, true)

end Lifecycle

end ElasticJob
