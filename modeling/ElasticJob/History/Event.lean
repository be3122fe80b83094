import ElasticJob.Json.Text
import ElasticJob.Text.Quoted

/-!
What the history of a job tells, with its JSON form and its form for people. The time of an event is
written as a date and time in UTC, by the Gregorian calendar, followed by the milliseconds since 1970;
years of more than four digits carry a plus sign.
-/

namespace ElasticJob

namespace Timestamp

structure Date where
  year : Nat
  month : Nat
  day : Nat
  deriving DecidableEq, Repr

/-- Counted in eras of 400 years, and in years that begin in March. -/
def dateOfDays (days : Nat) : Date :=
  let shifted := days + 719468
  let era := shifted / 146097
  let dayOfEra := shifted % 146097
  let yearOfEra := (dayOfEra - dayOfEra / 1460 + dayOfEra / 36524 - dayOfEra / 146096) / 365
  let dayOfYear := dayOfEra - (365 * yearOfEra + yearOfEra / 4 - yearOfEra / 100)
  let monthFromMarch := (5 * dayOfYear + 2) / 153
  let day := dayOfYear - (153 * monthFromMarch + 2) / 5 + 1
  let month := if monthFromMarch < 10 then monthFromMarch + 3 else monthFromMarch - 9
  ⟨yearOfEra + era * 400 + (if month ≤ 2 then 1 else 0), month, day⟩

def padded (width value : Nat) : String :=
  let digits := Nat.toDigits 10 value
  String.ofList (List.replicate (width - digits.length) '0' ++ digits)

def yearText (year : Nat) : String :=
  if year < 10000 then padded 4 year else "+" ++ padded 4 year

def dateTimeText (milliseconds : Nat) : String :=
  let seconds := milliseconds / 1000
  let date := dateOfDays (seconds / 86400)
  s!"{yearText date.year}-{padded 2 date.month}-{padded 2 date.day}T" ++
    s!"{padded 2 (seconds / 3600 % 24)}:{padded 2 (seconds / 60 % 60)}:" ++
    s!"{padded 2 (seconds % 60)}.{padded 3 (milliseconds % 1000)}"

def text (milliseconds : Nat) : String :=
  s!"{dateTimeText milliseconds}({Nat.repr milliseconds})"

end Timestamp

inductive HistoryFact where
  | submitted (vertices : UInt64)
  | vertexStarted (vertex : String)
  | vertexReconfigured (vertex : String) (parallelism : UInt32)
  /-- Final at submission, without a manager. -/
  | vertexFinalized (vertex : String) (parallelism : UInt32)
  | jobAborted (reason : String)
  deriving DecidableEq

namespace HistoryFact

def name : HistoryFact → String
  | submitted _ => "DagSubmitted"
  | vertexStarted _ => "VertexInitialized"
  | vertexReconfigured _ _ => "VertexReconfigured"
  | vertexFinalized _ _ => "VertexFinalized"
  | jobAborted _ => "DagAborted"

def content : HistoryFact → List (String × Json)
  | submitted vertices => [("vertex_count", .nat vertices.toNat)]
  | vertexStarted vertex => [("vertex_name", .str vertex)]
  | vertexReconfigured vertex parallelism | vertexFinalized vertex parallelism =>
      [("vertex_name", .str vertex), ("parallelism", .uint32 parallelism)]
  | jobAborted reason => [("reason", .str reason)]

def vertex? : HistoryFact → Option String
  | vertexStarted vertex | vertexReconfigured vertex _ | vertexFinalized vertex _ => some vertex
  | submitted _ | jobAborted _ => none

def byVertex (facts : List HistoryFact) : SortedMap String (List HistoryFact) :=
  .group (facts.filterMap fun fact => fact.vertex?.map fun vertex => (vertex, fact))

def ofJob (facts : List HistoryFact) : List HistoryFact :=
  facts.filter fun fact => fact.vertex?.isNone

def toJson (fact : HistoryFact) : Json :=
  .variant fact.name (.obj fact.content)

def contentOfJson? (name : String) (json : Json) : Option HistoryFact :=
  match name with
  | "DagSubmitted" => do
      let [vertices] ← json.fields? ["vertex_count"] | none
      return .submitted (← Json.required? Json.asUInt64? vertices)
  | "VertexInitialized" => do
      let [vertex] ← json.fields? ["vertex_name"] | none
      return .vertexStarted (← Json.required? Json.asString? vertex)
  | "VertexReconfigured" => do
      let [vertex, parallelism] ← json.fields? ["vertex_name", "parallelism"] | none
      return .vertexReconfigured (← Json.required? Json.asString? vertex)
        (← Json.required? Json.asUInt32? parallelism)
  | "VertexFinalized" => do
      let [vertex, parallelism] ← json.fields? ["vertex_name", "parallelism"] | none
      return .vertexFinalized (← Json.required? Json.asString? vertex)
        (← Json.required? Json.asUInt32? parallelism)
  | "DagAborted" => do
      let [reason] ← json.fields? ["reason"] | none
      return .jobAborted (← Json.required? Json.asString? reason)
  | _ => none

def ofJson? (json : Json) : Option HistoryFact :=
  match json.variant? with
  | some (name, some content) => contentOfJson? name content
  | _ => none

def valueText : Json → String
  | .str value => Text.Quoted.quote value
  | other => other.write

def text (fact : HistoryFact) : String :=
  let fields := fact.content.map fun field => field.1 ++ ": " ++ valueText field.2
  fact.name ++ " \x7b " ++ String.intercalate ", " fields ++ " \x7d"

end HistoryFact

structure HistoryEvent where
  job : String
  timestamp : UInt64
  fact : HistoryFact
  deriving DecidableEq

namespace HistoryEvent

def toJson (event : HistoryEvent) : Json :=
  .obj [("dag_name", .str event.job), ("timestamp", .nat event.timestamp.toNat),
    ("event_type", event.fact.toJson)]

def ofJson? (json : Json) : Option HistoryEvent := do
  let [job, timestamp, fact] ← json.record? ["dag_name", "timestamp", "event_type"] | none
  return {
    job := ← Json.required? Json.asString? job
    timestamp := ← Json.required? Json.asUInt64? timestamp
    fact := ← Json.required? HistoryFact.ofJson? fact }

def text (event : HistoryEvent) : String :=
  s!"{Timestamp.text event.timestamp.toNat} [{event.job}] {event.fact.text}"

end HistoryEvent

end ElasticJob
