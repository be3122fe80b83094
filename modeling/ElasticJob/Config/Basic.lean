import ElasticJob.Json.Value

/-!
How a job is run: its names, its history and its log, with the defaults of each setting. Vertices and
groups share their names or do not; a log has a level.
-/

namespace ElasticJob

inductive NamespacePolicy where
  /-- A group may not have the name of a vertex, nor a vertex that of a group. -/
  | shared
  /-- Names are unique among vertices and among groups. -/
  | separate
  deriving DecidableEq, Repr

namespace NamespacePolicy

def name : NamespacePolicy → String
  | shared => "Shared"
  | separate => "Separate"

def lowered (text : String) : String := String.ofList (text.toList.map Char.toLower)

/-- Capitals and small letters do not differ in a setting. -/
def parse? (text : String) : Option NamespacePolicy :=
  match lowered text with
  | "shared" => some .shared
  | "separate" => some .separate
  | _ => none

def names : List (String × NamespacePolicy) :=
  [shared, separate].map fun policy => (policy.name, policy)

end NamespacePolicy

inductive LogLevel where
  | off
  | error
  | warn
  | info
  | debug
  | trace
  deriving DecidableEq, Repr

namespace LogLevel

def all : List LogLevel := [off, error, warn, info, debug, trace]

def name : LogLevel → String
  | off => "OFF"
  | error => "ERROR"
  | warn => "WARN"
  | info => "INFO"
  | debug => "DEBUG"
  | trace => "TRACE"

def parse? (text : String) : Option LogLevel :=
  let raised := String.ofList (text.toList.map Char.toUpper)
  all.find? fun level => level.name = raised

def refusal (text : String) : String := s!"can not parse log level `{text}`"

end LogLevel

structure HistoryConfig where
  isEnabled : Bool := true
  /-- Milliseconds that a stop goes on to ship queued events. -/
  flushTimeout : UInt64 := 1000
  batchLimit : UInt64 := 100
  queueCapacity : UInt64 := 10000
  deriving DecidableEq

namespace HistoryConfig

def fieldNames : List String :=
  ["enabled", "flush_timeout_ms", "max_events_per_batch", "queue_capacity"]

def toJson (config : HistoryConfig) : Json :=
  .obj [("enabled", .bool config.isEnabled),
    ("flush_timeout_ms", .nat config.flushTimeout.toNat),
    ("max_events_per_batch", .nat config.batchLimit.toNat),
    ("queue_capacity", .nat config.queueCapacity.toNat)]

def ofJson? (json : Json) : Option HistoryConfig := do
  let [enabled, timeout, limit, capacity] ← json.openRecord? fieldNames | none
  let defaults : HistoryConfig := {}
  return {
    isEnabled := ← Json.default? defaults.isEnabled Json.asBool? enabled
    flushTimeout := ← Json.default? defaults.flushTimeout Json.asUInt64? timeout
    batchLimit := ← Json.default? defaults.batchLimit Json.asUInt64? limit
    queueCapacity := ← Json.default? defaults.queueCapacity Json.asUInt64? capacity }

end HistoryConfig

structure JobConfig where
  policy : NamespacePolicy := .shared
  history : HistoryConfig := {}
  logLevel : String := "INFO"
  /-- Where the log is written; the console if there is none. -/
  logDirectory : Option String := none
  deriving DecidableEq

namespace JobConfig

def fieldNames : List String := ["namespace_policy", "history", "log_level", "log_dir"]

def toJson (config : JobConfig) : Json :=
  .obj [("namespace_policy", .str config.policy.name), ("history", config.history.toJson),
    ("log_level", .str config.logLevel), ("log_dir", .option .str config.logDirectory)]

end JobConfig

end ElasticJob
