import ElasticJob.Config.Basic
import ElasticJob.Properties.Basic

/-!
Properties laid over a configuration. The recognised keys are taken in one order, each with the
text that the properties hold for it; the first key with a text that is refused ends the overlay,
and what was set before stays set.
-/

namespace ElasticJob

inductive ConfigKey where
  | policy
  | historyEnabled
  | flushTimeout
  | batchLimit
  | queueCapacity
  | logLevel
  | logDirectory
  deriving DecidableEq, Repr

inductive ConfigError where
  | unsupportedPolicy (text : String)
  | value (error : ValueError)
  | emptyBatches
  deriving DecidableEq

namespace ConfigKey

/-- The order in which an overlay takes the keys. -/
def all : List ConfigKey :=
  [policy, historyEnabled, flushTimeout, batchLimit, queueCapacity, logLevel, logDirectory]

def name : ConfigKey → String
  | policy => "dagflow.dag.namespace-policy"
  | historyEnabled => "dagflow.history.enabled"
  | flushTimeout => "dagflow.history.flush-timeout-ms"
  | batchLimit => "dagflow.history.max-events-per-batch"
  | queueCapacity => "dagflow.history.queue-capacity"
  | logLevel => "dagflow.log.level"
  | logDirectory => "dagflow.log.dir"

end ConfigKey

def ConfigError.message : ConfigError → String
  | unsupportedPolicy text => "Unsupported namespace policy " ++ NamespacePolicy.lowered text
  | value error => error.message
  | emptyBatches => s!"`{ConfigKey.batchLimit.name}` must be > 0"

def parsePolicy (text : String) : Except ConfigError NamespacePolicy :=
  match NamespacePolicy.parse? text with
  | some policy => .ok policy
  | none => .error (.unsupportedPolicy text)

namespace JobConfig

def parseWord (kind : Number.IntegerKind) (text : String) : Except ConfigError UInt64 :=
  match Number.parseInteger kind text with
  | .ok value => .ok (UInt64.ofNat value.toNat)
  | .error fault => .error (.value (.integer fault))

def withHistory (config : JobConfig) (change : HistoryConfig → HistoryConfig) : JobConfig :=
  { config with history := change config.history }

def change : ConfigKey → String → Except ConfigError (JobConfig → JobConfig)
  | .policy, text => (parsePolicy text).map fun policy config => { config with policy := policy }
  | .historyEnabled, text =>
      ((Properties.parseBool text).mapError .value).map fun enabled config =>
        config.withHistory fun history => { history with isEnabled := enabled }
  | .flushTimeout, text =>
      (parseWord .uint64 text).map fun timeout config =>
        config.withHistory fun history => { history with flushTimeout := timeout }
  | .batchLimit, text =>
      match parseWord .uint32 text with
      | .error error => .error error
      | .ok limit =>
          if limit = 0 then .error .emptyBatches
          else .ok fun config =>
            config.withHistory fun history => { history with batchLimit := limit }
  | .queueCapacity, text =>
      (parseWord .uint32 text).map fun capacity config =>
        config.withHistory fun history => { history with queueCapacity := capacity }
  | .logLevel, text => .ok fun config => { config with logLevel := text }
  | .logDirectory, text => .ok fun config => { config with logDirectory := some text }

def applyKeys (properties : Properties) (config : JobConfig) :
    List ConfigKey → JobConfig × Except ConfigError Unit
  | [] => (config, .ok ())
  | key :: rest =>
      match properties.get? key.name with
      | none => applyKeys properties config rest
      | some text =>
          match change key text with
          | .ok changed => applyKeys properties (changed config) rest
          -- the keys before this one stay applied
          | .error error => (config, .error error)

def applyProperties (config : JobConfig) (properties : Properties) :
    JobConfig × Except ConfigError Unit :=
  applyKeys properties config ConfigKey.all

end JobConfig

end ElasticJob
