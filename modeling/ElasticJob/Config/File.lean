import ElasticJob.Config.Basic
import ElasticJob.Text.Quoted
import ElasticJob.Yaml.Node
import ElasticJob.Yaml.Value

/-!
A configuration kept in a YAML file. A field that is missing has its default, and so has all of an
empty file; a file whose history would ship empty batches is refused.
-/

namespace ElasticJob

inductive ConfigFileError where
  /-- What the system says of a path is its own affair. -/
  | unopened (path fault : String)
  | malformed
  | emptyBatches
  deriving DecidableEq, Repr

namespace ConfigFileError

def message : ConfigFileError → String
  | unopened path fault => s!"open config {Text.Quoted.quotePath path} error. {fault}"
  | malformed => "malformed configuration"
  | emptyBatches => "history.max_events_per_batch must be > 0"

end ConfigFileError

def NamespacePolicy.ofNode? (node : Yaml.Node) : Option NamespacePolicy :=
  node.asChoice?.bind fun name => List.lookup name NamespacePolicy.names

def HistoryConfig.ofNode? (nodes : Yaml.Nodes) (node : Yaml.Node) : Option HistoryConfig := do
  let [enabled, timeout, limit, capacity] ← nodes.fields? HistoryConfig.fieldNames node | none
  let defaults : HistoryConfig := {}
  return {
    isEnabled := ← Yaml.default? defaults.isEnabled Yaml.Node.asBool? enabled
    flushTimeout := ← Yaml.default? defaults.flushTimeout Yaml.Node.asUInt64? timeout
    batchLimit := ← Yaml.default? defaults.batchLimit Yaml.Node.asUInt64? limit
    queueCapacity := ← Yaml.default? defaults.queueCapacity Yaml.Node.asUInt64? capacity }

namespace JobConfig

def ofNode? (nodes : Yaml.Nodes) (node : Yaml.Node) : Option JobConfig := do
  let [policy, history, level, directory] ← nodes.fields? fieldNames node | none
  let defaults : JobConfig := {}
  return {
    policy := ← Yaml.default? defaults.policy NamespacePolicy.ofNode? policy
    history := ← Yaml.default? defaults.history (HistoryConfig.ofNode? nodes) history
    logLevel := ← Yaml.default? defaults.logLevel Yaml.Node.asText? level
    logDirectory := ← Yaml.default? defaults.logDirectory Yaml.Node.asOptionalText? directory }

def read? (text : String) : Option JobConfig :=
  match Yaml.read? text with
  | none => none
  | some none => some {}
  | some (some nodes) => nodes.root.bind (ofNode? nodes)

def load (text : String) : Except ConfigFileError JobConfig :=
  match read? text with
  | none => .error .malformed
  | some config =>
      if config.history.batchLimit = 0 then .error .emptyBatches else .ok config

end JobConfig

end ElasticJob
