import ElasticJob.Edge
import ElasticJob.Settings.Output

/-!
Configuration of both ends of a scattered edge. The builder keeps an output builder and the input
configuration side by side; a step for the edge writes both, a step for the output only the first.
-/

namespace ElasticJob

structure EdgeSettings where
  output : OutputSettings
  input : Properties
  deriving DecidableEq

namespace EdgeSettings

def inputComponent : String := "UnorderedKvInput"

def inputClassName : String := "dagflow.runtime.UnorderedKvInput"

def outputDescriptor (settings : EdgeSettings) : Except JobError (Descriptor .output) :=
  settings.output.toBytes.map fun payload => ⟨OutputSettings.className, some payload⟩

def inputDescriptor (settings : EdgeSettings) : Except JobError (Descriptor .input) :=
  settings.input.toBytes.map fun payload => ⟨inputClassName, some payload⟩

def defaultProperty (settings : EdgeSettings) : Except JobError EdgeProperty := do
  let output ← settings.outputDescriptor
  let input ← settings.inputDescriptor
  EdgeProperty.plain .scatterGather .persisted .sequential output input

def customProperty (settings : EdgeSettings) (manager : Descriptor .edgeManager) :
    Except JobError EdgeProperty := do
  let output ← settings.outputDescriptor
  let input ← settings.inputDescriptor
  return EdgeProperty.custom manager .persisted .sequential output input

def property (settings : EdgeSettings) :
    Option (Descriptor .edgeManager) → Except JobError EdgeProperty
  | some manager => settings.customProperty manager
  | none => settings.defaultProperty

end EdgeSettings

structure EdgeBuilder where
  output : OutputBuilder
  input : Properties
  deriving DecidableEq

inductive EdgeStep where
  | compress (codec : Option String)
  | setFrom (conf : Properties)
  | output (steps : List OutputStep)

namespace EdgeBuilder

def startInput (names : ClassNames) : Properties :=
  let defaults := Settings.selectDefaults Settings.ownedDefaults Settings.inputKeys
  (((Properties.empty EdgeSettings.inputComponent).extend defaults.entries).extend
    Settings.otherDefaults).set Settings.Key.keyClass names.key |>.set
      Settings.Key.valueClass names.value

def start (names : ClassNames) (partitioner : Option Properties) : Except JobError EdgeBuilder :=
  (OutputBuilder.start names partitioner).map fun output => ⟨output, startInput names⟩

def compressInput (input : Properties) (codec : Option String) : Properties :=
  let conf := input.setBool Settings.Key.compress true
  match codec with
  | some name => conf.set Settings.Key.compressCodec name
  | none => conf

def setInputMap (input conf : Properties) : Properties :=
  input.extend (Settings.selectQualified [Settings.inputKeys, Settings.sharedKeys]
    Settings.sharedStarts conf.map).entries

def apply (builder : EdgeBuilder) : EdgeStep → EdgeBuilder
  | .compress codec => ⟨builder.output.compress codec, compressInput builder.input codec⟩
  | .setFrom conf =>
      -- legacy keys are modernized once, for both ends
      let modern := Settings.Legacy.modernize conf
      ⟨builder.output.setMap modern, setInputMap builder.input modern⟩
  | .output steps => ⟨steps.foldl OutputBuilder.apply builder.output, builder.input⟩

def build (builder : EdgeBuilder) : EdgeSettings :=
  ⟨builder.output.build, builder.input⟩

end EdgeBuilder

end ElasticJob
