import ElasticJob.Properties.Payload
import ElasticJob.Settings.Key

/-!
Configuration of the unordered partitioned output. A builder starts from the defaults, the three
class names and the entries of a partitioner that the framework does not own. Its steps write
only qualifying keys, and the last step that writes or unsets a key decides it.
-/

namespace ElasticJob

structure OutputSettings where
  conf : Properties
  deriving DecidableEq

namespace OutputSettings

def component : String := "UnorderedPartitionedKvOutput"

def className : String := "dagflow.runtime.UnorderedPartitionedKvOutput"

def toBytes (settings : OutputSettings) : Except JobError Bytes :=
  settings.conf.toBytes

def ofBytes (bytes : Bytes) : Except JobError OutputSettings :=
  (Properties.ofBytes component bytes).map .mk

def get? (settings : OutputSettings) (key : String) : Option String :=
  settings.conf.get? key

def keyClass? (settings : OutputSettings) : Option String :=
  settings.get? Settings.Key.keyClass

def valueClass? (settings : OutputSettings) : Option String :=
  settings.get? Settings.Key.valueClass

def partitionerClass? (settings : OutputSettings) : Option String :=
  settings.get? Settings.Key.partitionerClass

/-- A flag that does not read counts as off. -/
def isCompressed (settings : OutputSettings) : Bool :=
  match settings.conf.getBool Settings.Key.compress with
  | .ok value => value
  | .error _ => false

def codec? (settings : OutputSettings) : Option String :=
  settings.get? Settings.Key.compressCodec

def bufferSize (settings : OutputSettings) : Except ValueError UInt32 :=
  settings.conf.getUInt32 Settings.Key.unorderedOutputBufferSizeMb

end OutputSettings

structure ClassNames where
  key : String
  value : String
  partitioner : String
  deriving DecidableEq

/-- The first empty name, in this order, is the fault. -/
def ClassNames.check (names : ClassNames) : Except JobError Unit :=
  if names.key.isEmpty then .error (.invalidArgument "Key class name cannot be empty")
  else if names.value.isEmpty then .error (.invalidArgument "Value class name cannot be empty")
  else if names.partitioner.isEmpty then
    .error (.invalidArgument "Partitioner class name cannot be empty")
  else .ok ()

structure OutputBuilder where
  conf : Properties
  deriving DecidableEq

inductive OutputStep where
  | buffer (megabytes : UInt32)
  | set (key : String) (value : Option String)
  | setMap (conf : Properties)
  | setFrom (conf : Properties)

namespace OutputBuilder

def unpartitioned (names : ClassNames) : Properties :=
  let defaults := Settings.selectDefaults Settings.ownedDefaults Settings.outputKeys
  ((((Properties.empty OutputSettings.component).extend defaults.entries).extend
    Settings.otherDefaults).set Settings.Key.keyClass names.key).set
      Settings.Key.valueClass names.value |>.set Settings.Key.partitionerClass names.partitioner

/-- A partitioner adds the entries that the framework does not own. -/
def initial (names : ClassNames) : Option Properties → OutputBuilder
  | some source => ⟨Settings.mergeUnreserved (unpartitioned names) source Settings.ownedKeys⟩
  | none => ⟨unpartitioned names⟩

def start (names : ClassNames) (partitioner : Option Properties) :
    Except JobError OutputBuilder :=
  names.check.map fun _ => initial names partitioner

def takes (key : String) : Bool :=
  Settings.qualifies [Settings.outputKeys, Settings.sharedKeys] Settings.sharedStarts key

/-- Turns compression on; without a codec the codec is left as it is. -/
def compress (builder : OutputBuilder) (codec : Option String) : OutputBuilder :=
  let conf := builder.conf.setBool Settings.Key.compress true
  match codec with
  | some name => ⟨conf.set Settings.Key.compressCodec name⟩
  | none => ⟨conf⟩

def setBuffer (builder : OutputBuilder) (megabytes : UInt32) : OutputBuilder :=
  ⟨builder.conf.setInteger Settings.Key.unorderedOutputBufferSizeMb megabytes.toNat⟩

/-- No value unsets the key. -/
def set (builder : OutputBuilder) (key : String) (value : Option String) : OutputBuilder :=
  if takes key then
    match value with
    | some value => ⟨builder.conf.set key value⟩
    | none => ⟨builder.conf.unset key⟩
  else builder

def setMap (builder : OutputBuilder) (conf : Properties) : OutputBuilder :=
  ⟨builder.conf.extend (Settings.selectQualified [Settings.outputKeys, Settings.sharedKeys]
    Settings.sharedStarts conf.map).entries⟩

def setFrom (builder : OutputBuilder) (conf : Properties) : OutputBuilder :=
  builder.setMap (Settings.Legacy.modernize conf)

def apply (builder : OutputBuilder) : OutputStep → OutputBuilder
  | .buffer megabytes => builder.setBuffer megabytes
  | .set key value => builder.set key value
  | .setMap conf => builder.setMap conf
  | .setFrom conf => builder.setFrom conf

def build (builder : OutputBuilder) : OutputSettings :=
  ⟨builder.conf⟩

end OutputBuilder

end ElasticJob
