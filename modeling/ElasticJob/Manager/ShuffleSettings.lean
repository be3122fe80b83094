import ElasticJob.Properties.Payload

/-!
Settings of the shuffle manager and their payload form. A key that is absent keeps its default;
the ranges are checked after all keys are read.
-/

namespace ElasticJob

structure ShuffleSettings where
  reduces : Bool := true
  /-- The part of the source tasks that must complete before a decision; one quarter. -/
  fraction : Number.Single := ⟨0x3E800000⟩
  /-- Bytes that one task should read. -/
  desiredSize : UInt64 := 104857600
  deriving DecidableEq

namespace ShuffleSettings

def component : String := "ShuffleVertexManager"

def reducesKey : String := "dagflow.shuffle-vertex-manager.enable.auto-parallel"

def fractionKey : String := "dagflow.shuffle-vertex-manager.min-src-fraction"

def desiredSizeKey : String := "dagflow.shuffle-vertex-manager.desired-task-input-size"

end ShuffleSettings

inductive ShuffleSettingsError where
  | payload (error : JobError)
  | value (error : ValueError)
  | fraction (found : Number.Single)
  | desiredSize
  deriving DecidableEq

def ShuffleSettingsError.message : ShuffleSettingsError → String
  | payload error => error.message
  | value error => error.message
  | fraction found => s!"`{ShuffleSettings.fractionKey}` must be within [0, 1], found {found.text}"
  | desiredSize => s!"`{ShuffleSettings.desiredSizeKey}` must be > 0"

namespace ShuffleSettings

def readKey {α : Type} (properties : Properties) (key : String) (missing : α)
    (read : Properties → String → Except ValueError α) : Except ShuffleSettingsError α :=
  if properties.contains key then (read properties key).mapError .value else .ok missing

def ofProperties (properties : Properties) : Except ShuffleSettingsError ShuffleSettings := do
  let defaults : ShuffleSettings := {}
  let reduces ← readKey properties reducesKey defaults.reduces Properties.getBool
  let fraction ← readKey properties fractionKey defaults.fraction Properties.getSingle
  let desiredSize ← readKey properties desiredSizeKey defaults.desiredSize Properties.getUInt64
  return ⟨reduces, fraction, desiredSize⟩

def check (settings : ShuffleSettings) : Except ShuffleSettingsError ShuffleSettings :=
  if !settings.fraction.isUnit then .error (.fraction settings.fraction)
  else if settings.desiredSize = 0 then .error .desiredSize
  else .ok settings

def ofPayload : Option Bytes → Except ShuffleSettingsError ShuffleSettings
  | none => .ok {}
  | some payload =>
      match Properties.ofBytes component payload with
      | .error error => .error (.payload error)
      | .ok properties => (ofProperties properties).bind check

def toPayload (settings : ShuffleSettings) : Except JobError Bytes :=
  ((((Properties.empty component).setBool reducesKey settings.reduces).setSingle
    fractionKey settings.fraction).setInteger desiredSizeKey settings.desiredSize.toNat).toBytes

end ShuffleSettings

end ElasticJob
