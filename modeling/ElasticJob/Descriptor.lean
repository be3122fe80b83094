import ElasticJob.Json.Value

/-!
What the tasks of a vertex run and what they need for it. Descriptors name a pluggable class and carry
an opaque payload for it; the role is part of the type, so a processor is never taken for an input. A
task needs its size, the files placed beside it, and has places where it would best run.
-/

namespace ElasticJob

inductive Role where
  | processor
  | input
  | output
  | vertexManager
  | edgeManager
  | inputInitializer
  | outputCommitter
  deriving DecidableEq, Repr

def Role.title : Role → String
  | processor => "ProcessorDescriptor"
  | input => "InputDescriptor"
  | output => "OutputDescriptor"
  | vertexManager => "VertexManagerPluginDescriptor"
  | edgeManager => "EdgeManagerDescriptor"
  | inputInitializer => "InputInitializerDescriptor"
  | outputCommitter => "OutputCommitterDescriptor"

/-- An absent payload differs from an empty one. -/
structure Descriptor (role : Role) where
  className : String
  payload : Option Bytes := none
  deriving DecidableEq

namespace Descriptor

variable {role : Role}

def withPayload (descriptor : Descriptor role) (payload : Option Bytes) : Descriptor role :=
  { descriptor with payload := payload }

def text (descriptor : Descriptor role) : String :=
  s!"{role.title}({descriptor.className})"

def toJson (descriptor : Descriptor role) : Json :=
  .obj [("class_name", .str descriptor.className),
    ("user_payload", .option .bytes descriptor.payload)]

def ofJson? (json : Json) : Option (Descriptor role) := do
  let [className, payload] ← json.record? ["class_name", "user_payload"] | none
  return ⟨← Json.required? Json.asString? className, ← Json.optional? Json.asBytes? payload⟩

end Descriptor

structure Resource where
  memory : UInt32
  cores : UInt32
  deriving DecidableEq

namespace Resource

def toJson (resource : Resource) : Json :=
  .obj [("memory_mb", .uint32 resource.memory), ("v_cores", .uint32 resource.cores)]

def ofJson? (json : Json) : Option Resource := do
  let [memory, cores] ← json.record? ["memory_mb", "v_cores"] | none
  return ⟨← Json.required? Json.asUInt32? memory, ← Json.required? Json.asUInt32? cores⟩

end Resource

inductive FileKind where
  | file
  | archive
  | pattern
  deriving DecidableEq

namespace FileKind

def names : List (String × FileKind) :=
  [("File", file), ("Archive", archive), ("Pattern", pattern)]

def name : FileKind → String
  | file => "File"
  | archive => "Archive"
  | pattern => "Pattern"

end FileKind

inductive FileVisibility where
  | everyone
  | user
  | application
  deriving DecidableEq

namespace FileVisibility

def names : List (String × FileVisibility) :=
  [("Public", everyone), ("Private", user), ("Application", application)]

def name : FileVisibility → String
  | everyone => "Public"
  | user => "Private"
  | application => "Application"

end FileVisibility

structure LocalFile where
  uri : String
  size : UInt64
  timestamp : UInt64
  kind : FileKind := .file
  visibility : FileVisibility := .application
  deriving DecidableEq

namespace LocalFile

def toJson (file : LocalFile) : Json :=
  .obj [("uri", .str file.uri), ("size", .nat file.size.toNat),
    ("timestamp", .nat file.timestamp.toNat), ("resource_type", .str file.kind.name),
    ("visibility", .str file.visibility.name)]

def ofJson? (json : Json) : Option LocalFile := do
  let [uri, size, timestamp, kind, visibility] ←
    json.record? ["uri", "size", "timestamp", "resource_type", "visibility"] | none
  return {
    uri := ← Json.required? Json.asString? uri
    size := ← Json.required? Json.asUInt64? size
    timestamp := ← Json.required? Json.asUInt64? timestamp
    kind := ← Json.required? (Json.choice? FileKind.names) kind
    visibility := ← Json.required? (Json.choice? FileVisibility.names) visibility }

end LocalFile

structure LocationHint where
  hosts : List String
  racks : List String
  deriving DecidableEq

namespace LocationHint

def toJson (hint : LocationHint) : Json :=
  .obj [("hosts", .strings hint.hosts), ("racks", .strings hint.racks)]

def ofJson? (json : Json) : Option LocationHint := do
  let [hosts, racks] ← json.record? ["hosts", "racks"] | none
  return ⟨← Json.required? Json.asStrings? hosts, ← Json.required? Json.asStrings? racks⟩

end LocationHint

end ElasticJob
