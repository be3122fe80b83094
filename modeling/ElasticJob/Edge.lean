import ElasticJob.Descriptor
import ElasticJob.Error

/-!
Edges between vertices. An edge is known by its two ends, not by the text of them: names may hold
the arrow that the text of an id puts between them.
-/

namespace ElasticJob

structure EdgeId where
  source : String
  destination : String
  deriving DecidableEq, Repr

namespace EdgeId

instance : Ord EdgeId :=
  ⟨compareLex (compareOn source) (compareOn destination)⟩

instance : Std.TransOrd EdgeId :=
  inferInstanceAs (Std.TransCmp (compareLex (compareOn source) (compareOn destination)))

instance : Std.LawfulEqOrd EdgeId where
  eq_of_compare {a b} same := by
    have both : (compare a.source b.source).then (compare a.destination b.destination) = .eq := same
    rw [Ordering.then_eq_eq] at both
    cases a
    cases b
    simp only [EdgeId.mk.injEq]
    exact ⟨Std.LawfulEqCmp.eq_of_compare both.1, Std.LawfulEqCmp.eq_of_compare both.2⟩

instance : KeyOrder EdgeId where

def text (id : EdgeId) : String :=
  s!"{id.source}->{id.destination}"

def toJson (id : EdgeId) : Json :=
  .obj [("source", .str id.source), ("destination", .str id.destination)]

def ofJson? (json : Json) : Option EdgeId := do
  let [source, destination] ← json.record? ["source", "destination"] | none
  return ⟨← Json.required? Json.asString? source, ← Json.required? Json.asString? destination⟩

end EdgeId

inductive Movement where
  | oneToOne
  | broadcast
  | scatterGather
  | custom
  deriving DecidableEq, Repr

namespace Movement

def name : Movement → String
  | oneToOne => "OneToOne"
  | broadcast => "Broadcast"
  | scatterGather => "ScatterGather"
  | custom => "Custom"

def names : List (String × Movement) :=
  [oneToOne, broadcast, scatterGather, custom].map fun movement => (movement.name, movement)

end Movement

inductive DataSource where
  | persisted
  | persistedReliable
  | ephemeral
  deriving DecidableEq, Repr

namespace DataSource

def name : DataSource → String
  | persisted => "Persisted"
  | persistedReliable => "PersistedReliable"
  | ephemeral => "Ephemeral"

def names : List (String × DataSource) :=
  [persisted, persistedReliable, ephemeral].map fun source => (source.name, source)

end DataSource

inductive Scheduling where
  | sequential
  | concurrent
  deriving DecidableEq, Repr

namespace Scheduling

def name : Scheduling → String
  | sequential => "Sequential"
  | concurrent => "Concurrent"

def names : List (String × Scheduling) :=
  [sequential, concurrent].map fun scheduling => (scheduling.name, scheduling)

end Scheduling

structure EdgeProperty where
  movement : Movement
  dataSource : DataSource
  scheduling : Scheduling
  output : Descriptor .output
  input : Descriptor .input
  manager : Option (Descriptor .edgeManager)
  deriving DecidableEq

namespace EdgeProperty

def plain (movement : Movement) (dataSource : DataSource) (scheduling : Scheduling)
    (output : Descriptor .output) (input : Descriptor .input) : Except JobError EdgeProperty :=
  if movement = .custom then
    .error (.invalidArgument "Custom data movement requires an edge manager")
  else .ok ⟨movement, dataSource, scheduling, output, input, none⟩

def custom (manager : Descriptor .edgeManager) (dataSource : DataSource) (scheduling : Scheduling)
    (output : Descriptor .output) (input : Descriptor .input) : EdgeProperty :=
  ⟨.custom, dataSource, scheduling, output, input, some manager⟩

def withOutputPayload (property : EdgeProperty) (payload : Bytes) : EdgeProperty :=
  { property with output := property.output.withPayload (some payload) }

def toJson (property : EdgeProperty) : Json :=
  .obj [("data_movement", .str property.movement.name),
    ("data_source", .str property.dataSource.name),
    ("scheduling", .str property.scheduling.name),
    ("edge_source", property.output.toJson), ("edge_destination", property.input.toJson),
    ("edge_manager", .option Descriptor.toJson property.manager)]

def ofJson? (json : Json) : Option EdgeProperty := do
  let [movement, dataSource, scheduling, output, input, manager] ← json.record?
    ["data_movement", "data_source", "scheduling", "edge_source", "edge_destination",
     "edge_manager"] | none
  return {
    movement := ← Json.required? (Json.choice? Movement.names) movement
    dataSource := ← Json.required? (Json.choice? DataSource.names) dataSource
    scheduling := ← Json.required? (Json.choice? Scheduling.names) scheduling
    output := ← Json.required? Descriptor.ofJson? output
    input := ← Json.required? Descriptor.ofJson? input
    manager := ← Json.optional? Descriptor.ofJson? manager }

end EdgeProperty

/-- An edge read from outside may carry ends that differ from its id; a new edge never does. -/
structure Edge where
  id : EdgeId
  source : String
  destination : String
  property : EdgeProperty
  deriving DecidableEq

namespace Edge

def between (source destination : String) (property : EdgeProperty) : Edge :=
  ⟨⟨source, destination⟩, source, destination, property⟩

def withOutputPayload (edge : Edge) (payload : Bytes) : Edge :=
  { edge with property := edge.property.withOutputPayload payload }

def text (edge : Edge) : String :=
  s!"{edge.source} -> {edge.destination} ({edge.property.movement.name})"

def toJson (edge : Edge) : Json :=
  .obj [("id", edge.id.toJson), ("source", .str edge.source),
    ("destination", .str edge.destination), ("property", edge.property.toJson)]

def ofJson? (json : Json) : Option Edge := do
  let [id, source, destination, property] ←
    json.record? ["id", "source", "destination", "property"] | none
  return {
    id := ← Json.required? EdgeId.ofJson? id
    source := ← Json.required? Json.asString? source
    destination := ← Json.required? Json.asString? destination
    property := ← Json.required? EdgeProperty.ofJson? property }

end Edge

end ElasticJob
