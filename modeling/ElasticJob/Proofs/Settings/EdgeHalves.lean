import ElasticJob.Proofs.Settings.LastWriter
import ElasticJob.Settings.Edge

/-!
What each half of an edge depends on. The output half goes through the steps of a plain output
builder, with the sections taken apart, and the input half sees the steps for both ends alone. The
entries of a partitioner reach the output half only, and there no key that the framework owns; what
a step does to a key is the same whatever the builder holds, so no later step lets them through
either.
-/

namespace ElasticJob

open Settings

def OutputSettings.configure (names : ClassNames) (partitioner : Option Properties)
    (steps : List BuilderStep) : Except JobError OutputSettings :=
  (OutputBuilder.start names partitioner).map fun builder => (builder.run steps).build

theorem OutputSettings.configure_map {α : Type} (names : ClassNames)
    (partitioner : Option Properties) (steps : List BuilderStep) (read : OutputSettings → α) :
    (configure names partitioner steps).map read = names.check.map fun _ =>
      read ((OutputBuilder.initial names partitioner).run steps).build := by
  rw [configure, OutputBuilder.start]
  cases names.check <;> rfl

theorem OutputSettings.configure_isOk_iff (names : ClassNames) (partitioner : Option Properties)
    (steps : List BuilderStep) :
    (∃ built, configure names partitioner steps = .ok built) ↔ names.check = .ok () := by
  rw [configure, OutputBuilder.start]
  cases names.check <;> simp [Except.map]

namespace EdgeStep

def plain : EdgeStep → List BuilderStep
  | .compress codec => [.compress codec]
  | .setFrom conf => [.output (.setFrom conf)]
  | .output steps => steps.map .output

def isShared : EdgeStep → Bool
  | .compress _ => true
  | .setFrom _ => true
  | .output _ => false

end EdgeStep

namespace EdgeBuilder

def initial (names : ClassNames) (partitioner : Option Properties) : EdgeBuilder :=
  ⟨OutputBuilder.initial names partitioner, startInput names⟩

def run (builder : EdgeBuilder) (steps : List EdgeStep) : EdgeBuilder :=
  steps.foldl apply builder

theorem run_cons (builder : EdgeBuilder) (step : EdgeStep) (rest : List EdgeStep) :
    builder.run (step :: rest) = (builder.apply step).run rest := rfl

theorem start_eq (names : ClassNames) (partitioner : Option Properties) :
    start names partitioner = names.check.map fun _ => initial names partitioner := by
  rw [start, OutputBuilder.start]
  cases names.check <;> rfl

theorem apply_output (builder : EdgeBuilder) (step : EdgeStep) :
    (builder.apply step).output = builder.output.run step.plain := by
  cases step with
  | compress codec => rfl
  | setFrom conf => rfl
  | output steps =>
      change steps.foldl OutputBuilder.apply builder.output =
        (steps.map BuilderStep.output).foldl OutputBuilder.perform builder.output
      rw [List.foldl_map]
      rfl

theorem run_output (builder : EdgeBuilder) (steps : List EdgeStep) :
    (builder.run steps).output = builder.output.run (steps.flatMap EdgeStep.plain) := by
  induction steps generalizing builder with
  | nil => rfl
  | cons step rest ih =>
      rw [run_cons, ih, apply_output, List.flatMap_cons, OutputBuilder.run_append]

theorem apply_input_congr {first second : EdgeBuilder} (same : first.input = second.input)
    (step : EdgeStep) : (first.apply step).input = (second.apply step).input := by
  cases step with
  | compress codec => simp only [apply, same]
  | setFrom conf => simp only [apply, same]
  | output steps => exact same

theorem apply_input_of_section (builder : EdgeBuilder) {step : EdgeStep}
    (inside : step.isShared ≠ true) : (builder.apply step).input = builder.input := by
  cases step with
  | compress codec => exact absurd rfl inside
  | setFrom conf => exact absurd rfl inside
  | output steps => rfl

theorem run_input_congr {first second : EdgeBuilder} (same : first.input = second.input)
    (steps : List EdgeStep) :
    (first.run steps).input = (second.run (steps.filter EdgeStep.isShared)).input := by
  -- two builders, since at a section the one that goes through it changes its output half
  induction steps generalizing first second with
  | nil => exact same
  | cons step rest ih =>
      rw [run_cons, List.filter_cons]
      split
      · rw [run_cons]
        exact ih (apply_input_congr same step)
      next inside => exact ih ((first.apply_input_of_section inside).trans same)

theorem run_input_eq {first second : EdgeBuilder} (same : first.input = second.input)
    (steps : List EdgeStep) : (first.run steps).input = (second.run steps).input := by
  have one : (first.run steps).input = (second.run (steps.filter EdgeStep.isShared)).input :=
    run_input_congr same steps
  have two : (second.run steps).input = (second.run (steps.filter EdgeStep.isShared)).input :=
    run_input_congr rfl steps
  exact one.trans two.symm

end EdgeBuilder

def EdgeSettings.configure (names : ClassNames) (partitioner : Option Properties)
    (steps : List EdgeStep) : Except JobError EdgeSettings :=
  (EdgeBuilder.start names partitioner).map fun builder => (builder.run steps).build

theorem EdgeSettings.configure_map {α : Type} (names : ClassNames)
    (partitioner : Option Properties) (steps : List EdgeStep) (read : EdgeSettings → α) :
    (configure names partitioner steps).map read = names.check.map fun _ =>
      read ((EdgeBuilder.initial names partitioner).run steps).build := by
  rw [configure, EdgeBuilder.start_eq]
  cases names.check <;> rfl

theorem EdgeSettings.configure_isOk_iff (names : ClassNames) (partitioner : Option Properties)
    (steps : List EdgeStep) :
    (∃ built, configure names partitioner steps = .ok built) ↔ names.check = .ok () := by
  rw [configure, EdgeBuilder.start_eq]
  cases names.check <;> simp [Except.map]

/-- Both halves are built where the names are accepted. The output half is what a plain builder
makes of the same steps without the bounds of sections, and the input half is what is left of the
edge when the sections are taken out. -/
theorem edge_halves_are_built_apart (names : ClassNames) (partitioner : Option Properties)
    (steps : List EdgeStep) :
    let edge := EdgeSettings.configure names partitioner steps
    ((∃ built, edge = .ok built) ↔ names.check = .ok ()) ∧
    edge.map (·.output) =
      OutputSettings.configure names partitioner (steps.flatMap EdgeStep.plain) ∧
    edge.map (·.input) =
      (EdgeSettings.configure names partitioner (steps.filter EdgeStep.isShared)).map
        (·.input) := by
  refine ⟨EdgeSettings.configure_isOk_iff names partitioner steps, ?_, ?_⟩
  · have same : ((EdgeBuilder.initial names partitioner).run steps).build.output =
        ((OutputBuilder.initial names partitioner).run (steps.flatMap EdgeStep.plain)).build :=
      congrArg OutputBuilder.build (EdgeBuilder.run_output _ steps)
    rw [EdgeSettings.configure_map, same, OutputSettings.configure, OutputBuilder.start]
    cases names.check <;> rfl
  · have same : ((EdgeBuilder.initial names partitioner).run steps).input = _ :=
      EdgeBuilder.run_input_congr rfl steps
    rw [EdgeSettings.configure_map, EdgeSettings.configure_map]
    simp only [EdgeBuilder.build, same]

theorem Settings.get?_mergeUnreserved (target source : Properties) (reserved : List String)
    (key : String) :
    (mergeUnreserved target source reserved).get? key =
      if key ∈ reserved then target.get? key else (source.get? key).or (target.get? key) := by
  rw [mergeUnreserved, target.get?_extend_filter source (!reserved.contains ·)]
  by_cases listed : key ∈ reserved <;> simp [listed]

section Partitioner

variable {key : String} (owned : key ∈ ownedKeys)

include owned

theorem OutputBuilder.get?_initial (names : ClassNames) (partitioner : Option Properties) :
    (initial names partitioner).conf.get? key = (unpartitioned names).get? key := by
  cases partitioner with
  | none => rfl
  | some source =>
      change (mergeUnreserved (unpartitioned names) source ownedKeys).get? key = _
      rw [get?_mergeUnreserved, if_pos owned]

/-- What the steps do to a key does not depend on what is there, so the runs part nowhere that their
builders do not. -/
theorem OutputBuilder.get?_run_initial (names : ClassNames) (first second : Option Properties)
    (steps : List BuilderStep) :
    ((initial names first).run steps).conf.get? key =
      ((initial names second).run steps).conf.get? key := by
  rw [get?_run, get?_run, get?_initial owned, get?_initial owned]

end Partitioner

/-- No entry of a partitioner reaches a key that the framework owns, in an output or in the output
half of an edge, and none reaches the input half at all: whatever the steps, two builders that
differ in their partitioners are built or refused alike, and agree there. -/
theorem partitioner_leaves_owned_keys (names : ClassNames) (first second : Option Properties) :
    (∀ steps : List BuilderStep,
      ((∃ built, OutputSettings.configure names first steps = .ok built) ↔
        names.check = .ok ()) ∧
      ∀ key ∈ ownedKeys,
        (OutputSettings.configure names first steps).map (·.get? key) =
          (OutputSettings.configure names second steps).map (·.get? key)) ∧
    ∀ steps : List EdgeStep,
      ((∃ built, EdgeSettings.configure names first steps = .ok built) ↔ names.check = .ok ()) ∧
      (∀ key ∈ ownedKeys,
        (EdgeSettings.configure names first steps).map (·.output.get? key) =
          (EdgeSettings.configure names second steps).map (·.output.get? key)) ∧
      (EdgeSettings.configure names first steps).map (·.input) =
        (EdgeSettings.configure names second steps).map (·.input) := by
  refine ⟨fun steps => ⟨OutputSettings.configure_isOk_iff names first steps, fun key owned => ?_⟩,
    fun steps => ⟨EdgeSettings.configure_isOk_iff names first steps, fun key owned => ?_, ?_⟩⟩
  · have same := OutputBuilder.get?_run_initial owned names first second steps
    rw [OutputSettings.configure_map, OutputSettings.configure_map]
    simp only [OutputSettings.get?, OutputBuilder.build, same]
  · have same := OutputBuilder.get?_run_initial owned names first second
      (steps.flatMap EdgeStep.plain)
    rw [EdgeSettings.configure_map, EdgeSettings.configure_map]
    simp only [OutputSettings.get?, OutputBuilder.build, EdgeBuilder.build,
      EdgeBuilder.run_output, EdgeBuilder.initial, same]
  · have start : (EdgeBuilder.initial names first).input =
        (EdgeBuilder.initial names second).input := rfl
    have same := EdgeBuilder.run_input_eq start steps
    rw [EdgeSettings.configure_map, EdgeSettings.configure_map]
    simp only [EdgeBuilder.build, same]

/-- A partitioner that names another class of keys and, under a legacy key, compression, which a
later step unsets. -/
theorem hijacking_partitioner_is_ignored :
    let names : ClassNames := ⟨"K", "V", "P"⟩
    let hijacker := (((Properties.empty "hash").set Key.keyClass "Hijacked").set
      "mapreduce.map.output.compress" "true").set "hash.seed" "42"
    let steps : List BuilderStep := [.output (.buffer 8), .compress (some "lz4"),
      .output (.set Key.compress none)]
    let edgeSteps : List EdgeStep := [.setFrom hijacker, .output [.setFrom hijacker]]
    let hijacked := OutputSettings.configure names (some hijacker) steps
    let plain := OutputSettings.configure names none steps
    hijacker.get? Key.keyClass = some "Hijacked" ∧ (∃ built, hijacked = .ok built) ∧
      Key.keyClass ∈ ownedKeys ∧ Key.compress ∈ ownedKeys ∧
      hijacked.map (·.get? Key.keyClass) = plain.map (·.get? Key.keyClass) ∧
      hijacked.map (·.get? Key.compress) = plain.map (·.get? Key.compress) ∧
      (EdgeSettings.configure names (some hijacker) edgeSteps).map (·.output.get? Key.compress) =
        (EdgeSettings.configure names none edgeSteps).map (·.output.get? Key.compress) := by
  intro names hijacker steps edgeSteps hijacked plain
  obtain ⟨outputs, edges⟩ := partitioner_leaves_owned_keys names (some hijacker) none
  obtain ⟨built, same⟩ := outputs steps
  obtain ⟨_, sameEdge, _⟩ := edges edgeSteps
  have keyClass : Key.keyClass ∈ ownedKeys := by decide +kernel
  have compress : Key.compress ∈ ownedKeys := by decide +kernel
  exact ⟨by decide +kernel, built.mpr (by decide +kernel), keyClass, compress,
    same _ keyClass, same _ compress, sameEdge _ compress⟩

end ElasticJob
