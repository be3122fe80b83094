import ElasticJob.Graph.Verify

/-!
Each check of a graph against the condition that it decides. A check looks at the records of one
vertex, or at one edge and the vertices at its ends; it passes where its condition holds and is
refused as an invalid argument otherwise. Verification decides all conditions at once, so the order
in which it looks at vertices and edges tells only which broken condition it reports.
-/

namespace ElasticJob

/-- The check passes where the condition holds, and else it refuses an invalid argument. -/
inductive Decides (condition : Prop) : Except JobError Unit → Prop where
  | passes (holds : condition) : Decides condition (.ok ())
  | refuses (broken : ¬ condition) (detail : String) :
      Decides condition (.error (.invalidArgument detail))

section Checks

variable {α : Type} {condition other : Prop} {check next : Except JobError Unit}

theorem Decides.eq_ok_iff (decides : Decides condition check) : check = .ok () ↔ condition := by
  cases decides with
  | passes holds => exact ⟨fun _ => holds, fun _ => rfl⟩
  | refuses broken => exact ⟨nofun, fun holds => absurd holds broken⟩

theorem Decides.invalidArgument (decides : Decides condition check) {error : JobError}
    (refused : check = .error error) : ∃ detail, error = .invalidArgument detail := by
  cases decides with
  | passes => cases refused
  | refuses _ detail =>
      cases refused
      exact ⟨detail, rfl⟩

theorem Decides.congr (decides : Decides condition check) (same : condition ↔ other) :
    Decides other check :=
  propext same ▸ decides

theorem Decides.and (first : Decides condition check) (second : Decides other next) :
    Decides (condition ∧ other) (check >>= fun _ => next) := by
  cases first with
  | passes holds => exact second.congr (iff_and_self.mpr fun _ => holds)
  | refuses broken detail => exact .refuses (fun both => broken both.1) detail

theorem Decides.all {conditions : α → Prop} {checks : α → Except JobError Unit} (items : List α)
    (each : ∀ item, Decides (conditions item) (checks item)) :
    Decides (∀ item ∈ items, conditions item) (items.forM checks) := by
  induction items with
  | nil => exact .passes nofun
  | cons first rest ih => exact ((each first).and ih).congr List.forall_mem_cons.symm

end Checks

theorem Parallelism.matchesCount_iff {parallelism : Parallelism} {count : Nat} :
    parallelism.matchesCount count = true ↔
      ∃ tasks, parallelism = .fixed tasks ∧ count = tasks.toNat := by
  cases parallelism <;> simp [matchesCount, eq_comm]

namespace Vertex

structure Checked (vertex : Vertex) : Prop where
  decided : vertex.parallelism = .deferred →
    vertex.manager.isSome ∨ ∃ input ∈ vertex.inputs, input.initializer.isSome
  covered : ∀ hints, vertex.hints = some hints →
    ∃ tasks, vertex.parallelism = .fixed tasks ∧ hints.length = tasks.toNat
  inputs : ∀ input ∈ vertex.inputs, input.name ∉ vertex.inputVertices
  outputs : ∀ output ∈ vertex.outputs, output.name ∉ vertex.outputVertices

variable (vertex : Vertex)

theorem checkDecider_decides :
    Decides (vertex.parallelism = .deferred →
      vertex.manager.isSome ∨ ∃ input ∈ vertex.inputs, input.initializer.isSome)
      vertex.checkDecider := by
  have undecided : (vertex.parallelism.isDeferred ∧ vertex.manager.isNone ∧
      vertex.initializedInputs.isEmpty) ↔
      ¬ (vertex.parallelism = .deferred →
        vertex.manager.isSome ∨ ∃ input ∈ vertex.inputs, input.initializer.isSome) := by
    cases vertex.parallelism <;> cases vertex.manager <;>
      simp [Parallelism.isDeferred, initializedInputs]
  unfold checkDecider
  split
  next broken => exact .refuses (undecided.mp broken) _
  next decided => exact .passes (Classical.not_not.mp (mt undecided.mpr decided))

theorem checkHints_decides :
    Decides (∀ hints, vertex.hints = some hints →
      ∃ tasks, vertex.parallelism = .fixed tasks ∧ hints.length = tasks.toNat)
      vertex.checkHints := by
  unfold checkHints
  split
  next absent => exact .passes fun hints held => nomatch absent.symm.trans held
  next hints held =>
    have only : (∃ tasks, vertex.parallelism = .fixed tasks ∧ hints.length = tasks.toNat) ↔
        ∀ other, vertex.hints = some other →
          ∃ tasks, vertex.parallelism = .fixed tasks ∧ other.length = tasks.toNat := by
      simp [held]
    rw [← only, ← Parallelism.matchesCount_iff]
    split
    next matching => exact .passes matching
    next missing => exact .refuses missing _

theorem checkInputNames_decides :
    Decides (∀ input ∈ vertex.inputs, input.name ∉ vertex.inputVertices)
      vertex.checkInputNames := by
  unfold checkInputNames
  split
  next input found =>
    refine .refuses (fun apart => apart input (List.mem_of_find?_eq_some found) ?_) _
    simpa using List.find?_some found
  next absent => exact .passes (by simpa using absent)

theorem checkOutputNames_decides :
    Decides (∀ output ∈ vertex.outputs, output.name ∉ vertex.outputVertices)
      vertex.checkOutputNames := by
  unfold checkOutputNames
  split
  next output found =>
    refine .refuses (fun apart => apart output (List.mem_of_find?_eq_some found) ?_) _
    simpa using List.find?_some found
  next absent => exact .passes (by simpa using absent)

theorem verify_decides : Decides vertex.Checked vertex.verify := by
  have checks := vertex.checkDecider_decides.and <| vertex.checkHints_decides.and <|
    vertex.checkInputNames_decides.and vertex.checkOutputNames_decides
  refine checks.congr ?_
  exact ⟨fun ⟨decided, covered, inputs, outputs⟩ => ⟨decided, covered, inputs, outputs⟩,
    fun ⟨decided, covered, inputs, outputs⟩ => ⟨decided, covered, inputs, outputs⟩⟩

end Vertex

namespace JobGraph

variable (graph : JobGraph)

def Paired (edge : Edge) : Prop :=
  edge.property.movement = .oneToOne → ∀ first second,
    graph.fixedTasks? edge.source = some first →
    graph.fixedTasks? edge.destination = some second → first = second

theorem fixedTasks?_eq_some_iff {name : String} {tasks : UInt32} :
    graph.fixedTasks? name = some tasks ↔
      ∃ vertex, graph.vertex? name = some vertex ∧ vertex.parallelism = .fixed tasks := by
  have fixed : ∀ parallelism : Parallelism,
      parallelism.fixed? = some tasks ↔ parallelism = .fixed tasks := by
    intro parallelism
    cases parallelism <;> simp [Parallelism.fixed?]
  simp [fixedTasks?, Option.bind_eq_some_iff, fixed]

theorem checkOneToOne_decides (edge : Edge) :
    Decides (graph.Paired edge) (graph.checkOneToOne edge) := by
  unfold checkOneToOne
  split
  next other => exact .passes fun paired => absurd paired other
  next paired =>
    split
    next first second sends takes =>
      split
      next same =>
        refine .passes fun _ left right leaves enters => ?_
        rw [← Option.some.inj (sends.symm.trans leaves), same]
        exact Option.some.inj (takes.symm.trans enters)
      next apart =>
        refine .refuses (fun joined => apart ?_) _
        exact joined (Decidable.of_not_not paired) _ _ sends takes
    next missing =>
      exact .passes fun _ first second sends takes => (missing first second sends takes).elim

theorem verify_decides :
    Decides (graph.stored.isEmpty = false ∧ (∀ vertex ∈ graph.vertices, vertex.Checked) ∧
      ∀ edge ∈ graph.edges, graph.Paired edge) graph.verify := by
  unfold verify
  split
  next empty => exact .refuses (fun sound => by simp [empty] at sound) _
  next inhabited =>
    have checked := (Decides.all graph.vertices Vertex.verify_decides).and
      (Decides.all graph.edges graph.checkOneToOne_decides)
    exact checked.congr (iff_and_self.mpr fun _ => by simpa using inhabited)

end JobGraph

end ElasticJob
