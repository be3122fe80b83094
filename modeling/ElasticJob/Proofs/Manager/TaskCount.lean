import ElasticJob.Proofs.Manager.Sizing
import ElasticJob.Proofs.Properties.TypedValues

/-!
What a reduction writes into the payloads of its edges. The scattered edges whose output understands
it are told the new number of tasks, each in a payload of its own that holds whatever else the old
one held; no other edge is named. A reduction that meets an old payload that does not read fails.
-/

namespace ElasticJob

namespace Properties

theorem setInteger_reads (properties : Properties) (key : String) (value : UInt32) :
    (properties.setInteger key value.toNat).getUInt32 key = .ok value ∧
      ∀ other, other ≠ key →
        (properties.setInteger key value.toNat).get? other = properties.get? other := by
  have stores := properties.setInteger_stores key value.toNat
  have inside : Number.IntegerKind.uint32.InRange value.toNat := by
    have below := value.toNat_lt
    refine ⟨Int.natCast_nonneg _, ?_⟩
    rw [Number.IntegerKind.greatest]
    omega
  refine ⟨?_, stores.frame⟩
  rw [getUInt32, stores.holds.reads .uint32 inside]
  simp [Except.map]

end Properties

namespace InputEdge

def payloadAfter (edge : InputEdge) (decision : Reconfiguration) : Option Bytes :=
  (decision.payloads.get? edge.id).or edge.outputPayload

end InputEdge

namespace ShuffleManager

/-- The payload reads, under any name, as the configuration with this number of tasks in it. -/
def Retells (payload : Bytes) (before : Properties) (tasks : UInt32) : Prop :=
  ∀ name, ∃ after, Properties.ofBytes name payload = .ok after ∧
    after.getUInt32 Settings.Key.destinationTaskCount = .ok tasks ∧
    ∀ key, key ≠ Settings.Key.destinationTaskCount → after.get? key = before.get? key

theorem retargetPayload_retells {payload : Option Bytes} {tasks : UInt32} {written : Bytes}
    (wrote : retargetPayload payload tasks = .ok written) :
    ∃ before, heldSettings payload = .ok before ∧ Retells written before tasks := by
  rw [retargetPayload_eq, mapError_eq_ok_iff] at wrote
  obtain ⟨before, held, wrote⟩ := bind_eq_ok_iff.mp wrote
  obtain ⟨reads, frame⟩ :=
    before.setInteger_reads Settings.Key.destinationTaskCount tasks
  exact ⟨before, held, fun name => ⟨_, Properties.ofBytes_of_toBytes wrote name, reads, frame⟩⟩

theorem routeEdge_payloads {table : Routing} {before next : Reconfiguration} {edge : InputEdge}
    (routed : routeEdge table before edge = .ok next) :
    ¬ edge.Retargeted ∧ next.payloads = before.payloads ∨
      edge.Retargeted ∧ ∃ payload,
        retargetPayload edge.outputPayload before.parallelism = .ok payload ∧
        next.payloads = before.payloads.insert edge.id payload := by
  unfold routeEdge at routed
  split at routed
  next other =>
    cases routed
    exact .inl ⟨fun targeted => other targeted.1, rfl⟩
  next scattered =>
    dsimp only at routed
    split at routed
    next foreign =>
      cases routed
      exact .inl ⟨fun targeted => foreign targeted.2, rfl⟩
    next known =>
      obtain ⟨payload, wrote, rfl⟩ := map_eq_ok_iff.mp routed
      exact .inr ⟨⟨not_not.mp scattered, not_not.mp known⟩, payload, wrote, rfl⟩

theorem foldlM_routeEdge_other {table : Routing} {edges : List InputEdge}
    {first last : Reconfiguration} (routed : edges.foldlM (routeEdge table) first = .ok last)
    {id : EdgeId} (unnamed : ∀ edge ∈ edges, edge.Retargeted → edge.id ≠ id) :
    last.payloads.get? id = first.payloads.get? id := by
  induction edges generalizing first with
  | nil =>
      cases routed
      rfl
  | cons edge rest ih =>
      rw [List.foldlM_cons] at routed
      obtain ⟨next, now, later⟩ := bind_eq_ok_iff.mp routed
      rw [ih later fun other listed => unnamed other (List.mem_cons_of_mem _ listed)]
      rcases routeEdge_payloads now with ⟨_, kept⟩ | ⟨targeted, payload, _, added⟩
      · rw [kept]
      · rw [added, SortedMap.get?_insert_ne _ _ (unnamed edge List.mem_cons_self targeted).symm]

/-- Where the edges differ in their ids, each one that is to be told has its own payload. -/
theorem foldlM_routeEdge_payload {table : Routing} {edges : List InputEdge}
    {first last : Reconfiguration} (distinct : (edges.map (·.id)).Nodup)
    (routed : edges.foldlM (routeEdge table) first = .ok last) :
    ∀ edge ∈ edges, edge.Retargeted → ∃ payload,
      retargetPayload edge.outputPayload last.parallelism = .ok payload ∧
      last.payloads.get? edge.id = some payload := by
  induction edges generalizing first with
  | nil => simp
  | cons edge rest ih =>
      have tasks := (foldlM_routeEdge routed).1
      rw [List.foldlM_cons] at routed
      obtain ⟨next, now, later⟩ := bind_eq_ok_iff.mp routed
      obtain ⟨alone, others⟩ := List.nodup_cons.mp distinct
      intro other listed targeted
      rcases List.mem_cons.mp listed with rfl | listed
      -- later edges have other ids, so what was written now stays
      · rcases routeEdge_payloads now with ⟨free, _⟩ | ⟨_, payload, wrote, added⟩
        · exact absurd targeted free
        · refine ⟨payload, tasks ▸ wrote, ?_⟩
          rw [foldlM_routeEdge_other later, added, SortedMap.get?_insert_self]
          exact fun after member _ same => alone (List.mem_map.mpr ⟨after, member, same⟩)
      · exact ih others later other listed targeted

theorem reduce_retells {manager : ShuffleManager} {context : Context} {share : Nat}
    {decision : Reconfiguration} (distinct : (context.edges.map (·.id)).Nodup)
    (reduced : manager.reduce context share = .ok (.finalize decision)) :
    (∀ id, id ∈ decision.payloads.keys ↔ ∃ edge ∈ context.edges, edge.Retargeted ∧ edge.id = id) ∧
      ∀ edge ∈ context.edges, edge.Retargeted → ∃ before payload,
        heldSettings edge.outputPayload = .ok before ∧
        decision.payloads.get? edge.id = some payload ∧
        Retells payload before decision.parallelism := by
  obtain ⟨last, routed, same⟩ := map_eq_ok_iff.mp reduced
  cases same
  have told := foldlM_routeEdge_payload distinct routed
  refine ⟨fun id => ?_, fun edge listed targeted => ?_⟩
  · rw [← SortedMap.contains_iff, SortedMap.contains]
    constructor
    · intro present
      by_contra unnamed
      have absent := foldlM_routeEdge_other routed fun edge listed targeted named =>
        unnamed ⟨edge, listed, targeted, named⟩
      rw [absent] at present
      cases present
    · rintro ⟨edge, listed, targeted, rfl⟩
      obtain ⟨payload, _, held⟩ := told edge listed targeted
      rw [held]
      rfl
  · obtain ⟨payload, wrote, held⟩ := told edge listed targeted
    obtain ⟨before, reads, retells⟩ := retargetPayload_retells wrote
    exact ⟨before, payload, reads, held, retells⟩

/-- Where a run lowers the number of tasks, it hands out payloads to the scattered edges of outputs
that understand them, and to no other edge. Each reads as what the edge was configured with, but for
the new number of tasks. A run that is to lower it, and finds such an edge whose payload does not
read, fails. -/
theorem reduction_retells_task_count (context informed : Context) (settings : ShuffleSettings)
    (initial : UInt32) (heard : List ManagerEvent) (manager : ShuffleManager)
    (answer : Except ManagerError Decision)
    (accepted : ShuffleSettings.ofPayload context.payload = .ok settings)
    (fixed : context.parallelism = .fixed initial)
    (distinct : (context.edges.map (·.id)).Nodup)
    (answered : behaviour.Answered context {} heard informed manager answer) :
    (∀ decision, answer = .ok (.finalize decision) → decision.parallelism < initial →
      (∀ id, id ∈ decision.payloads.keys ↔
        ∃ edge ∈ context.edges, (edge.movement = .scatterGather ∧
          edge.outputClass = OutputSettings.className) ∧ edge.id = id) ∧
      (∀ edge ∈ context.edges, edge.movement = .scatterGather →
        edge.outputClass = OutputSettings.className → ∃ before payload,
          heldSettings edge.outputPayload = .ok before ∧
          edge.payloadAfter decision = some payload ∧
          Retells payload before decision.parallelism) ∧
      ∀ edge ∈ context.edges, ¬ (edge.movement = .scatterGather ∧
        edge.outputClass = OutputSettings.className) →
          edge.payloadAfter decision = edge.outputPayload) ∧
    ∀ tasks edge bytes cause, Due manager informed tasks → settings.reduces = true →
      2 ≤ manager.share tasks → edge ∈ context.edges → edge.movement = .scatterGather →
      edge.outputClass = OutputSettings.className → edge.outputPayload = some bytes →
      Properties.ofBytes OutputSettings.component bytes = .error cause →
      ∃ error, answer = .error (.payload error) := by
  obtain ⟨rfl, rfl, _⟩ := answered_frame accepted fixed answered
  have decides := answered_decides accepted fixed answered
  have edges : informed.edges = context.edges := by
    rw [(answered_state accepted fixed answered).1, Scheduler.foldl_learn_edges]
  rw [← edges] at distinct ⊢
  constructor
  · intro decision same lower
    have decided : manager.tryDecide informed = .ok (.finalize decision) := by
      rcases decides with decided | ⟨_, _, kept⟩
      · exact decided.symm.trans same
      · cases kept.symm.trans same
        exact absurd lower (UInt32.lt_irrefl _)
    obtain ⟨tasks, _, _, reduced⟩ := tryDecide_lowers decided lower
    obtain ⟨named, told⟩ := reduce_retells distinct reduced
    refine ⟨named, fun edge listed scattered known => ?_, fun edge listed other => ?_⟩
    · obtain ⟨before, payload, held, given, retells⟩ := told edge listed ⟨scattered, known⟩
      exact ⟨before, payload, held, by rw [InputEdge.payloadAfter, given, Option.some_or], retells⟩
    · have absent : decision.payloads.get? edge.id = none := by
        rw [← Option.not_isSome_iff_eq_none]
        intro present
        obtain ⟨owner, stored, targeted, same⟩ := (named _).mp (SortedMap.contains_iff.mp present)
        obtain rfl := List.inj_on_of_nodup_map distinct stored listed same
        exact other targeted
      rw [InputEdge.payloadAfter, absent, Option.none_or]
  · intro tasks edge bytes cause due reduces several listed scattered known held broken
    have reduced : answer = manager.reduce informed (manager.share tasks) := by
      rcases decides with decided | ⟨silent, _⟩
      · rw [decided, due.tryDecide_eq, if_pos ⟨reduces, several⟩]
      · exact absurd silent (due.heard_ne_nil accepted fixed answered)
    rw [reduced]
    refine (reduce_answer manager informed _).2 ⟨edge, listed, ⟨scattered, known⟩, fun fits => ?_⟩
    obtain ⟨conf, read, _⟩ := fits bytes held
    cases broken.symm.trans read

def threeOutputs (payload : Bytes) : Context :=
  { vertex := "sort"
    parallelism := .fixed 10
    edges := [⟨⟨"map", "sort"⟩, "map", .scatterGather, OutputSettings.className, some payload⟩,
      ⟨⟨"scan", "sort"⟩, "scan", .scatterGather, "Out", some [0]⟩,
      ⟨⟨"side", "sort"⟩, "side", .broadcast, OutputSettings.className, some [0]⟩]
    sources := .ofList [("map", 4), ("scan", 0)] }

def firstOutput : List ManagerEvent :=
  [.taskCompleted "map" 0 78643200]

def toldOfFour : Bytes :=
  Payload.layout [("codec", "zip"), (Settings.Key.destinationTaskCount, "4")]

def fourTold : Reconfiguration :=
  let table : Routing := [0, 0, 0, 1, 1, 1, 2, 2, 2, 3]
  { parallelism := 4
    routing := .ofList [("map", table), ("scan", table)]
    payloads := .ofList [(⟨"map", "sort"⟩, toldOfFour)] }

theorem first_output_is_answered (payload : Bytes) (answer : Except ManagerError Decision)
    (waits : behaviour.serve (threeOutputs payload) {} [] =
      .pending (threeOutputs payload) (begun (threeOutputs payload) {} 10))
    (replies : (onEvent (threeOutputs payload) (.taskCompleted "map" 0 78643200)
      (begun (threeOutputs payload) {} 10)).2 = answer) :
    behaviour.Answered (threeOutputs payload) {} firstOutput (threeOutputs payload)
      ((begun (threeOutputs payload) {} 10).note (.taskCompleted "map" 0 78643200)) answer :=
  Behaviour.Answered.event waits (Prod.ext rfl replies)

/-- The payload of the first output is written anew and holds what it held; one that does not read
ends the same run with an error. -/
theorem zipped_output_is_told_of_four_tasks :
    let codec := Payload.layout [("codec", "zip")]
    (∃ informed manager,
      behaviour.Answered (threeOutputs codec) {} firstOutput informed manager
        (.ok (.finalize fourTold)) ∧
      (∀ id, id ∈ fourTold.payloads.keys → id = ⟨"map", "sort"⟩) ∧
      Retells toldOfFour ⟨OutputSettings.component, .ofList [("codec", "zip")]⟩ 4) ∧
    ∃ informed manager error,
      behaviour.Answered (threeOutputs [0]) {} firstOutput informed manager
        (.error (.payload error)) := by
  intro codec
  constructor
  · have answered := first_output_is_answered codec (.ok (.finalize fourTold))
      (by decide +kernel) (by decide +kernel)
    obtain ⟨named, rewritten, _⟩ := (reduction_retells_task_count (threeOutputs codec) _ {} 10 _ _ _
      rfl rfl (by decide +kernel) answered).1 fourTold rfl (by decide)
    refine ⟨_, _, answered, fun id listed => ?_, ?_⟩
    · obtain ⟨edge, member, targeted, rfl⟩ := (named id).mp listed
      simp only [threeOutputs, List.mem_cons, List.not_mem_nil, or_false] at member
      rcases member with rfl | rfl | rfl
      · rfl
      · exact absurd targeted.2 (by decide)
      · cases targeted.1
    · obtain ⟨before, payload, held, given, retells⟩ :=
        rewritten _ List.mem_cons_self rfl rfl
      have read : heldSettings (some codec) =
          .ok ⟨OutputSettings.component, .ofList [("codec", "zip")]⟩ := by rfl
      have told : fourTold.payloads.get? ⟨"map", "sort"⟩ = some toldOfFour := by decide +kernel
      rw [InputEdge.payloadAfter, told, Option.some_or] at given
      cases held.symm.trans read
      cases given
      exact retells
  · have answered := first_output_is_answered [0] _ (by decide +kernel) rfl
    obtain ⟨error, failed⟩ := (reduction_retells_task_count (threeOutputs [0]) _ {} 10 _ _ _
      rfl rfl (by decide +kernel) answered).2 4 _ [0] _
        ⟨by decide +kernel, by decide, by decide +kernel⟩ rfl (by decide +kernel)
        List.mem_cons_self rfl rfl rfl rfl
    exact ⟨_, _, error, failed ▸ answered⟩

end ShuffleManager

end ElasticJob
