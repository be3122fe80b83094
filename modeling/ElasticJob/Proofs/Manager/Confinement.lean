import ElasticJob.Manager.Registry
import ElasticJob.Proofs.Collection.Listing
import ElasticJob.Proofs.Manager.Deciding

/-!
The edges that a manager's decision names. A manager that only routes names none; the shuffle
manager names scattered edges that its context lists. So whatever a built-in manager was told
before, its decision keeps to the edges into its own vertex.
-/

namespace ElasticJob

namespace Reconfiguration

def Confined (edges : List InputEdge) (decision : Reconfiguration) : Prop :=
  ∀ id ∈ decision.payloads.keys, id ∈ edges.map (·.id)

theorem confined_of_payloads_empty {edges : List InputEdge} {decision : Reconfiguration}
    (none : decision.payloads = .empty) : decision.Confined edges := by
  intro id named
  rw [none] at named
  cases named

end Reconfiguration

open Reconfiguration (confined_of_payloads_empty)

theorem Immediate.start_confined {context : Context} {decision : Reconfiguration}
    (decided : Immediate.start context = .ok (.finalize decision)) :
    decision.Confined context.edges := by
  unfold Immediate.start at decided
  split at decided
  · cases decided
    exact confined_of_payloads_empty rfl
  · cases decided

namespace RootInputManager

theorem addRouting_payloads {vertex : String} {decision next : Reconfiguration}
    {entry : String × Nat} (routed : addRouting vertex decision entry = .ok next) :
    next.payloads = decision.payloads := by
  unfold addRouting at routed
  split at routed
  · cases routed
    rfl
  · split at routed
    · cases routed
    · cases routed
      rfl

variable {context : Context} {manager : RootInputManager} {decision : Reconfiguration}

theorem decide_confined (decided : manager.decide context = .ok (.finalize decision)) :
    decision.Confined context.edges := by
  obtain ⟨last, routed, same⟩ := map_eq_ok_iff.mp decided
  cases same
  refine confined_of_payloads_empty ?_
  exact foldlM_keeps (fun decision => decision.payloads = .empty) _
    (fun _ _ _ _ added none => (addRouting_payloads added).trans none) routed rfl

theorem start_confined (decided : (start context manager).2 = .ok (.finalize decision)) :
    decision.Confined context.edges := by
  unfold start at decided
  dsimp only at decided
  split at decided
  · split at decided
    · exact decide_confined decided
    · cases decided
  · cases decided

theorem onEvent_confined {event : ManagerEvent}
    (decided : (onEvent context event manager).2 = .ok (.finalize decision)) :
    decision.Confined context.edges := by
  cases event with
  | dataInformation input index payload => cases decided
  | setParallelism input tasks =>
      simp only [onEvent, setParallelism] at decided
      split at decided
      · cases decided
      · split at decided <;> cases decided
  | inputInitialized input =>
      simp only [onEvent, complete] at decided
      split at decided
      · exact decide_confined decided
      · cases decided
  | inputFailed input detail => cases decided
  | sourceConfigured source tasks => cases decided
  | taskCompleted source task size => cases decided

end RootInputManager

namespace ShuffleManager

variable {context : Context} {manager : ShuffleManager} {decision : Reconfiguration}

theorem routeEdge_confined {routing : Routing} {edges : List InputEdge} {edge : InputEdge}
    (listed : edge ∈ edges) {before next : Reconfiguration}
    (routed : routeEdge routing before edge = .ok next) (confined : before.Confined edges) :
    next.Confined edges := by
  unfold routeEdge at routed
  split at routed
  · cases routed
    exact confined
  · dsimp only at routed
    split at routed
    · cases routed
      exact confined
    · obtain ⟨payload, _, rfl⟩ := map_eq_ok_iff.mp routed
      intro id named
      rcases (SortedMap.contains_insert ..).mp (SortedMap.contains_iff.mpr named) with rfl | before
      · exact List.mem_map_of_mem listed
      · exact confined id (SortedMap.contains_iff.mp before)

theorem keep_confined (decided : manager.keep = .ok (.finalize decision)) :
    decision.Confined context.edges := by
  cases decided
  exact confined_of_payloads_empty rfl

theorem reduce_confined {share : Nat}
    (decided : manager.reduce context share = .ok (.finalize decision)) :
    decision.Confined context.edges := by
  obtain ⟨last, routed, same⟩ := map_eq_ok_iff.mp decided
  cases same
  exact foldlM_keeps (Reconfiguration.Confined context.edges) _
    (fun _ listed _ _ routed confined => routeEdge_confined listed routed confined) routed
    (confined_of_payloads_empty rfl)

theorem tryDecide_confined (decided : manager.tryDecide context = .ok (.finalize decision)) :
    decision.Confined context.edges := by
  rcases tryDecide_cases decided with kept | ⟨_, _, _, reduced⟩
  · exact keep_confined kept
  · exact reduce_confined reduced

theorem start_confined (decided : (start context manager).2 = .ok (.finalize decision)) :
    decision.Confined context.edges := by
  unfold start at decided
  split at decided
  · cases decided
  · split at decided
    · cases decided
    · dsimp only at decided
      split at decided
      · exact keep_confined decided
      · exact tryDecide_confined decided

theorem onEvent_confined {event : ManagerEvent}
    (decided : (onEvent context event manager).2 = .ok (.finalize decision)) :
    decision.Confined context.edges :=
  tryDecide_confined (onEvent_decides decided)

end ShuffleManager

namespace BuiltIn

variable {context : Context} {manager : BuiltIn} {decision : Reconfiguration}

theorem start_confined
    (decided : (behaviour.start context manager).2 = .ok (.finalize decision)) :
    decision.Confined context.edges := by
  cases manager with
  | immediate => exact Immediate.start_confined decided
  | rootInput manager => exact RootInputManager.start_confined decided
  | shuffle manager => exact ShuffleManager.start_confined decided

theorem onEvent_confined {event : ManagerEvent}
    (decided : (behaviour.onEvent context event manager).2 = .ok (.finalize decision)) :
    decision.Confined context.edges := by
  cases manager with
  | immediate => cases decided
  | rootInput manager => exact RootInputManager.onEvent_confined decided
  | shuffle manager => exact ShuffleManager.onEvent_confined decided

end BuiltIn

end ElasticJob
