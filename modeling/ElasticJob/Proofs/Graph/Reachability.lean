import ElasticJob.Graph.Digraph
import Mathlib.Data.List.Nodup
import Mathlib.Logic.Relation

/-!
Paths in a network. The search for a path reaches exactly the nodes that arcs lead to, since a round
that reaches nothing new is the last one that matters and every other round reaches one node more.
An arc whose target does not lead back to its source opens no path out of its target, and closes no
cycle.
-/

namespace ElasticJob

open Relation (ReflTransGen TransGen)

section Insertion

variable {α : Type} {relation : α → α → Prop} {source target : α}

/-- A path that may use one more pair does without it, or leads to its first use and from its last
use on. -/
theorem reflTransGen_insert {first last : α}
    (path : ReflTransGen (fun a b => relation a b ∨ a = source ∧ b = target) first last) :
    ReflTransGen relation first last ∨
      ReflTransGen relation first source ∧ ReflTransGen relation target last := by
  induction path with
  | refl => exact .inl .refl
  | tail _ step ih =>
      rcases step with old | ⟨rfl, rfl⟩
      · rcases ih with around | ⟨before, after⟩
        · exact .inl (around.tail old)
        · exact .inr ⟨before, after.tail old⟩
      · rcases ih with around | ⟨before, _⟩
        · exact .inr ⟨around, .refl⟩
        · exact .inr ⟨before, .refl⟩

theorem acyclic_insert (acyclic : ∀ a, ¬ TransGen relation a a)
    (apart : ¬ ReflTransGen relation target source) (a : α) :
    ¬ TransGen (fun a b => relation a b ∨ a = source ∧ b = target) a a := by
  intro cycle
  obtain ⟨next, step, path⟩ := TransGen.head'_iff.mp cycle
  rcases step with old | ⟨rfl, rfl⟩
  · rcases reflTransGen_insert path with around | ⟨before, after⟩
    · exact acyclic a (.head' old around)
    · exact apart (after.trans (.head old before))
  · rcases reflTransGen_insert path with around | ⟨before, _⟩
    · exact apart around
    · exact apart before

end Insertion

namespace Digraph

variable {ν ε : Type} (graph : Digraph ν ε)

def Arrow (source target : Nat) : Prop :=
  ∃ arc ∈ graph.arcs, arc.source = source ∧ arc.target = target

theorem arrow_addArc (source target : Nat) (label : ε) :
    (graph.addArc source target label).Arrow =
      fun a b => graph.Arrow a b ∨ a = source ∧ b = target := by
  funext a b
  simp [Arrow, addArc, or_and_right, exists_or, eq_comm (a := a), eq_comm (a := b)]

theorem mem_reachArc (reached : List Nat) (arc : Arc ε) (node : Nat) :
    node ∈ reachArc reached arc ↔
      node ∈ reached ∨ arc.source ∈ reached ∧ node = arc.target := by
  unfold reachArc
  split
  next fresh => simp [fresh.1]
  next closed =>
    constructor
    · exact .inl
    · rintro (old | ⟨source, rfl⟩)
      · exact old
      · exact Classical.not_not.mp fun fresh => closed ⟨source, fresh⟩

theorem prefix_foldl_reachArc (arcs : List (Arc ε)) (reached : List Nat) :
    reached <+: arcs.foldl reachArc reached := by
  refine List.foldlRecOn arcs reachArc (List.prefix_refl reached) fun current kept arc _ => ?_
  apply kept.trans
  unfold reachArc
  split
  · exact List.prefix_append _ _
  · exact List.prefix_refl _

theorem target_mem_foldl (arcs : List (Arc ε)) (arc : Arc ε) (reached : List Nat)
    (listed : arc ∈ arcs) (source : arc.source ∈ reached) :
    arc.target ∈ arcs.foldl reachArc reached := by
  induction arcs generalizing reached with
  | nil => cases listed
  | cons first rest ih =>
      rw [List.foldl_cons]
      rcases List.mem_cons.mp listed with rfl | later
      · have found : arc.target ∈ reachArc reached arc := by
          rw [mem_reachArc]
          exact .inr ⟨source, rfl⟩
        exact (prefix_foldl_reachArc rest _).subset found
      · apply ih _ later
        rw [mem_reachArc]
        exact .inl source

structure Search (source : Nat) (reached : List Nat) : Prop where
  distinct : reached.Nodup
  start : source ∈ reached
  sound : ∀ node ∈ reached, ReflTransGen graph.Arrow source node

variable {graph} {source : Nat} {reached : List Nat}

theorem Search.reachArc (search : graph.Search source reached) (arc : Arc ε)
    (listed : arc ∈ graph.arcs) : graph.Search source (reachArc reached arc) := by
  constructor
  · unfold Digraph.reachArc
    split
    next fresh =>
      rw [List.nodup_append_comm]
      exact List.nodup_cons.mpr ⟨fresh.2, search.distinct⟩
    next => exact search.distinct
  · rw [mem_reachArc]
    exact .inl search.start
  · intro node member
    rw [mem_reachArc] at member
    rcases member with old | ⟨before, rfl⟩
    · exact search.sound node old
    · exact (search.sound _ before).tail ⟨arc, listed, rfl, rfl⟩

theorem Search.grow (search : graph.Search source reached) :
    graph.Search source (graph.grow reached) :=
  List.foldlRecOn graph.arcs Digraph.reachArc search fun _ current arc listed =>
    current.reachArc arc listed

theorem Search.rounds (count : Nat) (search : graph.Search source reached) :
    graph.Search source (graph.rounds count reached) := by
  induction count generalizing reached with
  | zero => exact search
  | succ count ih => exact ih search.grow

theorem rounds_of_settled (count : Nat) (settled : graph.grow reached = reached) :
    graph.rounds count reached = reached := by
  induction count with
  | zero => rfl
  | succ count ih => rw [Digraph.rounds, settled, ih]

/-- Each round reaches one node more until a round reaches none. -/
theorem rounds_settle (count : Nat) (reached : List Nat) :
    graph.grow (graph.rounds count reached) = graph.rounds count reached ∨
      reached.length + count ≤ (graph.rounds count reached).length := by
  induction count generalizing reached with
  | zero => exact .inr (Nat.le_refl _)
  | succ count ih =>
      by_cases settled : graph.grow reached = reached
      · left
        rw [rounds_of_settled _ settled, settled]
      · have longer : reached.length < (graph.grow reached).length := by
          have kept := prefix_foldl_reachArc graph.arcs reached
          apply Nat.lt_of_le_of_ne kept.length_le
          intro same
          exact settled (kept.eq_of_length same).symm
        rcases ih (graph.grow reached) with done | more
        · exact .inl done
        · right
          rw [Digraph.rounds]
          omega

section Inside

variable (inside : ∀ arc ∈ graph.arcs, arc.target < graph.nodes.length)

include inside

theorem path_inside (start : source < graph.nodes.length) {node : Nat}
    (path : ReflTransGen graph.Arrow source node) : node < graph.nodes.length := by
  cases path with
  | refl => exact start
  | tail _ step =>
      obtain ⟨arc, listed, _, rfl⟩ := step
      exact inside arc listed

/-- The search decides whether a path leads from one node to another. -/
theorem hasPath_iff (start : source < graph.nodes.length) (target : Nat) :
    graph.hasPath source target = true ↔ ReflTransGen graph.Arrow source target := by
  have search : graph.Search source (graph.rounds graph.nodes.length [source]) :=
    Search.rounds _ ⟨List.nodup_singleton source, List.mem_singleton_self source, by
      intro node same
      rw [List.mem_singleton.mp same]⟩
  have few : (graph.rounds graph.nodes.length [source]).length ≤ graph.nodes.length := by
    have known : graph.rounds graph.nodes.length [source] ⊆ List.range graph.nodes.length :=
      fun node member => List.mem_range.mpr (path_inside inside start (search.sound node member))
    simpa using search.distinct.length_le_of_subset known
  have settled := (graph.rounds_settle graph.nodes.length [source]).resolve_right (by
    rw [List.length_singleton]
    omega)
  rw [hasPath, List.contains_iff_mem]
  constructor
  · exact search.sound target
  · intro path
    induction path with
    | refl => exact search.start
    | tail _ step ih =>
        obtain ⟨arc, listed, rfl, rfl⟩ := step
        rw [← settled]
        exact target_mem_foldl graph.arcs arc _ listed ih

/-- An arc that closes no cycle opens no path out of its target. -/
theorem hasPath_addArc {goal : Nat} (bound : goal < graph.nodes.length) (label : ε)
    (apart : graph.hasPath goal source = false) (node : Nat) :
    (graph.addArc source goal label).hasPath goal node = graph.hasPath goal node := by
  have extended : ∀ arc ∈ (graph.addArc source goal label).arcs,
      arc.target < graph.nodes.length := by
    intro arc listed
    rcases List.mem_append.mp listed with old | new
    · exact inside arc old
    · rw [List.mem_singleton.mp new]
      exact bound
  rw [← Bool.not_eq_true, hasPath_iff inside bound] at apart
  rw [Bool.eq_iff_iff, hasPath_iff extended bound, hasPath_iff inside bound, arrow_addArc]
  constructor
  · intro path
    rcases reflTransGen_insert path with around | ⟨back, _⟩
    · exact around
    · exact absurd back apart
  · exact ReflTransGen.mono (fun _ _ step => Or.inl step) goal node

end Inside

end Digraph

end ElasticJob
