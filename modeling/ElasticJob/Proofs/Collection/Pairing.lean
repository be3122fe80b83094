import ElasticJob.Error
import Mathlib.Data.List.Forall2

/-!
Lists whose items correspond one to one. A traversal that succeeds pairs every item with its
result, one that fails stops at an item, and in an option it succeeds just where every step does.
-/

namespace ElasticJob

theorem exists_paired {α β : Type} {related : α → β → Prop} {items : List α} {results : List β}
    (paired : List.Forall₂ related items results) (item : α) (listed : item ∈ items) :
    ∃ result ∈ results, related item result := by
  induction paired with
  | nil => cases listed
  | cons head _ ih =>
      rcases List.mem_cons.mp listed with rfl | later
      · exact ⟨_, List.mem_cons_self, head⟩
      · obtain ⟨result, stored, found⟩ := ih later
        exact ⟨result, List.mem_cons_of_mem _ stored, found⟩

theorem mapM_forall₂ {α β ε : Type} (step : α → Except ε β) (items : List α) (results : List β)
    (done : items.mapM step = .ok results) :
    List.Forall₂ (fun item result => step item = .ok result) items results := by
  induction items generalizing results with
  | nil =>
      cases done
      exact .nil
  | cons first rest ih =>
      rw [List.mapM_cons] at done
      obtain ⟨result, head, later⟩ := bind_eq_ok_iff.mp done
      obtain ⟨others, tail, made⟩ := bind_eq_ok_iff.mp later
      cases made
      exact .cons head (ih others tail)

theorem mapM_error {α β ε : Type} {step : α → Except ε β} {items : List α} {error : ε}
    (failed : items.mapM step = .error error) : ∃ item ∈ items, step item = .error error := by
  induction items with
  | nil => cases failed
  | cons first rest ih =>
      rw [List.mapM_cons] at failed
      cases head : step first with
      | error other =>
          rw [head] at failed
          cases failed
          exact ⟨first, List.mem_cons_self, head⟩
      | ok result =>
          cases tail : rest.mapM step with
          | error other =>
              rw [head, tail] at failed
              cases failed
              obtain ⟨item, listed, found⟩ := ih tail
              exact ⟨item, List.mem_cons_of_mem _ listed, found⟩
          | ok others =>
              rw [head, tail] at failed
              cases failed

theorem mapM_eq_some_iff {α β : Type} {step : α → Option β} {items : List α} {results : List β} :
    items.mapM step = some results ↔
      List.Forall₂ (fun item result => step item = some result) items results := by
  induction items generalizing results with
  | nil => simp [eq_comm, pure]
  | cons first rest ih =>
      rw [List.mapM_cons, List.forall₂_cons_left_iff]
      constructor
      · intro done
        obtain ⟨result, head, later⟩ := Option.bind_eq_some_iff.mp done
        obtain ⟨others, tail, made⟩ := Option.bind_eq_some_iff.mp later
        cases made
        exact ⟨result, others, head, ih.mp tail, rfl⟩
      · rintro ⟨result, others, head, tail, rfl⟩
        exact Option.bind_eq_some_iff.mpr
          ⟨result, head, Option.bind_eq_some_iff.mpr ⟨others, ih.mpr tail, rfl⟩⟩

end ElasticJob
