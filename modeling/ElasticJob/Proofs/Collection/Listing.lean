import ElasticJob.Collection.SortedMap
import Mathlib.Data.List.Nodup

/-!
Maps and the lists of their entries. A list in which no key comes twice lists the map that is made
of it, and whatever the order of a listing, sorting it by key gives the entries of the map.
-/

universe u v

namespace ElasticJob.SortedMap

variable {κ : Type u} {ν : Type v} [KeyOrder κ]

theorem contains_insert (map : SortedMap κ ν) (key : κ) (value : ν) (other : κ) :
    (map.insert key value).contains other = true ↔ other = key ∨ map.contains other = true := by
  by_cases same : other = key
  · subst same
    simp [contains]
  · simp [contains, get?_insert_ne map value same, same]

theorem lookup_eq_none_iff {entries : List (κ × ν)} {key : κ} :
    lookup key entries = none ↔ key ∉ entries.map Prod.fst := by
  induction entries with
  | nil => simp [lookup]
  | cons head rest ih =>
      by_cases here : key = head.1
      · subst here
        simp [lookup]
      · have apart : compare key head.1 ≠ .eq := fun same => here (compare_eq_iff.mp same)
        rw [lookup, if_neg apart, ih]
        simp [here]

theorem lookup_map {μ : Type} (entries : List (κ × ν)) (change : ν → μ) (key : κ) :
    lookup key (entries.map fun entry => (entry.1, change entry.2)) =
      (lookup key entries).map change := by
  induction entries with
  | nil => rfl
  | cons head rest ih =>
      rw [List.map_cons, lookup, lookup, ih]
      split <;> rfl

theorem get?_insertMany {entries : List (κ × ν)} (distinct : (entries.map Prod.fst).Nodup)
    (map : SortedMap κ ν) (key : κ) :
    (map.insertMany entries).get? key = (lookup key entries).or (map.get? key) := by
  induction entries generalizing map with
  | nil => rfl
  | cons head rest ih =>
      obtain ⟨alone, others⟩ := List.nodup_cons.mp distinct
      change ((map.insert head.1 head.2).insertMany rest).get? key = _
      rw [ih others, get?_insert, lookup]
      by_cases here : compare key head.1 = .eq
      · obtain rfl := compare_eq_iff.mp here
        simp [lookup_eq_none_iff.mpr alone]
      · simp [here]

/-- What a key holds afterwards depends on what that key held, and on no other. -/
theorem insertMany_congr {first second : SortedMap κ ν} {key : κ}
    (same : first.get? key = second.get? key) (entries : List (κ × ν)) :
    (first.insertMany entries).get? key = (second.insertMany entries).get? key := by
  induction entries generalizing first second with
  | nil => exact same
  | cons head rest ih =>
      have next : (first.insert head.1 head.2).get? key =
          (second.insert head.1 head.2).get? key := by
        rw [get?_insert, get?_insert, same]
      exact ih next

theorem get?_insertMany_filter (map : SortedMap κ ν) (entries : List (κ × ν)) (keep : κ → Bool)
    (key : κ) :
    (map.insertMany (entries.filter fun entry => keep entry.1)).get? key =
      if keep key then (map.insertMany entries).get? key else map.get? key := by
  induction entries generalizing map with
  | nil => simp [insertMany]
  | cons head rest ih =>
      have apart (unlike : keep key ≠ keep head.1) :
          (map.insert head.1 head.2).get? key = map.get? key :=
        get?_insert_ne map head.2 fun same => unlike (congrArg keep same)
      rw [List.filter_cons]
      by_cases here : keep head.1 = true <;> by_cases taken : keep key = true
      · rw [if_pos here, if_pos taken]
        exact (ih _).trans (if_pos taken)
      · rw [if_pos here, if_neg taken]
        exact (ih _).trans ((if_neg taken).trans (apart (by simp [here, taken])))
      · rw [if_neg here, if_pos taken, ih, if_pos taken]
        exact insertMany_congr (apart (by simp [here, taken])).symm rest
      · rw [if_neg here, if_neg taken, ih, if_neg taken]

theorem get?_ofList_eq_some_iff {entries : List (κ × ν)}
    (distinct : (entries.map Prod.fst).Nodup) {key : κ} {value : ν} :
    (ofList entries).get? key = some value ↔ (key, value) ∈ entries := by
  rw [ofList, get?_insertMany distinct, get?_empty, Option.or_none,
    lookup_eq_some_iff distinct]

theorem eq_ofList_iff {entries : List (κ × ν)} (distinct : (entries.map Prod.fst).Nodup)
    {map : SortedMap κ ν} :
    map = ofList entries ↔ ∀ key value, map.get? key = some value ↔ (key, value) ∈ entries := by
  constructor
  · rintro rfl key value
    exact get?_ofList_eq_some_iff distinct
  · intro same
    refine ext_get? fun key => Option.ext fun value => ?_
    rw [same, get?_ofList_eq_some_iff distinct]

theorem entries_ofList_perm {entries : List (κ × ν)} (distinct : (entries.map Prod.fst).Nodup) :
    (ofList entries).entries.Perm entries := by
  refine (List.perm_ext_iff_of_nodup (List.Nodup.of_map _ (ofList entries).keys_nodup)
    (List.Nodup.of_map _ distinct)).mpr ?_
  rintro ⟨key, value⟩
  rw [← get?_eq_some_iff, get?_ofList_eq_some_iff distinct]

theorem ofList_entries (map : SortedMap κ ν) : ofList map.entries = map :=
  ((eq_ofList_iff map.keys_nodup).mpr fun _ _ => get?_eq_some_iff).symm

theorem entries_ofList_eq_iff {entries : List (κ × ν)} :
    (ofList entries).entries = entries ↔
      entries.Pairwise fun first second => compare first.1 second.1 = .lt := by
  constructor
  · intro same
    rw [← same]
    exact (ofList entries).ascending
  · intro ascending
    rw [ofList_entries ⟨entries, ascending⟩]

def sortByKey (entries : List (κ × ν)) : List (κ × ν) :=
  entries.mergeSort fun first second => (compare first.1 second.1).isLE

theorem sortByKey_listing {map : SortedMap κ ν} {listing : List (κ × ν)}
    (lists : listing.Perm map.entries) : sortByKey listing = map.entries := by
  have same : (sortByKey listing).Perm map.entries := (List.mergeSort_perm _ _).trans lists
  have distinct : ((sortByKey listing).map Prod.fst).Nodup :=
    (same.map Prod.fst).nodup_iff.mpr map.keys_nodup
  have ordered : (sortByKey listing).Pairwise fun first second =>
      (compare first.1 second.1).isLE = true := by
    refine List.pairwise_mergeSort (fun first second third => ?_) (fun first second => ?_) _
    · exact Std.TransCmp.isLE_trans
    · have swapped : compare second.1 first.1 = (compare first.1 second.1).swap :=
        Std.OrientedCmp.eq_swap
      rw [swapped]
      cases compare first.1 second.1 <;> rfl
  have ascending : (sortByKey listing).Pairwise fun first second =>
      compare first.1 second.1 = .lt := by
    refine (ordered.and (List.pairwise_map.mp distinct)).imp fun {first second} both => ?_
    obtain ⟨below, apart⟩ := both
    cases order : compare first.1 second.1 with
    | lt => rfl
    | eq => exact absurd (compare_eq_iff.mp order) apart
    | gt => simp [order] at below
  have whole : map = ofList (sortByKey listing) :=
    (eq_ofList_iff distinct).mpr fun key value => by rw [same.mem_iff, get?_eq_some_iff]
  rw [whole, entries_ofList_eq_iff.mpr ascending]

end ElasticJob.SortedMap
