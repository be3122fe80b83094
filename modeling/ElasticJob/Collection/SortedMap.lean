/-!
Finite maps kept as a list of entries with strictly ascending keys. Two maps with the same
entries are the same value, so equality of maps needs no order of insertion. The view is
`get?`; every operation has one equation through it, and `ext_get?` says the view decides.
-/

universe u v w

class KeyOrder (κ : Type u) extends Ord κ where
  trans : Std.TransOrd κ := by infer_instance
  lawful : Std.LawfulEqOrd κ := by infer_instance

attribute [instance] KeyOrder.trans KeyOrder.lawful

instance : KeyOrder String where

instance : KeyOrder Nat where

namespace ElasticJob

structure SortedMap (κ : Type u) (ν : Type v) [KeyOrder κ] where
  entries : List (κ × ν)
  ascending : entries.Pairwise fun a b => compare a.1 b.1 = .lt

namespace SortedMap

variable {κ : Type u} {ν : Type v} [KeyOrder κ]

theorem eq_of_entries {a b : SortedMap κ ν} (same : a.entries = b.entries) : a = b := by
  cases a; cases b; cases same; rfl

instance [DecidableEq κ] [DecidableEq ν] : DecidableEq (SortedMap κ ν) := fun a b =>
  if same : a.entries = b.entries then .isTrue (eq_of_entries same)
  else .isFalse fun equal => same (congrArg entries equal)

def empty : SortedMap κ ν := ⟨[], .nil⟩

instance : EmptyCollection (SortedMap κ ν) := ⟨empty⟩

instance : Inhabited (SortedMap κ ν) := ⟨empty⟩

def lookup (key : κ) : List (κ × ν) → Option ν
  | [] => none
  | entry :: rest => if compare key entry.1 = .eq then some entry.2 else lookup key rest

def get? (map : SortedMap κ ν) (key : κ) : Option ν :=
  lookup key map.entries

def contains (map : SortedMap κ ν) (key : κ) : Bool :=
  (map.get? key).isSome

def keys (map : SortedMap κ ν) : List κ :=
  map.entries.map Prod.fst

def values (map : SortedMap κ ν) : List ν :=
  map.entries.map Prod.snd

def size (map : SortedMap κ ν) : Nat :=
  map.entries.length

def isEmpty (map : SortedMap κ ν) : Bool :=
  map.entries.isEmpty

def place (key : κ) (value : ν) : List (κ × ν) → List (κ × ν)
  | [] => [(key, value)]
  | entry :: rest =>
      match compare key entry.1 with
      | .lt => (key, value) :: entry :: rest
      | .eq => (key, value) :: rest
      | .gt => entry :: place key value rest

theorem mem_place {key : κ} {value : ν} {entries : List (κ × ν)} {entry : κ × ν}
    (member : entry ∈ place key value entries) : entry = (key, value) ∨ entry ∈ entries := by
  induction entries with
  | nil => simpa [place] using member
  | cons head rest ih =>
      simp only [place] at member
      split at member
      · simpa using member
      · rcases List.mem_cons.1 member with same | later
        · exact .inl same
        · exact .inr (List.mem_cons_of_mem _ later)
      · rcases List.mem_cons.1 member with same | later
        · exact .inr (same ▸ List.mem_cons_self)
        · exact (ih later).imp id (List.mem_cons_of_mem _)

theorem place_ascending (key : κ) (value : ν) (entries : List (κ × ν))
    (sorted : entries.Pairwise fun a b => compare a.1 b.1 = .lt) :
    (place key value entries).Pairwise fun a b => compare a.1 b.1 = .lt := by
  induction entries with
  | nil => simp [place]
  | cons head rest ih =>
      obtain ⟨below, tail⟩ := List.pairwise_cons.1 sorted
      simp only [place]
      split
      next before =>
        refine List.pairwise_cons.2 ⟨fun entry member => ?_, sorted⟩
        rcases List.mem_cons.1 member with same | later
        · exact same ▸ before
        · exact Std.TransCmp.lt_trans before (below entry later)
      next same =>
        have equal := Std.LawfulEqCmp.eq_of_compare same
        exact List.pairwise_cons.2 ⟨fun entry member => equal ▸ below entry member, tail⟩
      next after =>
        refine List.pairwise_cons.2 ⟨fun entry member => ?_, ih tail⟩
        rcases mem_place member with same | later
        · exact same ▸ Std.OrientedCmp.lt_of_gt after
        · exact below entry later

def insert (map : SortedMap κ ν) (key : κ) (value : ν) : SortedMap κ ν :=
  ⟨place key value map.entries, place_ascending key value map.entries map.ascending⟩

def filter (map : SortedMap κ ν) (keep : κ → ν → Bool) : SortedMap κ ν :=
  ⟨map.entries.filter fun entry => keep entry.1 entry.2, map.ascending.filter _⟩

def erase (map : SortedMap κ ν) (key : κ) : SortedMap κ ν :=
  map.filter fun other _ => compare key other != .eq

/-- Later entries win over earlier ones and over the map. -/
def insertMany (map : SortedMap κ ν) (entries : List (κ × ν)) : SortedMap κ ν :=
  entries.foldl (fun acc entry => acc.insert entry.1 entry.2) map

def ofList (entries : List (κ × ν)) : SortedMap κ ν :=
  empty.insertMany entries

def group (entries : List (κ × ν)) : SortedMap κ (List ν) :=
  entries.foldl (fun map entry =>
    map.insert entry.1 ((map.get? entry.1).getD [] ++ [entry.2])) empty

def overlay (below above : SortedMap κ ν) : SortedMap κ ν :=
  below.insertMany above.entries

def toList (map : SortedMap κ ν) : List (κ × ν) :=
  map.entries

theorem compare_self (key : κ) : compare key key = .eq :=
  Std.ReflCmp.compare_self

theorem compare_eq_iff {a b : κ} : compare a b = .eq ↔ a = b :=
  Std.LawfulEqCmp.compare_eq_iff_eq

theorem lookup_place (key : κ) (value : ν) (entries : List (κ × ν)) (other : κ) :
    lookup other (place key value entries) =
      if compare other key = .eq then some value else lookup other entries := by
  induction entries with
  | nil => simp [place, lookup]
  | cons head rest ih =>
      simp only [place]
      split
      · simp [lookup]
      next same =>
        have equal := compare_eq_iff.1 same
        by_cases hit : compare other key = .eq
        · simp [lookup, hit]
        · simp [lookup, hit, ← equal]
      next after =>
        simp only [lookup, ih]
        by_cases hit : compare other head.1 = .eq
        · have equal := compare_eq_iff.1 hit
          have miss : compare other key ≠ .eq := by
            intro same
            rw [← compare_eq_iff.1 same, equal, compare_self] at after
            cases after
          simp [hit, miss]
        · simp [hit]

@[simp] theorem get?_empty (key : κ) : (empty : SortedMap κ ν).get? key = none := rfl

theorem get?_insert (map : SortedMap κ ν) (key : κ) (value : ν) (other : κ) :
    (map.insert key value).get? other =
      if compare other key = .eq then some value else map.get? other :=
  lookup_place key value map.entries other

@[simp] theorem get?_insert_self (map : SortedMap κ ν) (key : κ) (value : ν) :
    (map.insert key value).get? key = some value := by
  simp [get?_insert]

theorem get?_insert_ne (map : SortedMap κ ν) {key other : κ} (value : ν) (apart : other ≠ key) :
    (map.insert key value).get? other = map.get? other := by
  have miss : compare other key ≠ .eq := fun same => apart (compare_eq_iff.1 same)
  simp [get?_insert, miss]

theorem keys_nodup (map : SortedMap κ ν) : map.keys.Nodup := by
  unfold keys
  rw [List.Nodup, List.pairwise_map]
  refine map.ascending.imp fun {first second} less same => ?_
  rw [same, compare_self] at less
  cases less

theorem lookup_eq_some_iff {entries : List (κ × ν)} {key : κ} {value : ν}
    (distinct : (entries.map Prod.fst).Nodup) :
    lookup key entries = some value ↔ (key, value) ∈ entries := by
  induction entries with
  | nil => simp [lookup]
  | cons head rest ih =>
      obtain ⟨alone, others⟩ := List.nodup_cons.mp distinct
      rw [lookup, List.mem_cons]
      split
      next same =>
        obtain rfl := compare_eq_iff.mp same
        constructor
        · intro found
          exact .inl (by rw [← Option.some.inj found])
        · rintro (found | later)
          · rw [← found]
          · exact absurd (List.mem_map_of_mem later) alone
      next apart =>
        rw [ih others]
        refine ⟨.inr, fun found => found.resolve_left ?_⟩
        rintro rfl
        exact apart (compare_self key)

theorem get?_eq_some_iff {map : SortedMap κ ν} {key : κ} {value : ν} :
    map.get? key = some value ↔ (key, value) ∈ map.entries :=
  lookup_eq_some_iff map.keys_nodup

theorem contains_iff {map : SortedMap κ ν} {key : κ} :
    map.contains key = true ↔ key ∈ map.keys := by
  simp only [contains, Option.isSome_iff_exists, get?_eq_some_iff, keys, List.mem_map]
  constructor
  · rintro ⟨value, member⟩
    exact ⟨_, member, rfl⟩
  · rintro ⟨entry, member, rfl⟩
    exact ⟨entry.2, member⟩

theorem get?_filter (map : SortedMap κ ν) (keep : κ → ν → Bool) (key : κ) :
    (map.filter keep).get? key = (map.get? key).filter (keep key) := by
  apply Option.ext
  intro value
  rw [Option.filter_eq_some_iff, get?_eq_some_iff, get?_eq_some_iff]
  simp [filter]

theorem get?_erase (map : SortedMap κ ν) (key other : κ) :
    (map.erase key).get? other = if compare key other = .eq then none else map.get? other := by
  rw [erase, get?_filter]
  cases map.get? other <;> by_cases hit : compare key other = .eq <;> simp [hit]

private theorem entries_eq {left right : List (κ × ν)}
    (leftSorted : left.Pairwise fun a b => compare a.1 b.1 = .lt)
    (rightSorted : right.Pairwise fun a b => compare a.1 b.1 = .lt)
    (same : ∀ entry, entry ∈ left ↔ entry ∈ right) : left = right := by
  induction left generalizing right with
  | nil =>
      cases right with
      | nil => rfl
      | cons head rest => exact absurd ((same head).2 List.mem_cons_self) (by simp)
  | cons head rest ih =>
      obtain ⟨below, tail⟩ := List.pairwise_cons.1 leftSorted
      cases right with
      | nil => exact absurd ((same head).1 List.mem_cons_self) (by simp)
      | cons other others =>
          obtain ⟨otherBelow, otherTail⟩ := List.pairwise_cons.1 rightSorted
          have irrefl : ∀ key : κ, compare key key ≠ .lt := by
            intro key less
            rw [compare_self] at less
            cases less
          have heads : head = other := by
            rcases List.mem_cons.1 ((same head).1 List.mem_cons_self) with equal | later
            · exact equal
            · rcases List.mem_cons.1 ((same other).2 List.mem_cons_self) with equal | earlier
              · exact equal.symm
              · exact absurd (Std.TransCmp.lt_trans (below _ earlier) (otherBelow _ later))
                  (irrefl head.1)
          subst heads
          refine congrArg (head :: ·) (ih tail otherTail fun entry => ?_)
          constructor
          · intro member
            have found := (same entry).1 (List.mem_cons_of_mem _ member)
            rcases List.mem_cons.1 found with equal | later
            · exact absurd (below _ member) (equal ▸ irrefl _)
            · exact later
          · intro member
            have found := (same entry).2 (List.mem_cons_of_mem _ member)
            rcases List.mem_cons.1 found with equal | later
            · exact absurd (otherBelow _ member) (equal ▸ irrefl _)
            · exact later

theorem ext_get? {a b : SortedMap κ ν} (same : ∀ key, a.get? key = b.get? key) : a = b := by
  apply eq_of_entries
  apply entries_eq a.ascending b.ascending
  rintro ⟨key, value⟩
  rw [← get?_eq_some_iff, ← get?_eq_some_iff, same]

/-- Values that depend on the key alone may be inserted in any order, and more than once. -/
theorem get?_insertMany_map [DecidableEq κ] (map : SortedMap κ ν) (keys : List κ) (value : κ → ν)
    (key : κ) :
    (map.insertMany (keys.map fun other => (other, value other))).get? key =
      if key ∈ keys then some (value key) else map.get? key := by
  induction keys generalizing map with
  | nil => rfl
  | cons first rest ih =>
      change ((map.insert first (value first)).insertMany _).get? key = _
      rw [ih]
      by_cases here : key = first
      · subst here
        simp
      · rw [get?_insert_ne map _ here]
        simp [here]

end SortedMap

end ElasticJob
