import ElasticJob.Settings.Key
import Mathlib.Data.List.Nodup
import Mathlib.Data.List.Perm.Basic

/-!
What becomes of each key when legacy keys are modernized. Where no key stands twice in the table, an
entry neither reads nor writes what another entry does, so each entry finds the properties as they
were at first, whatever the order of the entries. The result tells what it holds under each key, and
nothing is left in it to modernize.
-/

namespace ElasticJob.Settings.Legacy

def keysOf (table : Table) : List String :=
  table.flatMap fun entry => entry.1 :: entry.2

/-- No key stands twice in the table, so none is both legacy and current, and none is fed twice. -/
def Tidy (table : Table) : Prop :=
  (keysOf table).Nodup

theorem Tidy.reorder {table order : Table} (tidy : Tidy table) (rearranged : order.Perm table) :
    Tidy order :=
  (rearranged.flatMap_right _).nodup_iff.mpr tidy

/-- What a table makes of properties: a legacy key goes away, a current key without a value of its
own takes the one of the legacy key, and any other key is left alone. -/
structure Modernized (table : Table) (before after : Properties) : Prop where
  name : after.name = before.name
  legacy : ∀ entry ∈ table, after.get? entry.1 = none
  current : ∀ entry ∈ table, ∀ key ∈ entry.2,
    after.get? key = (before.get? key).or (before.get? entry.1)
  other : ∀ key, (∀ entry ∈ table, key ≠ entry.1 ∧ key ∉ entry.2) →
    after.get? key = before.get? key

section Modernized

variable {table order : Table} {before after : Properties}

theorem Modernized.reorder (modernized : Modernized order before after)
    (rearranged : order.Perm table) : Modernized table before after where
  name := modernized.name
  legacy entry listed := modernized.legacy entry (rearranged.mem_iff.mpr listed)
  current entry listed := modernized.current entry (rearranged.mem_iff.mpr listed)
  other key beside := modernized.other key fun entry listed =>
    beside entry (rearranged.mem_iff.mp listed)

theorem Modernized.unique {second : Properties} (one : Modernized table before after)
    (two : Modernized table before second) : after = second := by
  apply Properties.ext_get? (one.name.trans two.name.symm)
  intro key
  by_cases spoken : ∃ entry ∈ table, key = entry.1 ∨ key ∈ entry.2
  · obtain ⟨entry, listed, legacy | current⟩ := spoken
    · rw [legacy, one.legacy entry listed, two.legacy entry listed]
    · rw [one.current entry listed key current, two.current entry listed key current]
  · have beside : ∀ entry ∈ table, key ≠ entry.1 ∧ key ∉ entry.2 := by
      intro entry listed
      have apart := fun met => spoken ⟨entry, listed, met⟩
      exact ⟨fun same => apart (.inl same), fun member => apart (.inr member)⟩
    rw [one.other key beside, two.other key beside]

theorem Modernized.again (modernized : Modernized table before after) :
    Modernized table after after where
  name := rfl
  legacy := modernized.legacy
  current entry listed key _ := by rw [modernized.legacy entry listed, Option.or_none]
  other _ _ := rfl

end Modernized

theorem setAbsent_name (value : String) (properties : Properties) (key : String) :
    (setAbsent value properties key).name = properties.name := by
  unfold setAbsent
  split <;> rfl

theorem get?_setAbsent (value : String) (properties : Properties) (key other : String) :
    (setAbsent value properties key).get? other =
      if other = key then (properties.get? other).or (some value) else properties.get? other := by
  have present : properties.contains key = (properties.get? key).isSome := rfl
  unfold setAbsent
  by_cases same : other = key
  · subst same
    cases held : properties.get? other <;> simp [present, held, Properties.get?_set]
  · rw [if_neg same]
    split
    · rfl
    · rw [Properties.get?_set, if_neg same]

theorem foldl_setAbsent_name (value : String) (keys : List String) (properties : Properties) :
    (keys.foldl (setAbsent value) properties).name = properties.name := by
  induction keys generalizing properties with
  | nil => rfl
  | cons first rest ih => rw [List.foldl_cons, ih, setAbsent_name]

theorem get?_foldl_setAbsent (value : String) (keys : List String) (properties : Properties)
    (key : String) :
    (keys.foldl (setAbsent value) properties).get? key =
      if key ∈ keys then (properties.get? key).or (some value) else properties.get? key := by
  induction keys generalizing properties with
  | nil => rfl
  | cons first rest ih =>
      rw [List.foldl_cons, ih, get?_setAbsent]
      by_cases here : key = first
      · -- a second attempt at the key finds it set
        cases properties.get? key <;> simp [here]
      · simp [here]

section Entry

variable (properties : Properties) (entry : String × List String)

theorem modernizeEntry_name : (modernizeEntry properties entry).name = properties.name := by
  unfold modernizeEntry
  split
  · rfl
  · exact foldl_setAbsent_name _ _ _

theorem modernizeEntry_legacy (apart : entry.1 ∉ entry.2) :
    (modernizeEntry properties entry).get? entry.1 = none := by
  unfold modernizeEntry
  split
  next absent => exact absent
  next value held => rw [get?_foldl_setAbsent, if_neg apart, Properties.get?_unset, if_pos rfl]

theorem modernizeEntry_current (apart : entry.1 ∉ entry.2) (key : String) (fed : key ∈ entry.2) :
    (modernizeEntry properties entry).get? key =
      (properties.get? key).or (properties.get? entry.1) := by
  have differs : key ≠ entry.1 := fun same => apart (same ▸ fed)
  unfold modernizeEntry
  split
  next absent => rw [absent, Option.or_none]
  next value held =>
    rw [get?_foldl_setAbsent, if_pos fed, Properties.get?_unset, if_neg differs, held]

theorem modernizeEntry_other (key : String) (differs : key ≠ entry.1) (unfed : key ∉ entry.2) :
    (modernizeEntry properties entry).get? key = properties.get? key := by
  unfold modernizeEntry
  split
  · rfl
  · rw [get?_foldl_setAbsent, if_neg unfed, Properties.get?_unset, if_neg differs]

end Entry

theorem Tidy.cons {first : String × List String} {rest : Table} (tidy : Tidy (first :: rest)) :
    first.1 ∉ first.2 ∧ Tidy rest ∧
      ∀ key ∈ first.1 :: first.2, ∀ entry ∈ rest, key ≠ entry.1 ∧ key ∉ entry.2 := by
  have whole : ((first.1 :: first.2) ++ keysOf rest).Nodup := tidy
  obtain ⟨own, others, apart⟩ := List.nodup_append.mp whole
  refine ⟨(List.nodup_cons.mp own).1, others, fun key spoken entry listed => ?_⟩
  have met : ∀ other ∈ entry.1 :: entry.2, key ≠ other := by
    intro other named
    exact apart key spoken other (List.mem_flatMap.mpr ⟨entry, listed, named⟩)
  exact ⟨met entry.1 List.mem_cons_self,
    fun member => met key (List.mem_cons_of_mem _ member) rfl⟩

/-- Entry by entry: the first one finds the properties as they are, and the later ones find all
that they read as it was before the first. -/
theorem modernizeBy_modernized (table : Table) (properties : Properties) (tidy : Tidy table) :
    Modernized table properties (modernizeBy table properties) := by
  induction table generalizing properties with
  | nil => exact ⟨rfl, by simp, by simp, fun _ _ => rfl⟩
  | cons first rest ih =>
      obtain ⟨own, others, apart⟩ := tidy.cons
      have later := ih (modernizeEntry properties first) others
      change Modernized _ _ (modernizeBy rest (modernizeEntry properties first))
      -- what a later entry speaks of, the first one leaves alone
      have untouched : ∀ entry ∈ rest, ∀ key ∈ entry.1 :: entry.2,
          (modernizeEntry properties first).get? key = properties.get? key := by
        intro entry listed key spoken
        have unmet : key ∉ first.1 :: first.2 := by
          intro met
          obtain ⟨legacy, current⟩ := apart key met entry listed
          rcases List.mem_cons.mp spoken with same | fed
          · exact legacy same
          · exact current fed
        apply modernizeEntry_other
        · exact fun same => unmet (same ▸ List.mem_cons_self)
        · exact fun fed => unmet (List.mem_cons_of_mem _ fed)
      constructor
      · rw [later.name, modernizeEntry_name]
      · intro entry listed
        rcases List.mem_cons.mp listed with rfl | listed
        · rw [later.other _ (apart _ List.mem_cons_self), modernizeEntry_legacy _ _ own]
        · exact later.legacy entry listed
      · intro entry listed key fed
        rcases List.mem_cons.mp listed with rfl | listed
        · rw [later.other _ (apart _ (List.mem_cons_of_mem _ fed)),
            modernizeEntry_current _ _ own key fed]
        · rw [later.current entry listed key fed,
            untouched entry listed key (List.mem_cons_of_mem _ fed),
            untouched entry listed entry.1 List.mem_cons_self]
      · intro key beside
        obtain ⟨differs, unfed⟩ := beside first List.mem_cons_self
        rw [later.other key fun entry listed => beside entry (List.mem_cons_of_mem _ listed),
          modernizeEntry_other _ _ key differs unfed]

theorem table_tidy : Tidy table := by
  unfold Tidy
  decide +kernel

/-- Whatever the order of the table, modernizing properties gives one result: no legacy key is left
in it, a current key holds its own value if it had one and else the value of its legacy key, and any
other key holds what it did. Doing so once more, in whatever order, changes nothing. -/
theorem order_of_table_is_immaterial (properties : Properties) (order : Table)
    (rearranged : order.Perm table) :
    let result := modernizeBy order properties
    result = modernize properties ∧ Modernized table properties result ∧
      ∀ again : Table, again.Perm table → modernizeBy again result = result := by
  intro result
  have anyOrder : ∀ (some : Table) (start : Properties), some.Perm table →
      Modernized table start (modernizeBy some start) := by
    intro some start same
    exact (modernizeBy_modernized some start (table_tidy.reorder same)).reorder same
  have modernized := anyOrder order properties rearranged
  refine ⟨?_, modernized, fun again same => ?_⟩
  · exact modernized.unique (anyOrder table properties (.refl table))
  · exact (anyOrder again result same).unique modernized.again

/-- The legacy comparator of groups feeds two keys, one of which has a value of its own already; the
legacy key of the sort buffer feeds one. -/
theorem reversed_table_feeds_both_keys :
    let properties := (((Properties.empty "job").set
      "mapreduce.job.output.group.comparator.class" "ByName").set
      Key.keySecondaryComparatorClass "Explicit").set "mapreduce.task.io.sort.mb" "50"
    let result := modernizeBy table.reverse properties
    result.get? "mapreduce.job.output.group.comparator.class" = none ∧
      result.get? Key.groupComparatorClass = some "ByName" ∧
      result.get? Key.keySecondaryComparatorClass = some "Explicit" ∧
      result.get? Key.ioSortMb = some "50" ∧ result = modernize properties := by
  intro properties result
  obtain ⟨same, modernized, _⟩ :=
    order_of_table_is_immaterial properties table.reverse (List.reverse_perm table)
  have comparator : ("mapreduce.job.output.group.comparator.class",
      [Key.groupComparatorClass, Key.keySecondaryComparatorClass]) ∈ table := by
    decide +kernel
  have memory : ("mapreduce.task.io.sort.mb", [Key.ioSortMb]) ∈ table := by
    decide +kernel
  have gone := modernized.legacy _ comparator
  refine ⟨gone, ?_, ?_, ?_, same⟩
  · rw [modernized.current _ comparator _ (by simp)]
    decide +kernel
  · rw [modernized.current _ comparator _ (by simp)]
    decide +kernel
  · rw [modernized.current _ memory _ (by simp)]
    decide +kernel

end ElasticJob.Settings.Legacy
