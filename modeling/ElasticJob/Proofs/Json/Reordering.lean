import ElasticJob.Json.Value
import ElasticJob.Proofs.Collection.Listing
import ElasticJob.Proofs.Collection.Pairing
import Mathlib.Data.List.Perm.Basic

/-!
JSON values that differ in the order of object fields only. A map is written in no particular
order, so a decoder that is to undo an encoder must read every such value. Decoders are shown to do
so part by part: each way to put encoders together has a way to read what comes of it.
-/

namespace ElasticJob

namespace Json

inductive Reordered : Json → Json → Prop where
  | null : Reordered .null .null
  | bool (value : Bool) : Reordered (.bool value) (.bool value)
  | int (value : Int) : Reordered (.int value) (.int value)
  | real (text : String) : Reordered (.real text) (.real text)
  | str (value : String) : Reordered (.str value) (.str value)
  | unreadable : Reordered .unreadable .unreadable
  | arr {items others : List Json} (each : List.Forall₂ Reordered items others) :
      Reordered (.arr items) (.arr others)
  | obj {fields renewed others : List (String × Json)}
      (names : fields.map Prod.fst = renewed.map Prod.fst)
      (each : List.Forall₂ Reordered (fields.map Prod.snd) (renewed.map Prod.snd))
      (order : renewed.Perm others) : Reordered (.obj fields) (.obj others)

theorem Reordered.refl (json : Json) : Reordered json json := by
  match json with
  | .null => exact .null
  | .bool value => exact .bool value
  | .int value => exact .int value
  | .real text => exact .real text
  | .str value => exact .str value
  | .unreadable => exact .unreadable
  | .arr items => exact .arr (List.forall₂_same.mpr fun item listed => Reordered.refl item)
  | .obj fields =>
      refine .obj rfl (List.forall₂_same.mpr fun value listed => ?_) (.refl fields)
      exact Reordered.refl value
termination_by json
decreasing_by
  · have := List.sizeOf_lt_of_mem listed
    simp only [Json.arr.sizeOf_spec]
    omega
  · obtain ⟨field, stored, rfl⟩ := List.mem_map.mp listed
    have := List.sizeOf_lt_of_mem stored
    cases field
    simp only [Json.obj.sizeOf_spec, Prod.mk.sizeOf_spec] at *
    omega

def FieldReordered (field other : String × Json) : Prop :=
  field.1 = other.1 ∧ Reordered field.2 other.2

theorem forall₂_fieldReordered {fields renewed : List (String × Json)}
    (names : fields.map Prod.fst = renewed.map Prod.fst)
    (each : List.Forall₂ Reordered (fields.map Prod.snd) (renewed.map Prod.snd)) :
    List.Forall₂ FieldReordered fields renewed := by
  induction fields generalizing renewed with
  | nil =>
      cases renewed with
      | nil => exact .nil
      | cons => cases names
  | cons field rest ih =>
      cases renewed with
      | nil => cases names
      | cons other others =>
          obtain ⟨name, later⟩ := List.cons.inj names
          cases each with
          | cons value values => exact .cons ⟨name, value⟩ (ih later values)

theorem Reordered.of_arr {items : List Json} {json : Json} (same : Reordered (.arr items) json) :
    ∃ others, json = .arr others ∧ List.Forall₂ Reordered items others := by
  cases same with
  | arr each => exact ⟨_, rfl, each⟩

theorem Reordered.of_obj {fields : List (String × Json)} {json : Json}
    (same : Reordered (.obj fields) json) :
    ∃ renewed others, json = .obj others ∧ List.Forall₂ FieldReordered fields renewed ∧
      renewed.Perm others := by
  cases same with
  | obj names each order => exact ⟨_, _, rfl, forall₂_fieldReordered names each, order⟩

theorem Reordered.of_variant {name : String} {content json : Json}
    (same : Reordered (.variant name content) json) :
    ∃ other, json = .variant name other ∧ Reordered content other := by
  obtain ⟨renewed, others, rfl, each, order⟩ := same.of_obj
  cases each with
  | cons field rest =>
      cases rest
      obtain rfl := List.perm_singleton.mp order.symm
      obtain ⟨rfl, kept⟩ := field
      exact ⟨_, rfl, kept⟩

theorem Reordered.ne_null {json other : Json} (same : Reordered json other) (solid : json ≠ .null) :
    other ≠ .null := by
  rintro rfl
  cases same
  exact solid rfl

/-- The decoder undoes the encoder, in whatever order fields come. -/
def Undoes {α : Type} (encode : α → Json) (decode : Json → Option α) : Prop :=
  ∀ value json, Reordered (encode value) json → decode json = some value

theorem Undoes.required {α : Type} {encode : α → Json} {decode : Json → Option α}
    (undone : Undoes encode decode) {value : α} {json : Json}
    (same : Reordered (encode value) json) : required? decode (some json) = some value :=
  undone value json same

theorem Undoes.optional {α : Type} {encode : α → Json} {decode : Json → Option α}
    (undone : Undoes (option encode) (asOption? decode)) {value : Option α} {json : Json}
    (same : Reordered (option encode value) json) : optional? decode (some json) = some value :=
  undone value json same

theorem read_then {α β : Type} {first : Option α} {value : α} {next : α → Option β}
    {result : Option β} (read : first = some value) (rest : next value = result) :
    (first >>= next) = result := by
  rw [read]
  exact rest

theorem str_undone : Undoes .str asString? := by
  intro text json same
  cases same
  rfl

theorem asBelow?_nat (bound value : Nat) (inside : value < bound) :
    asBelow? bound (.nat value) = some value :=
  if_pos inside

theorem nat_undone {α : Type} {toNat : α → Nat} {ofNat : Nat → α} {bound : Nat}
    (inside : ∀ value, toNat value < bound) (back : ∀ value, ofNat (toNat value) = value) :
    Undoes (fun value => .nat (toNat value)) fun json => (json.asBelow? bound).map ofNat := by
  intro value json same
  cases same
  change (asBelow? bound (.nat (toNat value))).map ofNat = some value
  rw [asBelow?_nat bound _ (inside value), Option.map_some, back]

theorem byte_undone : Undoes (fun byte : UInt8 => .nat byte.toNat) asByte? :=
  nat_undone UInt8.toNat_lt_size fun _ => UInt8.ofNat_toNat

theorem uint32_undone : Undoes .uint32 asUInt32? :=
  nat_undone UInt32.toNat_lt_size fun _ => UInt32.ofNat_toNat

theorem uint64_undone : Undoes (fun value : UInt64 => .nat value.toNat) asUInt64? :=
  nat_undone UInt64.toNat_lt_size fun _ => UInt64.ofNat_toNat

section Parts

variable {α : Type} {encode : α → Json} {decode : Json → Option α}
  (undone : Undoes encode decode)

include undone

theorem list_undone : Undoes (list encode) (asList? decode) := by
  intro values json same
  obtain ⟨others, rfl, each⟩ := same.of_arr
  rw [List.forall₂_map_left_iff] at each
  exact mapM_eq_some_iff.mpr (each.flip.imp fun other value same => undone value other same)

theorem option_undone (solid : ∀ value, encode value ≠ .null) :
    Undoes (option encode) (asOption? decode) := by
  intro value json same
  cases value with
  | none =>
      cases same
      rfl
  | some value =>
      have present : json ≠ .null := same.ne_null (solid value)
      have read : asOption? decode json = (decode json).map some := by
        unfold asOption?
        split
        · exact absurd rfl present
        · rfl
      rw [read, undone value json same, Option.map_some]

theorem stringMap_undone : Undoes (stringMap encode) (asStringMap? decode) := by
  intro map json same
  obtain ⟨renewed, others, rfl, each, order⟩ := same.of_obj
  rw [List.forall₂_map_left_iff] at each
  have decoded : List.Forall₂ (fun field entry =>
      ((decode field.2).map fun value => (field.1, value)) = some entry) renewed map.entries := by
    refine each.flip.imp fun field entry same => ?_
    rw [undone entry.2 field.2 same.2, Option.map_some, ← same.1]
  obtain ⟨listing, read, lists⟩ := List.perm_comp_forall₂ order.symm decoded
  have distinct : (listing.map Prod.fst).Nodup :=
    (lists.map Prod.fst).nodup_iff.mpr map.keys_nodup
  have whole : map = SortedMap.ofList listing :=
    (SortedMap.eq_ofList_iff distinct).mpr fun key value => by
      rw [lists.mem_iff, SortedMap.get?_eq_some_iff]
  rw [asStringMap?, mapM_eq_some_iff.mpr read, Option.map_some, ← whole]

end Parts

theorem strings_undone : Undoes strings asStrings? := list_undone str_undone

theorem bytes_undone : Undoes bytes asBytes? := list_undone byte_undone

theorem choice_undone {α : Type} {name : α → String} {names : List (String × α)}
    (listed : ∀ value, List.lookup (name value) names = some value) :
    Undoes (fun value => .str (name value)) (choice? names) := by
  intro value json same
  cases same
  exact listed value

theorem valuesOf_eq {fields : List (String × Json)} (distinct : (fields.map Prod.fst).Nodup)
    (name : String) : valuesOf name fields = (SortedMap.lookup name fields).toList := by
  induction fields with
  | nil => rfl
  | cons field rest ih =>
      obtain ⟨alone, others⟩ := List.nodup_cons.mp distinct
      have later := ih others
      unfold valuesOf at later ⊢
      rw [List.filterMap_cons, later, SortedMap.lookup]
      by_cases here : field.1 = name
      · subst here
        simp [SortedMap.lookup_eq_none_iff.mpr alone]
      · have apart : compare name field.1 ≠ .eq :=
          fun same => here (SortedMap.compare_eq_iff.mp same).symm
        simp [here, apart]

/-- Every field of a record is found by its name, however its fields are ordered. -/
theorem record?_reordered {fields : List (String × Json)} {json : Json}
    (same : Reordered (.obj fields) json) (distinct : (fields.map Prod.fst).Nodup) :
    ∃ value : String → Json,
      json.record? (fields.map Prod.fst) = some (fields.map fun field => some (value field.1)) ∧
        ∀ field ∈ fields, Reordered field.2 (value field.1) := by
  obtain ⟨renewed, others, rfl, each, order⟩ := same.of_obj
  have names : fields.map Prod.fst = renewed.map Prod.fst := by
    rw [← List.forall₂_eq_eq_eq, List.forall₂_map_left_iff, List.forall₂_map_right_iff]
    exact each.imp fun _ _ same => same.1
  have unrepeated : (others.map Prod.fst).Nodup :=
    (order.map Prod.fst).nodup_iff.mp (names ▸ distinct)
  have found : ∀ field ∈ fields, ∃ value,
      SortedMap.lookup field.1 others = some value ∧ Reordered field.2 value := by
    intro field listed
    obtain ⟨other, renewal, name, kept⟩ := exists_paired each field listed
    refine ⟨other.2, (SortedMap.lookup_eq_some_iff unrepeated).mpr ?_, kept⟩
    rw [name]
    exact order.subset renewal
  refine ⟨fun name => (SortedMap.lookup name others).getD .null, ?_, fun field listed => ?_⟩
  · change (fields.map Prod.fst).mapM _ = _
    rw [mapM_eq_some_iff, List.forall₂_map_left_iff, List.forall₂_map_right_iff,
      List.forall₂_same]
    intro field listed
    obtain ⟨value, stored, _⟩ := found field listed
    simp [valuesOf_eq unrepeated, stored, single?]
  · obtain ⟨value, stored, kept⟩ := found field listed
    simpa [stored] using kept

theorem record_then {α : Type} {fields : List (String × Json)} {json : Json}
    {next : List (Option Json) → Option α} {result : Option α}
    (same : Reordered (.obj fields) json) (distinct : (fields.map Prod.fst).Nodup)
    (rest : ∀ value : String → Json, (∀ field ∈ fields, Reordered field.2 (value field.1)) →
      next (fields.map fun field => some (value field.1)) = result) :
    (json.record? (fields.map Prod.fst) >>= next) = result := by
  obtain ⟨value, read, own⟩ := record?_reordered same distinct
  exact read_then read (rest value own)

end Json

end ElasticJob
