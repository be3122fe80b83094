import ElasticJob.Proofs.Properties.Layout

/-!
A map has one payload. Writing and reading again gives the map back, and reading and writing again
gives the bytes back exactly where their keys ascend; so the order in which a map happens to list
its entries leaves no trace, and a payload tells the maps apart.
-/

namespace ElasticJob

namespace Payload

theorem compare_eq_lt_iff {first second : String} :
    compare first second = .lt ↔ utf8 first < utf8 second := by
  rw [← encode_eq_utf8, ← encode_eq_utf8, Text.Utf8.encode_lt_iff]
  exact compareOfLessAndEq_eq_lt

def sortByBytes (entries : List (String × String)) : List (String × String) :=
  entries.mergeSort fun first second => decide (utf8 first.1 ≤ utf8 second.1)

theorem sortByBytes_eq (entries : List (String × String)) :
    sortByBytes entries = SortedMap.sortByKey entries := by
  unfold sortByBytes SortedMap.sortByKey
  congr 1
  funext first second
  have after : compare second.1 first.1 = (compare first.1 second.1).swap :=
    Std.OrientedCmp.eq_swap
  rw [Bool.eq_iff_iff, decide_eq_true_eq, ← List.not_lt, ← compare_eq_lt_iff, after]
  cases compare first.1 second.1 <;> simp

/-- The payload of entries that come in any order: they are sorted before they are written. -/
def writeListed (entries : List (String × String)) : Except Oversize Bytes := do
  let count ← writeWord entries.length none
  let body ← writeEntries (sortByBytes entries)
  return magic :: version :: (count ++ body)

theorem writeListed_eq {map : SortedMap String String} {listing : List (String × String)}
    (lists : listing.Perm map.entries) : writeListed listing = write map := by
  rw [writeListed, sortByBytes_eq, SortedMap.sortByKey_listing lists, lists.length_eq]
  rfl

theorem Lists.written_again {bytes : Bytes} {entries : List (String × String)}
    (lists : Lists bytes entries) (distinct : (entries.map Prod.fst).Nodup) :
    write (.ofList entries) = .ok (layout (SortedMap.ofList entries).entries) := by
  have same := SortedMap.entries_ofList_perm distinct
  refine write_eq_ok_iff.mpr ⟨by rw [same.length_eq]; exact lists.few, fun entry member => ?_, rfl⟩
  exact lists.short entry (same.mem_iff.mp member)

/-- Written again, the bytes are the same exactly where their keys ascend. -/
theorem Lists.unchanged_iff {bytes again : Bytes} {entries : List (String × String)}
    (lists : Lists bytes entries) (wrote : write (.ofList entries) = .ok again) :
    again = bytes ↔
      (entries.map Prod.fst).Pairwise fun first second => utf8 first < utf8 second := by
  -- both lists have their layout in the bytes, so the bytes agree where the lists do
  have listed := write_eq_ok_iff.mp wrote
  simp only [List.pairwise_map, ← compare_eq_lt_iff, ← SortedMap.entries_ofList_eq_iff]
  constructor
  · rintro rfl
    exact listed.unique lists
  · intro same
    rw [listed.written, same, lists.written]

end Payload

namespace Properties

/-- The payload of properties whose map lists its entries in this order. -/
def toBytesListed (properties : Properties) (listing : List (String × String)) :
    Except JobError Bytes :=
  (Payload.writeListed listing).mapError (·.toError properties.name)

theorem toBytes_eq_ok_iff {properties : Properties} {bytes : Bytes} :
    properties.toBytes = .ok bytes ↔ Payload.Lists bytes properties.map.entries := by
  rw [← Payload.write_eq_ok_iff, toBytes]
  cases Payload.write properties.map <;> simp [Except.mapError]

theorem ofBytes_eq_ok_iff {name : String} {bytes : Bytes} {properties : Properties} :
    ofBytes name bytes = .ok properties ↔
      ∃ entries, Payload.Lists bytes entries ∧ (entries.map Prod.fst).Nodup ∧
        properties = ⟨name, .ofList entries⟩ := by
  unfold ofBytes
  constructor
  · intro accepted
    split at accepted
    next map read =>
      cases accepted
      obtain ⟨entries, lists, distinct, rfl⟩ := Payload.read_eq_ok_iff.mp read
      exact ⟨entries, lists, distinct, rfl⟩
    next => cases accepted
  · rintro ⟨entries, lists, distinct, rfl⟩
    rw [Payload.read_eq_ok_iff.mpr ⟨entries, lists, distinct, rfl⟩]

theorem ofBytes_of_toBytes {properties : Properties} {bytes : Bytes}
    (wrote : properties.toBytes = .ok bytes) (name : String) :
    ofBytes name bytes = .ok ⟨name, properties.map⟩ := by
  have lists := toBytes_eq_ok_iff.mp wrote
  rw [ofBytes_eq_ok_iff]
  exact ⟨_, lists, properties.map.keys_nodup, by rw [SortedMap.ofList_entries]⟩

/-- What can be written reads as what was written; what can be read is written as it was exactly
where its keys ascend; no order of the entries shows, and no two maps share a payload. -/
theorem payloads_are_canonical :
    (∀ properties : Properties, properties.size < 2 ^ 32 →
      (∀ key value, properties.get? key = some value →
        key.utf8ByteSize < 2 ^ 32 ∧ value.utf8ByteSize < 2 ^ 32) →
      ∃ bytes, properties.toBytes = .ok bytes ∧
        ofBytes properties.name bytes = .ok properties) ∧
    (∀ name bytes properties, ofBytes name bytes = .ok properties →
      ∃ entries again, (∀ other, Payload.Lists bytes other ↔ other = entries) ∧
        properties.toBytes = .ok again ∧
        (again = bytes ↔ (entries.map Prod.fst).Pairwise fun first second =>
          Payload.utf8 first < Payload.utf8 second)) ∧
    (∀ (properties : Properties) (listing : List (String × String)),
      listing.Perm properties.map.entries →
      properties.toBytesListed listing = properties.toBytes) ∧
    ∀ (first second : Properties) (bytes : Bytes), first.toBytes = .ok bytes →
      second.toBytes = .ok bytes → first.map = second.map := by
  refine ⟨fun properties few short => ?_, fun name bytes properties accepted => ?_,
    fun properties listing lists => ?_, fun first second bytes one other => ?_⟩
  · have lists : Payload.Lists (Payload.layout properties.map.entries) properties.map.entries :=
      ⟨few, fun entry member => short entry.1 entry.2 (SortedMap.get?_eq_some_iff.mpr member), rfl⟩
    refine ⟨_, toBytes_eq_ok_iff.mpr lists, ofBytes_eq_ok_iff.mpr ⟨_, lists, ?_, ?_⟩⟩
    · exact properties.map.keys_nodup
    · rw [SortedMap.ofList_entries]
  · obtain ⟨entries, lists, distinct, rfl⟩ := ofBytes_eq_ok_iff.mp accepted
    have wrote := lists.written_again distinct
    refine ⟨entries, _, fun other => ⟨fun listed => listed.unique lists, ?_⟩,
      toBytes_eq_ok_iff.mpr (Payload.write_eq_ok_iff.mp wrote), lists.unchanged_iff wrote⟩
    rintro rfl
    exact lists
  · rw [toBytesListed, Payload.writeListed_eq lists, toBytes]
  · exact SortedMap.eq_of_entries
      ((toBytes_eq_ok_iff.mp one).unique (toBytes_eq_ok_iff.mp other))

def mixed : List (String × String) :=
  [("b", ""), ("ba", "é"), ("", "1"), ("𝔸", "b")]

def descending : List (String × String) :=
  [("b", "2"), ("a", "1")]

theorem mixed_keys_come_back :
    (∃ bytes, toBytes ⟨"env", .ofList mixed⟩ = .ok bytes ∧
      ofBytes "env" bytes = .ok ⟨"env", .ofList mixed⟩) ∧
    (∃ entries again, (∀ other, Payload.Lists (Payload.layout descending) other ↔
        other = entries) ∧
      toBytes ⟨"env", .ofList descending⟩ = .ok again ∧
      (again = Payload.layout descending ↔ (entries.map Prod.fst).Pairwise fun first second =>
        Payload.utf8 first < Payload.utf8 second)) ∧
    toBytesListed ⟨"env", .ofList descending⟩ descending =
      toBytes ⟨"env", .ofList descending⟩ ∧
    SortedMap.ofList descending = .ofList descending.reverse := by
  refine ⟨payloads_are_canonical.1 ⟨"env", .ofList mixed⟩ (by decide) fun key value found => ?_,
    payloads_are_canonical.2.1 "env" _ _ (by rfl), payloads_are_canonical.2.2.1 _ _ ?_,
    payloads_are_canonical.2.2.2 ⟨"env", _⟩ ⟨"job", _⟩ _ (by rfl) (by rfl)⟩
  · have short : ∀ entry ∈ mixed,
        entry.1.utf8ByteSize < 2 ^ 32 ∧ entry.2.utf8ByteSize < 2 ^ 32 := by decide
    exact short _ ((SortedMap.get?_ofList_eq_some_iff (by decide)).mp found)
  · decide

end Properties

end ElasticJob
