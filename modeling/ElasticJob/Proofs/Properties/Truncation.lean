import ElasticJob.Proofs.Properties.Canonical

/-!
Payloads that end too early or too late. A cut that keeps the whole key of an entry but not the whole
of its value is blamed on that key; a cut anywhere else is blamed on no key, and neither are bytes
after the last entry. Whatever the bytes of a value look like, the reader is where an entry starts.
-/

namespace ElasticJob

namespace Payload

def headerSize : Nat := 6

/-- Some entry has this place, where the first one starts at `start` and each where the one before
it ends. -/
def HasEntry (place : Nat → String × String → Prop) (start : Nat)
    (entries : List (String × String)) : Prop :=
  ∃ before entry after, entries = before ++ entry :: after ∧
    place (start + (fields before).length) entry

/-- The cut is right before the entry, in the length of its key or in its key. -/
def CutsKey (cut start : Nat) (entry : String × String) : Prop :=
  start ≤ cut ∧ cut < start + (field entry.1).length

/-- The cut is after the last byte of the key of the entry and before the end of its value. -/
def CutsValue (cut start : Nat) (entry : String × String) : Prop :=
  start + (field entry.1).length ≤ cut ∧
    cut < start + (field entry.1).length + (field entry.2).length

instance (cut start : Nat) (entry : String × String) : Decidable (CutsKey cut start entry) :=
  inferInstanceAs (Decidable (_ ∧ _))

instance (cut start : Nat) (entry : String × String) : Decidable (CutsValue cut start entry) :=
  inferInstanceAs (Decidable (_ ∧ _))

section Places

variable {place : Nat → String × String → Prop} {start : Nat} {entries : List (String × String)}

theorem length_fields_cons (entry : String × String) (rest : List (String × String)) :
    (fields (entry :: rest)).length =
      (field entry.1).length + (field entry.2).length + (fields rest).length := by
  simp [fields, Nat.add_assoc]

theorem hasEntry_cons {entry : String × String} :
    HasEntry place start (entry :: entries) ↔
      place start entry ∨
        HasEntry place (start + (field entry.1).length + (field entry.2).length) entries := by
  constructor
  · rintro ⟨before, found, after, whole, placed⟩
    cases before with
    | nil =>
        obtain ⟨rfl, rfl⟩ := List.cons.inj whole
        exact .inl placed
    | cons first before =>
        obtain ⟨rfl, rfl⟩ := List.cons.inj whole
        rw [length_fields_cons, ← Nat.add_assoc, ← Nat.add_assoc] at placed
        exact .inr ⟨before, found, after, rfl, placed⟩
  · rintro (placed | ⟨before, found, after, rfl, placed⟩)
    · exact ⟨[], entry, entries, rfl, placed⟩
    · refine ⟨entry :: before, found, after, rfl, ?_⟩
      rw [length_fields_cons, ← Nat.add_assoc, ← Nat.add_assoc]
      exact placed

theorem not_hasEntry {cut : Nat} (before : cut < start)
    (reaches : ∀ start entry, place start entry → start ≤ cut) :
    ¬ HasEntry place start entries := by
  rintro ⟨others, entry, after, _, placed⟩
  have reached := reaches _ _ placed
  omega

theorem not_cutsKey {cut : Nat} (before : cut < start) : ¬ HasEntry (CutsKey cut) start entries :=
  not_hasEntry before fun _ _ cuts => cuts.1

theorem not_cutsValue {cut : Nat} (before : cut < start) (key : String) :
    ¬ HasEntry (fun place entry => entry.1 = key ∧ CutsValue cut place entry) start entries := by
  refine not_hasEntry before ?_
  rintro place entry ⟨_, past, _⟩
  omega

end Places

/-- No text starts with the bytes of a text that are cut off before their end. -/
theorem readText_cut {text : String} (short : text.utf8ByteSize < 2 ^ 32) (rest : Bytes) {cut : Nat}
    (early : cut < (field text).length) :
    ∃ fault, readText ((field text ++ rest).take cut) = .error fault := by
  rw [List.take_append_of_le_length (Nat.le_of_lt early)]
  cases read : readText ((field text).take cut) with
  | error fault => exact ⟨fault, rfl⟩
  | ok found =>
      -- with the bytes that were cut off, the text that was found would be this text and more
      obtain ⟨small, taken⟩ := readText_eq_ok_iff.mp read
      have whole : field found.1 ++ (found.2 ++ (field text).drop cut) = field text ++ [] := by
        rw [← List.append_assoc, ← taken, List.take_append_drop, List.append_nil]
      have none := List.append_eq_nil_iff.mp (field_append_inj small short whole).2
      have ended := List.drop_eq_nil_iff.mp none.2
      omega

structure Blames (start : Nat) (entries : List (String × String)) (cut : Nat) (fault : Fault) :
    Prop where
  value : ∀ key, fault.key? = some key ↔
    HasEntry (fun place entry => entry.1 = key ∧ CutsValue cut place entry) start entries
  none : fault.key? = none ↔ HasEntry (CutsKey cut) start entries

section Blame

variable {start cut : Nat} {entry : String × String} {rest : List (String × String)}

theorem Blames.of_key (cuts : CutsKey cut start entry) (index : Nat) (fault : TextFault) :
    Blames start (entry :: rest) cut (.badKey index fault) := by
  obtain ⟨reached, inside⟩ := cuts
  refine ⟨fun key => ?_, ?_⟩
  · rw [hasEntry_cons]
    constructor
    · intro blamed
      cases blamed
    · rintro (⟨_, past, _⟩ | later)
      · omega
      · exact absurd later (not_cutsValue (by omega) key)
  · rw [hasEntry_cons]
    exact ⟨fun _ => .inl ⟨reached, inside⟩, fun _ => rfl⟩

theorem Blames.of_value (cuts : CutsValue cut start entry) (fault : TextFault) :
    Blames start (entry :: rest) cut (.badValue entry.1 fault) := by
  obtain ⟨reached, inside⟩ := cuts
  refine ⟨fun key => ?_, ?_⟩
  · rw [hasEntry_cons]
    constructor
    · intro blamed
      exact .inl ⟨Option.some.inj blamed, reached, inside⟩
    · rintro (⟨rfl, _⟩ | later)
      · rfl
      · exact absurd later (not_cutsValue (by omega) key)
  · rw [hasEntry_cons]
    constructor
    · intro blamed
      cases blamed
    · rintro (⟨_, early⟩ | later)
      · omega
      · exact absurd later (not_cutsKey (by omega))

theorem Blames.cons {fault : Fault}
    (past : start + (field entry.1).length + (field entry.2).length ≤ cut)
    (blames : Blames (start + (field entry.1).length + (field entry.2).length) rest cut fault) :
    Blames start (entry :: rest) cut fault := by
  refine ⟨fun key => ?_, ?_⟩
  · rw [hasEntry_cons, blames.value]
    refine ⟨.inr, fun cuts => cuts.resolve_left ?_⟩
    rintro ⟨_, _, inside⟩
    omega
  · rw [hasEntry_cons, blames.none]
    refine ⟨.inr, fun cuts => cuts.resolve_left ?_⟩
    rintro ⟨_, inside⟩
    omega

end Blame

theorem take_field {text : String} {start cut : Nat} (past : start + (field text).length ≤ cut)
    (rest : Bytes) :
    (field text ++ rest).take (cut - start) =
      field text ++ rest.take (cut - (start + (field text).length)) := by
  rw [List.take_append, List.take_of_length_le (by omega), Nat.sub_sub]

/-- The reader is at the start of an entry after each entry that is whole. -/
theorem readEntries_cut {entries : List (String × String)} {map : SortedMap String String}
    (short : ∀ entry ∈ entries, Short entry) (new : New map entries) (index start : Nat) {cut : Nat}
    (reached : start ≤ cut) (early : cut < start + (fields entries).length) :
    ∃ fault, readEntries map index ((fields entries).take (cut - start)) entries.length =
        .error fault ∧ Blames start entries cut fault := by
  induction entries generalizing map index start with
  | nil =>
      simp only [fields, List.flatMap_nil, List.length_nil] at early
      omega
  | cons entry rest ih =>
      obtain ⟨⟨shortKey, shortValue⟩, shorter⟩ := List.forall_mem_cons.mp short
      obtain ⟨absent, newer⟩ := new_cons.mp new
      have bytes : fields (entry :: rest) = field entry.1 ++ (field entry.2 ++ fields rest) := by
        simp [fields]
      rw [length_fields_cons] at early
      rw [bytes, List.length_cons, readEntries]
      rcases Nat.lt_or_ge cut (start + (field entry.1).length) with inKey | pastKey
      · have inside : cut - start < (field entry.1).length := by omega
        obtain ⟨fault, failed⟩ := readText_cut shortKey (field entry.2 ++ fields rest) inside
        rw [failed]
        exact ⟨_, rfl, .of_key ⟨reached, inKey⟩ index fault⟩
      · rw [take_field pastKey, readText_eq_ok_iff.mpr ⟨shortKey, rfl⟩]
        rcases Nat.lt_or_ge cut (start + (field entry.1).length + (field entry.2).length)
          with inValue | pastValue
        · have inside : cut - (start + (field entry.1).length) < (field entry.2).length := by omega
          obtain ⟨fault, failed⟩ := readText_cut shortValue (fields rest) inside
          simp only [failed]
          exact ⟨_, rfl, .of_value ⟨pastKey, inValue⟩ fault⟩
        · obtain ⟨fault, failed, blames⟩ := ih shorter newer (index + 1) _ pastValue (by omega)
          simp only [take_field pastValue, readText_eq_ok_iff.mpr ⟨shortValue, rfl⟩]
          rw [if_neg absent, failed]
          exact ⟨fault, rfl, blames.cons pastValue⟩

theorem read_header (count : Nat) (body : Bytes) :
    read (0xDF :: 0x01 :: (be32 count ++ body)) = readBody (be32 count ++ body) := by
  have header : (be32 count).length = 4 := rfl
  rw [read, if_neg (by simp [header])]
  simp only [magic, version, ne_eq, not_true_eq_false, if_false]

theorem read_of_error {count : Nat} (few : count < 2 ^ 32) {body : Bytes} {fault : Fault}
    (failed : readEntries .empty 0 body count = .error fault) :
    read (0xDF :: 0x01 :: (be32 count ++ body)) = .error fault := by
  rw [read_header, readBody, readWord?_eq_some_iff.mpr ⟨few, rfl⟩]
  simp only [failed]

theorem read_of_rest {count : Nat} (few : count < 2 ^ 32) {body rest : Bytes}
    {map : SortedMap String String}
    (entered : readEntries .empty 0 body count = .ok (map, rest)) (more : rest ≠ []) :
    read (0xDF :: 0x01 :: (be32 count ++ body)) = .error (.trailing rest.length count) := by
  rw [read_header, readBody, readWord?_eq_some_iff.mpr ⟨few, rfl⟩]
  simp [entered, more]

theorem length_layout (entries : List (String × String)) :
    (layout entries).length = headerSize + (fields entries).length := by
  simp [layout, be32, headerSize]
  omega

theorem take_layout (entries : List (String × String)) {cut : Nat} (reached : headerSize ≤ cut) :
    (layout entries).take cut =
      0xDF :: 0x01 :: (be32 entries.length ++ (fields entries).take (cut - headerSize)) := by
  obtain ⟨behind, rfl⟩ := Nat.exists_eq_add_of_le reached
  rw [Nat.add_sub_cancel_left]
  rw [Nat.add_comm]
  rfl

theorem Lists.read_cut {bytes : Bytes} {entries : List (String × String)}
    (lists : Lists bytes entries) (distinct : (entries.map Prod.fst).Nodup) {cut : Nat}
    (early : cut < bytes.length) :
    ∃ fault, read (bytes.take cut) = .error fault ∧
      (∀ key, fault.key? = some key ↔
        HasEntry (fun start entry => entry.1 = key ∧ CutsValue cut start entry) headerSize
          entries) ∧
      (fault.key? = none ↔ cut < headerSize ∨ HasEntry (CutsKey cut) headerSize entries) := by
  rw [lists.written, length_layout] at early
  rw [lists.written]
  rcases Nat.lt_or_ge cut headerSize with inHeader | behind
  · have few : ((layout entries).take cut).length < 6 := by
      rw [List.length_take]
      exact Nat.lt_of_le_of_lt (Nat.min_le_left _ _) inHeader
    have refused : read ((layout entries).take cut) = .error (.tooShort _) := if_pos few
    refine ⟨_, refused, fun key => ⟨fun blamed => ?_, fun cuts => ?_⟩,
      fun _ => .inl inHeader, fun _ => rfl⟩
    · cases blamed
    · exact absurd cuts (not_cutsValue inHeader key)
  · obtain ⟨fault, failed, blames⟩ := readEntries_cut lists.short (new_empty.mpr distinct) 0
      headerSize behind early
    refine ⟨fault, ?_, blames.value, ?_⟩
    · rw [take_layout entries behind]
      exact read_of_error lists.few failed
    · rw [blames.none]
      exact ⟨.inr, fun cuts => cuts.resolve_left (by omega)⟩

theorem Lists.read_extended {bytes extra : Bytes} {entries : List (String × String)}
    (lists : Lists bytes entries) (distinct : (entries.map Prod.fst).Nodup) (more : extra ≠ []) :
    read (bytes ++ extra) = .error (.trailing extra.length entries.length) := by
  have entered : readEntries .empty 0 (fields entries ++ extra) entries.length = _ :=
    readEntries_eq_ok_iff.mpr
      ⟨entries, rfl, ⟨lists.short, rfl, new_empty.mpr distinct⟩, rfl⟩
  have extended : layout entries ++ extra =
      0xDF :: 0x01 :: (be32 entries.length ++ (fields entries ++ extra)) := by
    simp [layout]
  rw [lists.written, extended]
  exact read_of_rest lists.few entered more

end Payload

namespace Properties

open Payload

theorem ofBytes_of_fault {name : String} {bytes : Bytes} {fault : Payload.Fault}
    (failed : Payload.read bytes = .error fault) :
    ofBytes name bytes = .error (.serialization name fault.key? fault.message) := by
  rw [ofBytes, failed]
  rfl

/-- A payload that is cut is refused. It is blamed on the keys of which the cut leaves the whole key
and not the whole value, and on no key exactly where the cut is in the header, right before an entry
or in its key. A payload that goes on is refused and blamed on no key. -/
theorem cut_payload_blames_its_key (properties : Properties) (bytes : Bytes)
    (wrote : properties.toBytes = .ok bytes) (name : String) :
    (∀ cut < bytes.length, ∃ blamed detail,
      ofBytes name (bytes.take cut) = .error (.serialization name blamed detail) ∧
      (∀ key, blamed = some key ↔
        HasEntry (fun start entry => entry.1 = key ∧ CutsValue cut start entry) headerSize
          properties.map.entries) ∧
      (blamed = none ↔
        cut < headerSize ∨ HasEntry (CutsKey cut) headerSize properties.map.entries)) ∧
    ∀ extra, extra ≠ [] → ∃ detail,
      ofBytes name (bytes ++ extra) = .error (.serialization name none detail) := by
  have lists := toBytes_eq_ok_iff.mp wrote
  have distinct := properties.map.keys_nodup
  refine ⟨fun cut early => ?_, fun extra more => ?_⟩
  · obtain ⟨fault, failed, value, elsewhere⟩ := lists.read_cut distinct early
    exact ⟨fault.key?, fault.message, ofBytes_of_fault failed, value, elsewhere⟩
  · exact ⟨_, ofBytes_of_fault (lists.read_extended distinct more)⟩

def accented : Properties :=
  ⟨"test", .ofList [("a.key", "value"), ("é", "")]⟩

theorem accented_payload_is_cut_everywhere :
    ∃ bytes, accented.toBytes = .ok bytes ∧
      (∃ detail, ofBytes "env" (bytes.take 22) =
        .error (.serialization "env" (some "a.key") detail)) ∧
      (∃ detail, ofBytes "env" (bytes.take 29) = .error (.serialization "env" none detail)) ∧
      (∃ detail, ofBytes "env" (bytes.take 30) =
        .error (.serialization "env" (some "é") detail)) ∧
      ∃ detail, ofBytes "env" (bytes ++ [0]) = .error (.serialization "env" none detail) := by
  refine ⟨_, rfl, ?_⟩
  obtain ⟨cuts, extended⟩ := cut_payload_blames_its_key accented _ rfl "env"
  refine ⟨?_, ?_, ?_, extended [0] (by decide)⟩
  · obtain ⟨blamed, detail, refused, value, _⟩ := cuts 22 (by decide)
    obtain rfl := (value "a.key").mpr ⟨[], ("a.key", "value"), [("é", "")], rfl, rfl, by decide⟩
    exact ⟨detail, refused⟩
  · obtain ⟨blamed, detail, refused, _, elsewhere⟩ := cuts 29 (by decide)
    obtain rfl := elsewhere.mpr (.inr ⟨[("a.key", "value")], ("é", ""), [], rfl, by decide⟩)
    exact ⟨detail, refused⟩
  · obtain ⟨blamed, detail, refused, value, _⟩ := cuts 30 (by decide)
    obtain rfl := (value "é").mpr ⟨[("a.key", "value")], ("é", ""), [], rfl, rfl, by decide⟩
    exact ⟨detail, refused⟩

end Properties

end ElasticJob
