import ElasticJob.Proofs.Collection.Listing
import ElasticJob.Proofs.Text.Utf8
import ElasticJob.Properties.Payload

/-!
The layout of a payload, said without the code that writes or reads it, and the two directions of
that code against it. A list of entries has one layout and a layout lists one list of entries; the
writer lays out the entries of its map, and the reader takes the layouts of lists in which no key
comes twice, in any order.
-/

namespace ElasticJob.Payload

def utf8 (text : String) : Bytes :=
  text.toByteArray.data.toList

def be32 (value : Nat) : Bytes :=
  [24, 16, 8, 0].map fun shift => UInt8.ofNat (value >>> shift)

def field (text : String) : Bytes :=
  be32 text.utf8ByteSize ++ utf8 text

def fields (entries : List (String × String)) : Bytes :=
  entries.flatMap fun entry => field entry.1 ++ field entry.2

def layout (entries : List (String × String)) : Bytes :=
  0xDF :: 0x01 :: (be32 entries.length ++ fields entries)

def Short (entry : String × String) : Prop :=
  entry.1.utf8ByteSize < 2 ^ 32 ∧ entry.2.utf8ByteSize < 2 ^ 32

instance : DecidablePred Short := fun _ => inferInstanceAs (Decidable (_ ∧ _))

structure Lists (bytes : Bytes) (entries : List (String × String)) : Prop where
  few : entries.length < 2 ^ 32
  short : ∀ entry ∈ entries, Short entry
  written : bytes = layout entries

section Words

theorem word_eq_be32 (value : Nat) : word value = be32 value := by
  simp only [word, be32, List.map_cons, List.map_nil, List.cons.injEq, ← UInt8.toNat_inj,
    UInt8.toNat_ofNat', Nat.shiftRight_eq_div_pow, true_and, and_true]
  omega

theorem readWord?_eq_some_iff {bytes rest : Bytes} {value : Nat} :
    readWord? bytes = some (value, rest) ↔ value < 2 ^ 32 ∧ bytes = be32 value ++ rest := by
  rw [← word_eq_be32]
  constructor
  · intro read
    unfold readWord? at read
    split at read
    next a b c d after =>
      obtain ⟨rfl, rfl⟩ := Prod.mk.inj (Option.some.inj read)
      have bounds := And.intro a.toNat_lt (And.intro b.toNat_lt (And.intro c.toNat_lt d.toNat_lt))
      refine ⟨by omega, ?_⟩
      simp only [word, List.cons_append, List.nil_append, List.cons.injEq, ← UInt8.toNat_inj,
        UInt8.toNat_ofNat', and_true]
      omega
    next => cases read
  · rintro ⟨small, rfl⟩
    simp only [word, List.cons_append, List.nil_append, readWord?, UInt8.toNat_ofNat',
      Option.some.injEq, Prod.mk.injEq, and_true]
    omega

theorem writeWord_eq_ok_iff {value : Nat} {key : Option String} {bytes : Bytes} :
    writeWord value key = .ok bytes ↔ value < 2 ^ 32 ∧ bytes = be32 value := by
  rw [← word_eq_be32, writeWord, UInt32.size]
  split
  next small => simpa [eq_comm] using fun _ => small
  next large => simpa using fun small => absurd small large

end Words

section Texts

theorem encode_eq_utf8 (text : String) : Text.Utf8.encode text = utf8 text :=
  Text.Utf8.encode_eq_toByteArray text

theorem length_utf8 (text : String) : (utf8 text).length = text.utf8ByteSize :=
  encode_eq_utf8 text ▸ Text.Utf8.length_encode text

theorem readText_eq_ok_iff {bytes rest : Bytes} {text : String} :
    readText bytes = .ok (text, rest) ↔
      text.utf8ByteSize < 2 ^ 32 ∧ bytes = field text ++ rest := by
  unfold readText field
  constructor
  · intro read
    split at read
    next => cases read
    next length after word =>
      obtain ⟨small, rfl⟩ := readWord?_eq_some_iff.mp word
      split at read
      next => cases read
      next enough =>
        split at read
        next found decoded =>
          obtain ⟨rfl, rfl⟩ := Prod.mk.inj (Except.ok.inj read)
          -- the text fills what was cut off, so its own size is the length that was read
          have taken : after.take length = utf8 found :=
            (Text.Utf8.decode_ok_iff.mp decoded).trans (encode_eq_utf8 found)
          have size : found.utf8ByteSize = length := by
            rw [← length_utf8, ← taken, List.length_take]
            omega
          rw [size, ← taken, List.append_assoc, List.take_append_drop]
          exact ⟨small, rfl⟩
        next => cases read
  · rintro ⟨small, rfl⟩
    have word : readWord? (be32 text.utf8ByteSize ++ (utf8 text ++ rest)) = _ :=
      readWord?_eq_some_iff.mpr ⟨small, rfl⟩
    have decoded : Text.Utf8.decode (utf8 text) = .ok text :=
      Text.Utf8.decode_ok_iff.mpr (encode_eq_utf8 text).symm
    have size := length_utf8 text
    simp only [List.append_assoc, word, List.length_append, List.take_left' size,
      List.drop_left' size, decoded]
    rw [if_neg (by omega)]

theorem writeText_eq_ok_iff {text key : String} {bytes : Bytes} :
    writeText text key = .ok bytes ↔ text.utf8ByteSize < 2 ^ 32 ∧ bytes = field text := by
  simp only [writeText, field, map_eq_ok_iff, writeWord_eq_ok_iff, encode_eq_utf8,
    length_utf8]
  constructor
  · rintro ⟨_, ⟨small, rfl⟩, rfl⟩
    exact ⟨small, rfl⟩
  · rintro ⟨small, rfl⟩
    exact ⟨_, ⟨small, rfl⟩, rfl⟩

end Texts

section Entries

structure New (map : SortedMap String String) (entries : List (String × String)) : Prop where
  distinct : (entries.map Prod.fst).Nodup
  absent : ∀ entry ∈ entries, ¬ map.contains entry.1 = true

theorem new_cons {map : SortedMap String String} {entry : String × String}
    {rest : List (String × String)} :
    New map (entry :: rest) ↔
      ¬ map.contains entry.1 = true ∧ New (map.insert entry.1 entry.2) rest := by
  constructor
  · rintro ⟨distinct, absent⟩
    obtain ⟨alone, others⟩ := List.nodup_cons.mp distinct
    refine ⟨absent entry List.mem_cons_self, others, fun later member present => ?_⟩
    rcases (SortedMap.contains_insert ..).mp present with same | before
    · exact alone (List.mem_map.mpr ⟨later, member, same⟩)
    · exact absent later (List.mem_cons_of_mem _ member) before
  · rintro ⟨first, distinct, absent⟩
    refine ⟨List.nodup_cons.mpr ⟨fun again => ?_, distinct⟩, fun later member => ?_⟩
    · obtain ⟨later, member, same⟩ := List.mem_map.mp again
      exact absent later member ((SortedMap.contains_insert ..).mpr (.inl same))
    · rcases List.mem_cons.mp member with rfl | member
      · exact first
      · exact fun before =>
          absent later member ((SortedMap.contains_insert ..).mpr (.inr before))

theorem new_empty {entries : List (String × String)} :
    New .empty entries ↔ (entries.map Prod.fst).Nodup := by
  constructor
  · exact New.distinct
  · exact fun distinct => ⟨distinct, fun entry _ present => by cases present⟩

structure Reading (map : SortedMap String String) (bytes : Bytes)
    (entries : List (String × String)) (rest : Bytes) : Prop where
  short : ∀ entry ∈ entries, Short entry
  written : bytes = fields entries ++ rest
  new : New map entries

theorem reading_cons {map : SortedMap String String} {bytes rest : Bytes}
    {entry : String × String} {later : List (String × String)} :
    Reading map bytes (entry :: later) rest ↔
      ∃ after, Short entry ∧ bytes = field entry.1 ++ (field entry.2 ++ after) ∧
        ¬ map.contains entry.1 = true ∧
        Reading (map.insert entry.1 entry.2) after later rest := by
  constructor
  · rintro ⟨short, rfl, new⟩
    obtain ⟨first, others⟩ := List.forall_mem_cons.mp short
    obtain ⟨absent, new⟩ := new_cons.mp new
    exact ⟨fields later ++ rest, first, by simp [fields], absent, others, rfl, new⟩
  · rintro ⟨after, first, rfl, absent, others, rfl, new⟩
    exact ⟨List.forall_mem_cons.mpr ⟨first, others⟩, by simp [fields],
      new_cons.mpr ⟨absent, new⟩⟩

theorem readEntries_succ_eq_ok_iff {map : SortedMap String String} {index left : Nat}
    {bytes : Bytes} {result : SortedMap String String × Bytes} :
    readEntries map index bytes (left + 1) = .ok result ↔
      ∃ entry after, Short entry ∧ bytes = field entry.1 ++ (field entry.2 ++ after) ∧
        ¬ map.contains entry.1 = true ∧
        readEntries (map.insert entry.1 entry.2) (index + 1) after left = .ok result := by
  constructor
  · intro read
    rw [readEntries] at read
    split at read
    next => cases read
    next key behind first =>
      split at read
      next => cases read
      next value after second =>
        split at read
        next => cases read
        next absent =>
          obtain ⟨shortKey, rfl⟩ := readText_eq_ok_iff.mp first
          obtain ⟨shortValue, rfl⟩ := readText_eq_ok_iff.mp second
          exact ⟨(key, value), after, ⟨shortKey, shortValue⟩, rfl, absent, read⟩
  · rintro ⟨⟨key, value⟩, after, ⟨shortKey, shortValue⟩, rfl, absent, read⟩
    rw [readEntries, readText_eq_ok_iff.mpr ⟨shortKey, rfl⟩]
    simp only [readText_eq_ok_iff.mpr ⟨shortValue, rfl⟩]
    rw [if_neg absent, read]

theorem readEntries_eq_ok_iff {map final : SortedMap String String} {index left : Nat}
    {bytes rest : Bytes} :
    readEntries map index bytes left = .ok (final, rest) ↔
      ∃ entries, entries.length = left ∧ Reading map bytes entries rest ∧
        final = map.insertMany entries := by
  induction left generalizing map index bytes with
  | zero =>
      constructor
      · intro read
        cases read
        exact ⟨[], rfl, ⟨by simp, rfl, .nil, by simp⟩, rfl⟩
      · rintro ⟨entries, none, ⟨_, rfl, _⟩, rfl⟩
        rw [List.length_eq_zero_iff.mp none]
        rfl
  | succ left ih =>
      rw [readEntries_succ_eq_ok_iff]
      constructor
      · rintro ⟨entry, after, short, written, absent, read⟩
        obtain ⟨later, size, reading, same⟩ := ih.mp read
        exact ⟨entry :: later, by rw [List.length_cons, size],
          reading_cons.mpr ⟨after, short, written, absent, reading⟩, same⟩
      · rintro ⟨entries, size, reading, same⟩
        obtain ⟨entry, later, rfl⟩ := List.exists_cons_of_length_eq_add_one size
        obtain ⟨after, short, written, absent, reading⟩ := reading_cons.mp reading
        exact ⟨entry, after, short, written, absent,
          ih.mpr ⟨later, Nat.succ.inj size, reading, same⟩⟩

theorem writeEntries_eq_ok_iff {entries : List (String × String)} {bytes : Bytes} :
    writeEntries entries = .ok bytes ↔
      (∀ entry ∈ entries, Short entry) ∧ bytes = fields entries := by
  induction entries generalizing bytes with
  | nil => simp [writeEntries, fields, eq_comm]
  | cons entry rest ih =>
      simp only [writeEntries, writeEntry, bind_eq_ok_iff, writeText_eq_ok_iff, ih, pure,
        Except.pure, Except.ok.injEq, List.forall_mem_cons]
      constructor
      · rintro ⟨_, ⟨_, ⟨key, rfl⟩, _, ⟨value, rfl⟩, rfl⟩, _, ⟨others, rfl⟩, rfl⟩
        exact ⟨⟨⟨key, value⟩, others⟩, rfl⟩
      · rintro ⟨⟨⟨key, value⟩, others⟩, rfl⟩
        exact ⟨_, ⟨_, ⟨key, rfl⟩, _, ⟨value, rfl⟩, rfl⟩, _, ⟨others, rfl⟩, rfl⟩

end Entries

section Payloads

theorem write_eq_ok_iff {map : SortedMap String String} {bytes : Bytes} :
    write map = .ok bytes ↔ Lists bytes map.entries := by
  simp only [write, bind_eq_ok_iff, writeWord_eq_ok_iff, writeEntries_eq_ok_iff, pure,
    Except.pure, Except.ok.injEq]
  constructor
  · rintro ⟨_, ⟨few, rfl⟩, _, ⟨short, rfl⟩, rfl⟩
    exact ⟨few, short, rfl⟩
  · rintro ⟨few, short, rfl⟩
    exact ⟨_, ⟨few, rfl⟩, _, ⟨short, rfl⟩, rfl⟩

theorem readBody_eq_ok_iff {map : SortedMap String String} {bytes : Bytes} :
    readBody bytes = .ok map ↔
      ∃ count after, count < 2 ^ 32 ∧ bytes = be32 count ++ after ∧
        readEntries .empty 0 after count = .ok (map, []) := by
  constructor
  · intro read
    unfold readBody at read
    split at read
    next => cases read
    next count after word =>
      obtain ⟨few, rfl⟩ := readWord?_eq_some_iff.mp word
      split at read
      next => cases read
      next found rest entries =>
        split at read
        next done =>
          cases read
          exact ⟨count, after, few, rfl, List.isEmpty_iff.mp done ▸ entries⟩
        next => cases read
  · rintro ⟨count, after, few, rfl, entries⟩
    unfold readBody
    rw [readWord?_eq_some_iff.mpr ⟨few, rfl⟩]
    simp [entries]

theorem read_eq_ok_iff_body {map : SortedMap String String} {bytes : Bytes} :
    read bytes = .ok map ↔ ∃ body, bytes = 0xDF :: 0x01 :: body ∧ readBody body = .ok map := by
  constructor
  · intro done
    unfold read at done
    split at done
    next => cases done
    next =>
      split at done
      next first second body _ =>
        split at done
        next => cases done
        next magic =>
          split at done
          next => cases done
          next version =>
            rw [not_not] at magic version
            exact ⟨body, by rw [magic, version]; rfl, done⟩
      next => cases done
  · rintro ⟨body, rfl, done⟩
    obtain ⟨count, after, few, rfl, entries⟩ := readBody_eq_ok_iff.mp done
    have header : (be32 count).length = 4 := rfl
    unfold read
    rw [if_neg (by simp [header])]
    simpa [magic, version] using done

/-- The reader takes the layouts of lists with distinct keys, and makes the map of the list. -/
theorem read_eq_ok_iff {map : SortedMap String String} {bytes : Bytes} :
    read bytes = .ok map ↔
      ∃ entries, Lists bytes entries ∧ (entries.map Prod.fst).Nodup ∧ map = .ofList entries := by
  simp only [read_eq_ok_iff_body, readBody_eq_ok_iff, readEntries_eq_ok_iff]
  constructor
  · rintro ⟨_, rfl, count, _, few, rfl, entries, rfl, ⟨short, rfl, new⟩, rfl⟩
    exact ⟨entries, ⟨few, short, by rw [List.append_nil]; rfl⟩, new.distinct, rfl⟩
  · rintro ⟨entries, ⟨few, short, rfl⟩, distinct, rfl⟩
    exact ⟨_, rfl, _, _, few, rfl, entries, rfl,
      ⟨short, (List.append_nil _).symm, new_empty.mpr distinct⟩, rfl⟩

/-- Texts that fill the same bytes are the same text, and the same bytes follow them. -/
theorem field_append_inj {first second : String} {rest later : Bytes}
    (short : first.utf8ByteSize < 2 ^ 32) (small : second.utf8ByteSize < 2 ^ 32)
    (same : field first ++ rest = field second ++ later) : first = second ∧ rest = later := by
  -- the reader has one answer, and both readings of the bytes are it
  have one : readText (field first ++ rest) = _ := readText_eq_ok_iff.mpr ⟨short, rfl⟩
  have other : readText (field second ++ later) = _ := readText_eq_ok_iff.mpr ⟨small, rfl⟩
  rw [same] at one
  exact Prod.mk.inj (Except.ok.inj (one.symm.trans other))

theorem fields_inj {first second : List (String × String)}
    (short : ∀ entry ∈ first, Short entry) (small : ∀ entry ∈ second, Short entry)
    (size : first.length = second.length) (same : fields first = fields second) :
    first = second := by
  induction first generalizing second with
  | nil => exact (List.length_eq_zero_iff.mp size.symm).symm
  | cons entry rest ih =>
      obtain ⟨other, later, rfl⟩ := List.exists_cons_of_length_eq_add_one size.symm
      obtain ⟨one, short⟩ := List.forall_mem_cons.mp short
      obtain ⟨two, small⟩ := List.forall_mem_cons.mp small
      simp only [fields, List.flatMap_cons, List.append_assoc] at same
      obtain ⟨keys, same⟩ := field_append_inj one.1 two.1 same
      obtain ⟨values, same⟩ := field_append_inj one.2 two.2 same
      rw [Prod.ext keys values, ih short small (Nat.succ.inj size) same]

/-- A payload lists one list of entries only. -/
theorem Lists.unique {bytes : Bytes} {first second : List (String × String)}
    (one : Lists bytes first) (other : Lists bytes second) : first = second := by
  have same : layout first = layout second := one.written.symm.trans other.written
  simp only [layout, List.cons.injEq, true_and] at same
  have count : readWord? (be32 first.length ++ fields first) = _ :=
    readWord?_eq_some_iff.mpr ⟨one.few, rfl⟩
  rw [same, readWord?_eq_some_iff.mpr ⟨other.few, rfl⟩] at count
  obtain ⟨size, same⟩ := Prod.mk.inj (Option.some.inj count)
  exact fields_inj one.short other.short size.symm same.symm

end Payloads

end ElasticJob.Payload
