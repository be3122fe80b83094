import ElasticJob.Proofs.Properties.Canonical

/-!
What the reader of payloads accepts and what it refuses. Its reads are given here once more with
every read that can go past the end of the bytes made visible: such a read gives nothing, whatever
was checked before it. The checks of the reader leave none of them.
-/

namespace ElasticJob

namespace Payload

def take? (count : Nat) (bytes : Bytes) : Option (Bytes × Bytes) :=
  if bytes.length < count then none else some (bytes.take count, bytes.drop count)

def takeByte? : Bytes → Option (UInt8 × Bytes)
  | [] => none
  | byte :: rest => some (byte, rest)

def takeWord? (bytes : Bytes) : Option (Nat × Bytes) :=
  (take? 4 bytes).map fun (digits, rest) =>
    (digits.foldl (fun value byte => value * 256 + byte.toNat) 0, rest)

def takeText? (bytes : Bytes) : Option (Except TextFault (String × Bytes)) :=
  if bytes.length < 4 then some (.error .lengthTruncated)
  else
    (takeWord? bytes).bind fun (length, after) =>
      if after.length < length then some (.error (.truncated length after.length))
      else
        (take? length after).map fun (taken, rest) =>
          match Text.Utf8.decode taken with
          | .ok text => .ok (text, rest)
          | .error fault => .error (.notUtf8 fault)

def takeEntries? (map : SortedMap String String) (index : Nat) (bytes : Bytes) :
    (left : Nat) → Option (Except Fault (SortedMap String String × Bytes))
  | 0 => some (.ok (map, bytes))
  | left + 1 =>
      (takeText? bytes).bind fun
        | .error fault => some (.error (.badKey index fault))
        | .ok (key, behind) =>
            (takeText? behind).bind fun
              | .error fault => some (.error (.badValue key fault))
              | .ok (value, after) =>
                  if map.contains key then some (.error (.duplicateKey key))
                  else takeEntries? (map.insert key value) (index + 1) after left

def takePayload? (bytes : Bytes) : Option (Except Fault (SortedMap String String)) :=
  if bytes.length < 6 then some (.error (.tooShort bytes.length))
  else
    (takeByte? bytes).bind fun (first, bytes) =>
      if first ≠ magic then some (.error (.badMagic first))
      else
        (takeByte? bytes).bind fun (second, bytes) =>
          if second ≠ version then some (.error (.badVersion second))
          else
            (takeWord? bytes).bind fun (count, bytes) =>
              (takeEntries? .empty 0 bytes count).map fun
                | .error fault => .error fault
                | .ok (map, rest) =>
                    if rest.isEmpty then .ok map else .error (.trailing rest.length count)

theorem takeWord?_eq (bytes : Bytes) : takeWord? bytes = readWord? bytes := by
  match bytes with
  | [] | [_] | [_, _] | [_, _, _] => rfl
  | a :: b :: c :: d :: rest => simp [takeWord?, take?, readWord?]

theorem readWord?_of_length {bytes : Bytes} (enough : 4 ≤ bytes.length) :
    ∃ value rest, readWord? bytes = some (value, rest) := by
  match bytes with
  | [] | [_] | [_, _] | [_, _, _] => simp at enough
  | a :: b :: c :: d :: rest => exact ⟨_, rest, rfl⟩

theorem takeText?_eq (bytes : Bytes) : takeText? bytes = some (readText bytes) := by
  unfold takeText? readText
  rw [takeWord?_eq]
  by_cases few : bytes.length < 4
  · have none : readWord? bytes = none := by
      rw [← takeWord?_eq, takeWord?, take?, if_pos few]
      rfl
    rw [if_pos few, none]
  · obtain ⟨length, after, word⟩ := readWord?_of_length (Nat.le_of_not_lt few)
    rw [if_neg few, word, Option.bind_some]
    by_cases short : after.length < length
    · simp only [if_pos short]
    · cases decoded : Text.Utf8.decode (after.take length) with
      | error fault => simp [take?, short, decoded]
      | ok text => simp [take?, short, decoded]

theorem takeEntries?_eq (map : SortedMap String String) (index : Nat) (bytes : Bytes)
    (left : Nat) : takeEntries? map index bytes left = some (readEntries map index bytes left) := by
  induction left generalizing map index bytes with
  | zero => rfl
  | succ left ih =>
      rw [takeEntries?, readEntries, takeText?_eq, Option.bind_some]
      cases readText bytes with
      | error fault => rfl
      | ok first =>
          obtain ⟨key, behind⟩ := first
          simp only [takeText?_eq, Option.bind_some]
          cases readText behind with
          | error fault => rfl
          | ok second =>
              obtain ⟨value, after⟩ := second
              simp only [ih]
              split <;> rfl

/-- No read goes past the end. -/
theorem takePayload?_eq (bytes : Bytes) : takePayload? bytes = some (read bytes) := by
  unfold takePayload? read
  split
  next => rfl
  next enough =>
    match bytes with
    | [] | [_] => simp at enough
    | first :: second :: rest =>
        simp only [takeByte?, Option.bind_some]
        split
        next => rfl
        next =>
          split
          next => rfl
          next =>
            have left : 4 ≤ rest.length := by
              simp only [List.length_cons] at enough
              omega
            obtain ⟨count, after, word⟩ := readWord?_of_length left
            cases entries : readEntries .empty 0 after count with
            | error fault => simp [takeWord?_eq, takeEntries?_eq, readBody, word, entries]
            | ok result => simp [takeWord?_eq, takeEntries?_eq, readBody, word, entries]

def Grammatical (bytes : Bytes) : Prop :=
  ∃ entries, Lists bytes entries ∧ (entries.map Prod.fst).Nodup

theorem read_ok_iff_grammatical {bytes : Bytes} :
    (∃ map, read bytes = .ok map) ↔ Grammatical bytes := by
  simp only [read_eq_ok_iff]
  constructor
  · rintro ⟨_, entries, lists, distinct, rfl⟩
    exact ⟨entries, lists, distinct⟩
  · rintro ⟨entries, lists, distinct⟩
    exact ⟨_, entries, lists, distinct, rfl⟩

end Payload

namespace Properties

theorem ofBytes_ok_iff_grammatical {name : String} {bytes : Bytes} :
    (∃ properties, ofBytes name bytes = .ok properties) ↔ Payload.Grammatical bytes := by
  rw [← Payload.read_ok_iff_grammatical, ofBytes]
  cases Payload.read bytes <;> simp

/-- Bytes are accepted exactly where they are the layout of entries with distinct keys, and then
hold those entries; all others are refused as no payload of that name, and no read of either goes
past the end. -/
theorem accepts_exactly_the_layout (name : String) (bytes : Bytes) :
    ((∃ properties, ofBytes name bytes = .ok properties) ↔ Payload.Grammatical bytes) ∧
    (∀ properties entries, ofBytes name bytes = .ok properties → Payload.Lists bytes entries →
      properties.name = name ∧
        ∀ key value, properties.get? key = some value ↔ (key, value) ∈ entries) ∧
    (¬ Payload.Grammatical bytes →
      ∃ key detail, ofBytes name bytes = .error (.serialization name key detail)) ∧
    Payload.takePayload? bytes = some (Payload.read bytes) := by
  refine ⟨ofBytes_ok_iff_grammatical, fun properties entries accepted lists => ?_, fun alien => ?_,
    Payload.takePayload?_eq bytes⟩
  · obtain ⟨listed, reading, distinct, rfl⟩ := ofBytes_eq_ok_iff.mp accepted
    obtain rfl := reading.unique lists
    exact ⟨rfl, fun key value => SortedMap.get?_ofList_eq_some_iff distinct⟩
  · cases refused : ofBytes name bytes with
    | ok properties => exact absurd (ofBytes_ok_iff_grammatical.mp ⟨properties, refused⟩) alien
    | error error =>
        unfold ofBytes at refused
        split at refused
        next => cases refused
        next fault _ =>
          cases refused
          exact ⟨fault.key?, fault.message, rfl⟩

def twice : List (String × String) :=
  [("a", "1"), ("a", "2")]

theorem twice_is_refused :
    (∀ key value, get? ⟨"env", .ofList descending⟩ key = some value ↔
      (key, value) ∈ descending) ∧
    ∃ key detail, ofBytes "env" (Payload.layout twice) = .error (.serialization "env" key detail) := by
  refine ⟨?_, (accepts_exactly_the_layout "env" (Payload.layout twice)).2.2.1 ?_⟩
  · have lists : Payload.Lists (Payload.layout descending) descending :=
      ⟨by decide, by decide, rfl⟩
    exact ((accepts_exactly_the_layout "env" (Payload.layout descending)).2.1 _ _ (by rfl) lists).2
  · rintro ⟨entries, lists, distinct⟩
    have same : entries = twice :=
      lists.unique ⟨by decide, by decide, rfl⟩
    subst same
    revert distinct
    decide

end Properties

end ElasticJob
