import ElasticJob.Proofs.Collection.Listing
import ElasticJob.Proofs.Number.Decimal
import ElasticJob.Proofs.Properties.Canonical
import ElasticJob.Properties.Basic

/-!
Properties seen through the look-up of a key: laid over others, taken in part, and holding integers
as texts. A number that was written with one kind reads with every kind that has it and is refused by
every other, before and after the properties are a payload, and with any blanks around its text; no
other key notices.
-/

namespace ElasticJob.Properties

section Overlay

variable (properties : Properties)

theorem get?_extend (map : SortedMap String String) (key : String) :
    (properties.extend map.entries).get? key = (map.get? key).or (properties.get? key) :=
  SortedMap.get?_insertMany map.keys_nodup properties.map key

theorem get?_extend_filter (source : Properties) (keep : String → Bool) (key : String) :
    (properties.extend (source.map.entries.filter fun entry => keep entry.1)).get? key =
      if keep key then (source.get? key).or (properties.get? key) else properties.get? key := by
  have chosen : (properties.extend (source.map.entries.filter fun entry => keep entry.1)).get? key =
      if keep key then (properties.extend source.map.entries).get? key else properties.get? key :=
    SortedMap.get?_insertMany_filter properties.map source.map.entries keep key
  rw [chosen, get?_extend]
  rfl

theorem extend_self : properties.extend properties.map.entries = properties := by
  refine ext_get? rfl fun key => ?_
  rw [get?_extend]
  exact Option.or_self

def restrict (keys : List String) : Properties :=
  { properties with map := properties.map.filter fun key _ => keys.contains key }

theorem get?_restrict (keys : List String) (key : String) :
    (properties.restrict keys).get? key = if key ∈ keys then properties.get? key else none := by
  have kept : (properties.restrict keys).get? key =
      (properties.get? key).filter fun _ => keys.contains key :=
    SortedMap.get?_filter properties.map _ key
  rw [kept]
  by_cases listed : key ∈ keys <;> cases properties.get? key <;> simp [listed]

end Overlay

open Number

def surround (before : List Char) (text : String) (after : List Char) : String :=
  String.ofList (before ++ text.toList ++ after)

structure Holds (properties : Properties) (key : String) (value : Int) : Prop where
  reads : ∀ kind : IntegerKind, kind.InRange value → properties.getInteger kind key = .ok value
  refuses : ∀ kind : IntegerKind, ¬ kind.InRange value →
    properties.getInteger kind key = .error (.integer (kind.refusal value))

structure Stores (before after : Properties) (key : String) (value : Int) : Prop where
  holds : after.Holds key value
  frame : ∀ other, other ≠ key → after.get? other = before.get? other

structure Persists (before after : Properties) (key : String) (value : Int) : Prop where
  here : Stores before after key value
  afterwards : ∀ name bytes, after.toBytes = .ok bytes →
    ∃ back, ofBytes name bytes = .ok back ∧ Stores before back key value

section Storing

variable {before after : Properties} {key : String} {value : Int}

theorem holds_of_parse {text : String} (held : after.get? key = some text)
    (parses : ∀ kind, parseInteger kind text = parseInteger kind (integerText value)) :
    after.Holds key value := by
  have read (kind : IntegerKind) :
      after.getInteger kind key = (parseInteger kind (integerText value)).mapError .integer := by
    rw [getInteger, getString, held, ← parses]
    rfl
  refine ⟨fun kind inside => ?_, fun kind outside => ?_⟩
  · rw [read, parseInteger_integerText, if_pos inside]
    rfl
  · rw [read, parseInteger_integerText, if_neg outside]
    rfl

/-- Only what a key holds decides whether it holds a number, so a payload changes nothing. -/
theorem Stores.persists (stores : Stores before after key value) :
    Persists before after key value := by
  refine ⟨stores, fun name bytes wrote => ⟨_, ofBytes_of_toBytes wrote name, ?_, stores.frame⟩⟩
  exact ⟨stores.holds.reads, stores.holds.refuses⟩

theorem set_surrounded {blanks more : List Char} (blankBefore : ∀ c ∈ blanks, Text.isBlank c = true)
    (blankAfter : ∀ c ∈ more, Text.isBlank c = true)
    (frame : ∀ other, other ≠ key → after.get? other = before.get? other) :
    Stores before (after.set key (surround blanks (integerText value) more)) key value := by
  refine ⟨holds_of_parse ?_ fun kind => parseInteger_surrounded kind value blankBefore blankAfter,
    fun other apart => ?_⟩
  · rw [get?_set, if_pos rfl]
    rfl
  · rw [get?_set, if_neg apart, frame other apart]

theorem setInteger_stores (properties : Properties) (key : String) (value : Int) :
    Stores properties (properties.setInteger key value) key value := by
  have held : (properties.setInteger key value).get? key = some (integerText value) := by
    rw [setInteger, get?_set, if_pos rfl]
  refine ⟨holds_of_parse held fun kind => rfl, fun other apart => ?_⟩
  rw [setInteger, get?_set, if_neg apart]

end Storing

/-- Whatever kind it was written with, a number reads with every kind in whose range it is and is
refused by the others, also from the payload, and also with blanks put around the text that was
stored. Every other key stays as it was. -/
theorem integers_survive_as_text (properties : Properties) (key : String) (value : Int) :
    let written := properties.setInteger key value
    Persists properties written key value ∧
    ∃ text, written.get? key = some text ∧
      ∀ blanks more : List Char, (∀ c ∈ blanks, Text.isBlank c = true) →
        (∀ c ∈ more, Text.isBlank c = true) →
        Persists properties (written.set key (surround blanks text more)) key value := by
  intro written
  have stores := properties.setInteger_stores key value
  have held : written.get? key = some (integerText value) := (get?_set ..).trans (if_pos rfl)
  refine ⟨stores.persists, _, held, fun blanks more blankBefore blankAfter => ?_⟩
  exact (set_surrounded blankBefore blankAfter stores.frame).persists

/-- The least number of 64 bits, with a line break before it and an ideographic space behind it:
written with the widest signed kind, it reads with that kind only. -/
theorem least_number_survives :
    let written := (empty "env").setInteger "n" (-9223372036854775808)
    let padded := written.set "n" (surround ['\n'] "-9223372036854775808" ['\u3000'])
    (∃ bytes back, padded.toBytes = .ok bytes ∧ ofBytes "job" bytes = .ok back ∧
      back.getInteger .int64 "n" = .ok (-9223372036854775808) ∧
      back.getInteger .int32 "n" = .error (.integer .tooSmall) ∧
      back.getInteger .uint64 "n" = .error (.integer .invalidDigit)) ∧
    written.getInteger .int64 "n" = .ok (-9223372036854775808) := by
  intro written padded
  obtain ⟨here, text, held, around⟩ :=
    integers_survive_as_text (empty "env") "n" (-9223372036854775808)
  obtain rfl : "-9223372036854775808" = text := by
    refine Option.some.inj (Eq.trans ?_ held)
    decide +kernel
  obtain ⟨bytes, wrote⟩ : ∃ bytes, padded.toBytes = .ok bytes := ⟨_, rfl⟩
  obtain ⟨back, read, stored⟩ :=
    (around ['\n'] ['\u3000'] (List.forall_mem_singleton.mpr (by decide))
      (List.forall_mem_singleton.mpr (by decide))).afterwards "job" bytes wrote
  refine ⟨⟨bytes, back, wrote, read, ?_, ?_, ?_⟩, ?_⟩
  · exact stored.holds.reads .int64 (by decide)
  · exact stored.holds.refuses .int32 (by decide)
  · exact stored.holds.refuses .uint64 (by decide)
  · exact here.here.holds.reads .int64 (by decide)

end ElasticJob.Properties
