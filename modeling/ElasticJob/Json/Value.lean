import ElasticJob.Collection.SortedMap
import ElasticJob.Text.Utf8

/-!
JSON values and the reading of typed data from them. An object keeps its fields in order. A record
is read from an object, whose unknown fields do not count, or from an array that lists the fields
in order; a variant is its name, or an object whose one field is the name with the content. The
fields of a variant have their names.
-/

namespace ElasticJob

/-- Integers have 64 bits; any other number is kept as its text. -/
inductive Json where
  | null
  | bool (value : Bool)
  | int (value : Int)
  | real (text : String)
  | str (value : String)
  | arr (items : List Json)
  | obj (fields : List (String × Json))
  /-- A text with half of a surrogate pair, or an object with such a name: it may stand where
  nobody reads it. -/
  | unreadable
  deriving Inhabited

namespace Json

def nat (value : Nat) : Json := .int value

def uint32 (value : UInt32) : Json := .nat value.toNat

def bytes (value : Bytes) : Json := .arr (value.map fun byte => .nat byte.toNat)

def list {α : Type} (encode : α → Json) (items : List α) : Json := .arr (items.map encode)

def strings (items : List String) : Json := list .str items

def option {α : Type} (encode : α → Json) : Option α → Json
  | none => .null
  | some value => encode value

def stringMap {ν : Type} (encode : ν → Json) (map : SortedMap String ν) : Json :=
  .obj (map.entries.map fun entry => (entry.1, encode entry.2))

def variant (name : String) (content : Json) : Json := .obj [(name, content)]

def asString? : Json → Option String
  | .str value => some value
  | _ => none

def asBool? : Json → Option Bool
  | .bool value => some value
  | _ => none

def asInt? : Json → Option Int
  | .int value => some value
  | _ => none

def asBelow? (bound : Nat) : Json → Option Nat
  | .int (.ofNat value) => if value < bound then some value else none
  | _ => none

def asByte? (json : Json) : Option UInt8 := (json.asBelow? 256).map UInt8.ofNat

def asUInt32? (json : Json) : Option UInt32 := (json.asBelow? UInt32.size).map UInt32.ofNat

def asUInt64? (json : Json) : Option UInt64 := (json.asBelow? UInt64.size).map UInt64.ofNat

def asList? {α : Type} (decode : Json → Option α) : Json → Option (List α)
  | .arr items => items.mapM decode
  | _ => none

def asStrings? (json : Json) : Option (List String) := json.asList? asString?

def asBytes? (json : Json) : Option Bytes := json.asList? asByte?

def asOption? {α : Type} (decode : Json → Option α) : Json → Option (Option α)
  | .null => some none
  | json => (decode json).map some

def asStringMap? {ν : Type} (decode : Json → Option ν) : Json → Option (SortedMap String ν)
  | .obj fields =>
      (fields.mapM fun field => (decode field.2).map fun value => (field.1, value)).map
        SortedMap.ofList
  | _ => none

def valuesOf (name : String) (fields : List (String × Json)) : List Json :=
  fields.filterMap fun field => if field.1 = name then some field.2 else none

def single? : List Json → Option (Option Json)
  | [] => some none
  | [value] => some (some value)
  | _ => none

def fields? (names : List String) : Json → Option (List (Option Json))
  | .obj fields => names.mapM fun name => single? (valuesOf name fields)
  | _ => none

/-- The values of a record's fields, which an array may list without their names. -/
def record? (names : List String) : Json → Option (List (Option Json))
  | .arr items => if items.length = names.length then some (items.map some) else none
  | json => json.fields? names

/-- Like `record?`, but an array may end early. -/
def openRecord? (names : List String) : Json → Option (List (Option Json))
  | .arr items =>
      if items.length ≤ names.length then
        some (items.map some ++ List.replicate (names.length - items.length) none)
      else none
  | json => json.record? names

def required? {α : Type} (decode : Json → Option α) : Option Json → Option α
  | some json => decode json
  | none => none

def optional? {α : Type} (decode : Json → Option α) : Option Json → Option (Option α)
  | some json => json.asOption? decode
  | none => some none

def default? {α : Type} (missing : α) (decode : Json → Option α) : Option Json → Option α
  | some json => decode json
  | none => some missing

def variant? : Json → Option (String × Option Json)
  | .str name => some (name, none)
  | .obj [(name, content)] => some (name, some content)
  | _ => none

/-- The name of a variant without content; null may stand for the content. -/
def unitVariant? (json : Json) : Option String :=
  match json.variant? with
  | some (name, none) => some name
  | some (name, some .null) => some name
  | _ => none

def choice? {α : Type} (names : List (String × α)) (json : Json) : Option α :=
  json.unitVariant?.bind fun name => List.lookup name names

def get? (json : Json) (name : String) : Option Json :=
  match json with
  | .obj fields => (valuesOf name fields).getLast?
  | _ => none

end Json

end ElasticJob
