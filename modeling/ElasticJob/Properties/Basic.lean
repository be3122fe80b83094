import ElasticJob.Collection.SortedMap
import ElasticJob.Number.Single

/-!
A named store of texts by key. Typed values are kept in their text form, so a value written with
one type reads with any other whose range holds it.
-/

namespace ElasticJob

structure Properties where
  name : String
  map : SortedMap String String
  deriving DecidableEq

inductive ValueError where
  | missing (key : String)
  | boolean
  | integer (fault : Number.IntegerFault)
  | single (fault : Number.Single.Fault)
  deriving DecidableEq, Repr

def ValueError.message : ValueError → String
  | missing key => s!"`{key}` field not found"
  | boolean => "provided string was not `true` or `false`"
  | integer fault => fault.message
  | single fault => fault.message

namespace Properties

def empty (name : String := "") : Properties := ⟨name, .empty⟩

def ofMap (map : SortedMap String String) : Properties := ⟨"", map⟩

def size (properties : Properties) : Nat := properties.map.size

def isEmpty (properties : Properties) : Bool := properties.map.isEmpty

def contains (properties : Properties) (key : String) : Bool := properties.map.contains key

def get? (properties : Properties) (key : String) : Option String := properties.map.get? key

def set (properties : Properties) (key value : String) : Properties :=
  { properties with map := properties.map.insert key value }

def unset (properties : Properties) (key : String) : Properties :=
  { properties with map := properties.map.erase key }

theorem get?_set (properties : Properties) (key value other : String) :
    (properties.set key value).get? other =
      if other = key then some value else properties.get? other := by
  by_cases same : other = key
  · simp [get?, set, same]
  · simp [get?, set, same, SortedMap.get?_insert_ne _ _ same]

theorem get?_unset (properties : Properties) (key other : String) :
    (properties.unset key).get? other =
      if other = key then none else properties.get? other := by
  simp [get?, unset, SortedMap.get?_erase, eq_comm (a := other)]

theorem ext_get? {first second : Properties} (name : first.name = second.name)
    (values : ∀ key, first.get? key = second.get? key) : first = second := by
  cases first
  cases second
  cases name
  exact congrArg (Properties.mk _) (SortedMap.ext_get? values)

def extend (properties : Properties) (entries : List (String × String)) : Properties :=
  { properties with map := properties.map.insertMany entries }

def getString (properties : Properties) (key : String) : Except ValueError String :=
  match properties.get? key with
  | some value => .ok value
  | none => .error (.missing key)

def boolText (value : Bool) : String := if value then "true" else "false"

def setBool (properties : Properties) (key : String) (value : Bool) : Properties :=
  properties.set key (boolText value)

def parseBool (text : String) : Except ValueError Bool :=
  match String.ofList (Text.trim text.toList) with
  | "true" => .ok true
  | "false" => .ok false
  | _ => .error .boolean

def getBool (properties : Properties) (key : String) : Except ValueError Bool :=
  (properties.getString key).bind parseBool

def setInteger (properties : Properties) (key : String) (value : Int) : Properties :=
  properties.set key (Number.integerText value)

def getInteger (kind : Number.IntegerKind) (properties : Properties) (key : String) :
    Except ValueError Int :=
  (properties.getString key).bind fun text => (Number.parseInteger kind text).mapError .integer

def getUInt32 (properties : Properties) (key : String) : Except ValueError UInt32 :=
  (properties.getInteger .uint32 key).map fun value => UInt32.ofNat value.toNat

def getUInt64 (properties : Properties) (key : String) : Except ValueError UInt64 :=
  (properties.getInteger .uint64 key).map fun value => UInt64.ofNat value.toNat

def setSingle (properties : Properties) (key : String) (value : Number.Single) : Properties :=
  properties.set key value.text

def getSingle (properties : Properties) (key : String) : Except ValueError Number.Single :=
  (properties.getString key).bind fun text => (Number.Single.parse text).mapError .single

end Properties

end ElasticJob
