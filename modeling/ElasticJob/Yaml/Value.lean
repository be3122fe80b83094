import ElasticJob.Yaml.Node

/-!
Typed data in YAML nodes. A scalar is read by the type that is asked for, so any scalar is a text.
Truth values and numbers are plain, or literal blocks with the tag of their type. A record is a
mapping, or an empty plain scalar if it has no fields.
-/

namespace ElasticJob.Yaml

namespace Node

def asText? : Node → Option String
  | scalar _ _ text => some text
  | _ => none

def bareText? (expected : Tag) : Node → Option String
  | scalar _ .plain text => some text
  | scalar (some tag) .literal text => if tag = expected then some text else none
  | _ => none

def asBool? (node : Node) : Option Bool :=
  (node.bareText? Tag.bool).bind fun text =>
    if ["true", "True", "TRUE"].contains text then some true
    else if ["false", "False", "FALSE"].contains text then some false
    else none

def digit? (radix : Nat) (c : Char) : Option Nat :=
  (hexDigit? c).bind fun value => if value < radix then some value else none

def digits? (radix : Nat) : List Char → Option Nat
  | [] => none
  | digits => digits.foldlM (fun value c => (digit? radix c).map (value * radix + ·)) 0

/-- Hexadecimal, octal and binary numbers have a mark in front; a decimal number has no zero
there. -/
def unsigned? : List Char → Option Nat
  | '0' :: 'x' :: text => digits? 16 text
  | '0' :: 'o' :: text => digits? 8 text
  | '0' :: 'b' :: text => digits? 2 text
  | ['0'] => some 0
  | '0' :: _ => none
  | text => digits? 10 text

def asUInt64? (node : Node) : Option UInt64 := do
  let text ← node.bareText? Tag.int
  let value ← unsigned? (match text.toList with
    | '+' :: rest => rest
    | chars => chars)
  if value < UInt64.size then some (UInt64.ofNat value) else none

def isNullWord (text : String) : Bool := ["~", "null", "Null", "NULL"].contains text

def isNothing : Node → Bool
  | scalar _ .plain text => text = "" || isNullWord text
  | _ => false

/-- A plain scalar may be written as nothing. A tag makes a text of it, except the tag of nothing,
which then takes no other word. -/
def asOptionalText? (node : Node) : Option (Option String) :=
  match node with
  | scalar (some tag) .plain text =>
      if tag ≠ Tag.null then some (some text) else if isNullWord text then some none else none
  | _ => if node.isNothing then some none else node.asText?.map some

/-- The name of a choice: the tag of a scalar without content, or a text. -/
def asChoice? (node : Node) : Option String :=
  match node with
  | scalar (some tag) _ text =>
      match tag.localName? with
      | some name => if node.isNothing then some name else none
      | none => some text
  | _ => node.asText?

end Node

def valuesOf (name : String) (entries : List (String × Node)) : List Node :=
  entries.filterMap fun entry => if entry.1 = name then some entry.2 else none

namespace Nodes

def single? (nodes : Nodes) : List Node → Option (Option Node)
  | [] => some none
  | [value] => (nodes.follow? value).map some
  | _ => none

def fields? (nodes : Nodes) (names : List String) : Node → Option (List (Option Node))
  | .mapping _ entries => do
      let keyed ← entries.mapM fun entry => do
        return (← (← nodes.follow? entry.1).asText?, entry.2)
      names.mapM fun name => nodes.single? (valuesOf name keyed)
  | .scalar _ .plain "" => some (names.map fun _ => none)
  | _ => none

end Nodes

def default? {α : Type} (missing : α) (decode : Node → Option α) : Option Node → Option α
  | some node => decode node
  | none => some missing

end ElasticJob.Yaml
