import ElasticJob.Yaml.Event
import ElasticJob.Yaml.Token

/-!
YAML nodes with their anchors, and the reading of a text that holds at most one document. Each name
of an anchor has a number, which is how many names stood before it; a name that is used again takes
the number that the next new name would take. An alias has the number that its name has at that
place, and means the last node of that number.
-/

namespace ElasticJob.Yaml

inductive Node where
  | scalar (tag : Option Tag) (style : Style) (text : String)
  | sequence (tag : Option Tag) (items : List Node)
  | mapping (tag : Option Tag) (entries : List (Node × Node))
  | alias (number : Nat)
  deriving Inhabited

structure OpenNode where
  isMapping : Bool
  tag : Option Tag
  /-- The place of its anchor among all anchors. -/
  place : Option Nat
  nodes : List Node := []

def pairs : List Node → List (Node × Node)
  | key :: value :: rest => (key, value) :: pairs rest
  | _ => []

def OpenNode.close (node : OpenNode) : Node :=
  if node.isMapping then .mapping node.tag (pairs node.nodes.reverse)
  else .sequence node.tag node.nodes.reverse

structure Nodes where
  root : Option Node := none
  around : List OpenNode := []
  /-- The number of each anchor's name. -/
  names : List (String × Nat) := []
  /-- The number of each anchor, last first. -/
  numbers : List Nat := []
  /-- The nodes with an anchor, by the place of the anchor. -/
  anchored : List (Nat × Node) := []

namespace Nodes

def mark (nodes : Nodes) : Option String → Option Nat × Nodes
  | none => (none, nodes)
  | some name =>
      let number := nodes.names.length
      (some nodes.numbers.length,
        { nodes with
          names := (name, number) :: nodes.names.filter (·.1 ≠ name)
          numbers := number :: nodes.numbers })

def begin (nodes : Nodes) (isMapping : Bool) (marks : Marks) : Nodes :=
  let (place, marked) := nodes.mark marks.anchor
  { marked with around := ⟨isMapping, marks.tag, place, []⟩ :: marked.around }

def put (nodes : Nodes) (place : Option Nat) (node : Node) : Nodes :=
  let anchored := place.elim nodes.anchored fun place => (place, node) :: nodes.anchored
  match nodes.around with
  | [] => { nodes with root := some node, anchored }
  | inner :: outer =>
      { nodes with around := { inner with nodes := node :: inner.nodes } :: outer, anchored }

def take? (nodes : Nodes) : Event → Option Nodes
  | .alias name => (nodes.names.lookup name).map fun number => nodes.put none (.alias number)
  | .scalar marks style text =>
      let (place, marked) := nodes.mark marks.anchor
      some (marked.put place (.scalar marks.tag style text))
  | .sequence marks => some (nodes.begin false marks)
  | .mapping marks => some (nodes.begin true marks)
  | .close =>
      match nodes.around with
      | [] => none
      | inner :: outer => some ({ nodes with around := outer }.put inner.place inner.close)

def ofEvents? (events : List Event) : Option Nodes := events.foldlM take? {}

def follow? (nodes : Nodes) : Node → Option Node
  | .alias number =>
      match nodes.numbers.idxOf? number with
      | some later => nodes.anchored.lookup (nodes.numbers.length - 1 - later)
      | none => none
  | node => some node

end Nodes

def directives : List Token → List Directive × List Token
  | .directive directive :: rest =>
      let (more, after) := directives rest
      (directive :: more, after)
  | rest => ([], rest)

/-- Notes a directive. The version is 1.1 or 1.2, and neither it nor a handle is declared twice. -/
def declare? (declared : Bool × TagHandles) : Directive → Option (Bool × TagHandles)
  | .version major minor =>
      if declared.1 ∨ major ≠ 1 ∨ (minor ≠ 1 ∧ minor ≠ 2) then none else some (true, declared.2)
  | .handle name lead =>
      if (declared.2.lookup name).isSome then none
      else some (declared.1, declared.2 ++ [(name, lead)])

def handles? (directives : List Directive) : Option TagHandles :=
  (directives.foldlM declare? (false, [])).map (·.2 ++ TagHandles.standard)

def Token.endsDocument : Token → Bool
  | .directive _ | .documentStart | .documentEnd => true
  | _ => false

/-- The events of a document after its directives, and the tokens behind it. -/
def documentEvents? (handles : TagHandles) : List Token → Option (List Event × List Token)
  | .documentStart :: rest =>
      if rest.head?.all Token.endsDocument then some ([.empty], rest) else events? handles rest
  | _ => none

def isOver (tokens : List Token) : Bool :=
  tokens.all fun token => match token with
    | .documentEnd => true
    | _ => false

def read? (text : String) : Option (Option Nodes) := do
  let tokens ← tokens? text
  if tokens.isEmpty then return none
  let (declared, rest) := directives tokens
  let handles ← handles? declared
  let isBare := declared.isEmpty && !rest.head?.any Token.endsDocument
  let (events, after) ← if isBare then events? handles rest else documentEvents? handles rest
  if isOver after then return some (← Nodes.ofEvents? events) else none

end ElasticJob.Yaml
