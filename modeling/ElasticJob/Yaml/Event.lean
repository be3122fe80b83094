import ElasticJob.Yaml.Token

/-!
The structure of a YAML document as a list of events. Tokens are matched against a stack of goals:
each step takes the next goal, notes events and puts the goals that are left of it in its place.
Where a node may be left out, an empty plain scalar stands for it.
-/

namespace ElasticJob.Yaml

structure Marks where
  anchor : Option String := none
  tag : Option Tag := none

inductive Event where
  | alias (name : String)
  | scalar (marks : Marks) (style : Style) (text : String)
  | sequence (marks : Marks)
  | mapping (marks : Marks)
  | close

def Event.empty : Event := scalar {} .plain ""

/-- Where a node stands: in a flow collection, in a block, or as a key or value of a block mapping,
where a sequence needs no indentation. -/
inductive Place where
  | flow
  | block
  | entry
  deriving DecidableEq

inductive Goal where
  | node (place : Place)
  | blockItem
  | looseItem
  | blockKey
  | blockValue
  | firstFlowItem
  | flowItem
  | pairKey
  | pairValue
  | pairEnd
  | firstFlowKey
  | flowKey
  | flowValue
  | noFlowValue

abbrev Step := List Event × List Goal × List Token

def Marks.read? (handles : TagHandles) : List Token → Option (Marks × List Token)
  | .anchor name :: .tag tag :: rest => do
      return ({ anchor := some name, tag := some (← tag.resolve? handles) }, rest)
  | .tag tag :: .anchor name :: rest => do
      return ({ anchor := some name, tag := some (← tag.resolve? handles) }, rest)
  | .anchor name :: rest => some ({ anchor := some name }, rest)
  | .tag tag :: rest => do return ({ tag := some (← tag.resolve? handles) }, rest)
  | rest => some ({}, rest)

/-- Marks may stand before nothing, but a node is not left out without any. -/
def Marks.nothing? (marks : Marks) (tokens : List Token) : Option Step :=
  if marks.anchor.isSome || marks.tag.isSome then some ([.scalar marks .plain ""], [], tokens)
  else none

def Marks.node? (marks : Marks) (place : Place) (tokens : List Token) : Option Step :=
  match tokens with
  | .scalar style text :: rest => some ([.scalar marks style text], [], rest)
  | .flowSequence :: rest => some ([.sequence marks], [.firstFlowItem], rest)
  | .flowMapping :: rest => some ([.mapping marks], [.firstFlowKey], rest)
  | .blockSequence :: rest =>
      if place = .flow then marks.nothing? tokens
      else some ([.sequence marks], [.blockItem], rest)
  | .blockMapping :: rest =>
      if place = .flow then marks.nothing? tokens
      else some ([.mapping marks], [.blockKey], rest)
  | .item :: _ =>
      if place = .entry then some ([.sequence marks], [.looseItem], tokens)
      else marks.nothing? tokens
  | _ => marks.nothing? tokens

def node? (handles : TagHandles) (place : Place) : List Token → Option Step
  | .alias name :: rest => some ([.alias name], [], rest)
  | tokens => do
      let (marks, rest) ← Marks.read? handles tokens
      marks.node? place rest

def nodeUnless (ends : Token → Bool) (place : Place) (goals : List Goal) (tokens : List Token) :
    Step :=
  if tokens.head?.any ends then ([.empty], goals, tokens) else ([], .node place :: goals, tokens)

def Token.endsItem : Token → Bool
  | .item | .blockEnd => true
  | _ => false

def Token.endsEntry : Token → Bool
  | .key | .value | .blockEnd => true
  | _ => false

def Token.endsFlowItem : Token → Bool
  | .comma | .flowSequenceEnd => true
  | _ => false

def Token.endsFlowEntry : Token → Bool
  | .comma | .flowMappingEnd => true
  | _ => false

def Token.isValue : Token → Bool
  | .value => true
  | _ => false

/-- An item of a flow sequence; a marked key makes it a mapping of one entry. -/
def flowItem? : List Token → Option Step
  | .flowSequenceEnd :: rest => some ([.close], [], rest)
  | .key :: rest => some ([.mapping {}], [.pairKey, .flowItem], rest)
  | tokens => some ([], [.node .flow, .flowItem], tokens)

def flowKey? : List Token → Option Step
  | .flowMappingEnd :: rest => some ([.close], [], rest)
  | .key :: rest =>
      some (nodeUnless (fun token => token.isValue || token.endsFlowEntry) .flow [.flowValue] rest)
  | tokens => some ([], [.node .flow, .noFlowValue], tokens)

def Goal.step? (handles : TagHandles) : Goal → List Token → Option Step
  | .node place, tokens => node? handles place tokens
  | .blockItem, .item :: rest => some (nodeUnless Token.endsItem .block [.blockItem] rest)
  | .blockItem, .blockEnd :: rest => some ([.close], [], rest)
  | .looseItem, .item :: rest =>
      some (nodeUnless (fun token => token.endsItem || token.endsEntry) .block [.looseItem] rest)
  | .looseItem, tokens => some ([.close], [], tokens)
  | .blockKey, .key :: rest => some (nodeUnless Token.endsEntry .entry [.blockValue] rest)
  | .blockKey, .blockEnd :: rest => some ([.close], [], rest)
  | .blockValue, .value :: rest => some (nodeUnless Token.endsEntry .entry [.blockKey] rest)
  | .blockValue, tokens => some ([.empty], [.blockKey], tokens)
  | .firstFlowItem, tokens => flowItem? tokens
  | .flowItem, .comma :: rest => flowItem? rest
  | .flowItem, .flowSequenceEnd :: rest => some ([.close], [], rest)
  | .pairKey, token :: rest =>
      -- an empty key takes the token that ends it
      if token.isValue || token.endsFlowItem then some ([.empty], [.pairValue], rest)
      else some ([], [.node .flow, .pairValue], token :: rest)
  | .pairValue, .value :: rest => some (nodeUnless Token.endsFlowItem .flow [.pairEnd] rest)
  | .pairValue, tokens => some ([.empty], [.pairEnd], tokens)
  | .pairEnd, tokens => some ([.close], [], tokens)
  | .firstFlowKey, tokens => flowKey? tokens
  | .flowKey, .comma :: rest => flowKey? rest
  | .flowKey, .flowMappingEnd :: rest => some ([.close], [], rest)
  | .flowValue, .value :: rest => some (nodeUnless Token.endsFlowEntry .flow [.flowKey] rest)
  | .flowValue, tokens => some ([.empty], [.flowKey], tokens)
  | .noFlowValue, tokens => some ([.empty], [.flowKey], tokens)
  | _, _ => none

def meet (handles : TagHandles) :
    Nat → List Event → List Goal → List Token → Option (List Event × List Token)
  | _, events, [], tokens => some (events.reverse, tokens)
  | 0, _, _ :: _, _ => none
  | fuel + 1, events, goal :: goals, tokens => do
      let (noted, left, rest) ← goal.step? handles tokens
      meet handles fuel (noted.reverse ++ events) (left ++ goals) rest

/-- The events of a node. Between two tokens lie at most four steps, so the fuel is never used
up. -/
def events? (handles : TagHandles) (tokens : List Token) : Option (List Event × List Token) :=
  meet handles (5 * tokens.length + 5) [] [.node .block] tokens

end ElasticJob.Yaml
