import ElasticJob.Yaml.Scalar
import ElasticJob.Yaml.Tag

/-!
The tokens of a YAML text. The nesting of blocks is spelled out: a collection that is opened by
indentation has its own token, and so has the place where the indentation ends. A key in front of a
colon is known only when the colon comes, so the place of a possible key is kept, and the tokens that
open it are put there later. The key stands on the line of its colon and no further than 1024 bytes
before it.
-/

namespace ElasticJob.Yaml

inductive Style where
  | plain
  | quoted
  | literal
  | folded
  deriving DecidableEq

inductive Directive where
  | version (major minor : Nat)
  | handle (name : String) (lead : Bytes)

inductive Token where
  | directive (directive : Directive)
  | documentStart
  | documentEnd
  | blockSequence
  | blockMapping
  | blockEnd
  | flowSequence
  | flowSequenceEnd
  | flowMapping
  | flowMappingEnd
  | item
  | comma
  | key
  | value
  | anchor (name : String)
  | alias (name : String)
  | tag (name : TagName)
  | scalar (style : Style) (text : String)

namespace Directive

def readNumber? (cursor : Cursor) : Option (Nat × Cursor) :=
  let (digits, after) := cursor.read Char.isDigit
  if digits.isEmpty ∨ 9 < digits.length then none
  else some (digits.foldl (fun value c => value * 10 + (c.toNat - 48)) 0, after)

def readVersion? (cursor : Cursor) : Option (Directive × Cursor) := do
  let (major, point) ← readNumber? (cursor.pass isBlank)
  if point.rest.head? ≠ some '.' then none
  let (minor, after) ← readNumber? point.next
  return (.version major minor, after)

def readHandle? (cursor : Cursor) : Option (Directive × Cursor) := do
  let start := cursor.pass isBlank
  if start.rest.head? ≠ some '!' then none
  let (name, isClosed, ended) := readHandle start
  if !isClosed ∧ name ≠ "!" then none
  if !ended.rest.head?.any isBlank then none
  let lead := ended.pass isBlank
  let (bytes, after) ← readTagText? true lead
  if lead.index = after.index ∨ !startsGap after.rest then none
  return (.handle name bytes, after)

def read? (cursor : Cursor) : Option (Directive × Cursor) := do
  let (name, ended) := cursor.next.read isWord
  if !startsGap ended.rest then none
  let (directive, after) ←
    if name = "YAML".toList then readVersion? ended
    else if name = "TAG".toList then readHandle? ended
    else none
  return (directive, ← after.passLine?)

end Directive

/-- A place in the tokens where a key may begin. -/
structure PossibleKey where
  /-- The first token of a line in a mapping is a key or a fault. -/
  isRequired : Bool
  place : Nat
  start : Cursor

namespace PossibleKey

/-- The most bytes from the start of a key to its colon. -/
def reach : Nat := 1024

def isStale (key : PossibleKey) (cursor : Cursor) : Bool :=
  key.start.line < cursor.line || key.start.index + reach < cursor.index

end PossibleKey

structure Lexer where
  cursor : Cursor
  tokens : List Token := []
  columns : List Nat := []
  allowsKey : Bool := true
  key : Option PossibleKey := none
  /-- The possible keys of the levels around, one for each open flow collection. -/
  outer : List (Option PossibleKey) := []

namespace Lexer

def inFlow (lexer : Lexer) : Bool := !lexer.outer.isEmpty

def least (lexer : Lexer) : Nat := lexer.columns.head?.elim 0 (· + 1)

def push (lexer : Lexer) (token : Token) : Lexer :=
  { lexer with tokens := token :: lexer.tokens }

def insert (lexer : Lexer) (place : Nat) (token : Token) : Lexer :=
  let later := lexer.tokens.length - place
  { lexer with tokens := lexer.tokens.take later ++ token :: lexer.tokens.drop later }

def take (lexer : Lexer) (token : Token) (length : Nat) : Lexer :=
  { lexer.push token with cursor := lexer.cursor.forward length }

def openBlock (lexer : Lexer) (column place : Nat) (token : Token) : Lexer :=
  if lexer.inFlow || column < lexer.least then lexer
  else { lexer.insert place token with columns := column :: lexer.columns }

def closeBlocks (lexer : Lexer) (least : Nat) : Lexer :=
  if lexer.inFlow then lexer
  else
    let ended := lexer.columns.takeWhile (least ≤ ·)
    { lexer with
      tokens := ended.map (fun _ => Token.blockEnd) ++ lexer.tokens
      columns := lexer.columns.drop ended.length }

def forgetKey? (lexer : Lexer) : Option Lexer :=
  if lexer.key.any (·.isRequired) then none else some { lexer with key := none }

def saveKey? (lexer : Lexer) : Option Lexer :=
  if lexer.allowsKey then do
    let isRequired := !lexer.inFlow && lexer.columns.head? = some lexer.cursor.column
    let key : PossibleKey := ⟨isRequired, lexer.tokens.length, lexer.cursor⟩
    return { ← lexer.forgetKey? with key := some key, allowsKey := false }
  else some lexer

def fresh? (cursor : Cursor) : Option PossibleKey → Option (Option PossibleKey)
  | none => some none
  | some key =>
      if !key.isStale cursor then some (some key) else if key.isRequired then none else some none

def dropStaleKeys? (lexer : Lexer) : Option Lexer := do
  let key ← fresh? lexer.cursor lexer.key
  return { lexer with key, outer := ← lexer.outer.mapM (fresh? lexer.cursor) }

/-- How many characters stand before the next token, and whether a key may begin there. Outside of
flow collections a line may begin with a key, and where a key may begin no tab is passed. -/
def gapLength (flow : Bool) : Bool → Bool → List Char → Nat × Bool
  | allowsKey, _, [] => (0, allowsKey)
  | allowsKey, inComment, c :: rest =>
      let (allows, comment, isPassed) :=
        if isBreak c then (allowsKey || !flow, false, true)
        else if inComment || c = ' ' || (c = '\t' && (flow || !allowsKey)) then
          (allowsKey, inComment, true)
        else (allowsKey, true, c = '#')
      if isPassed then
        let (length, allowed) := gapLength flow allows comment rest
        (length + 1, allowed)
      else (0, allowsKey)

def ready? (lexer : Lexer) : Option Lexer := do
  let (length, allowsKey) := gapLength lexer.inFlow lexer.allowsKey false lexer.cursor.rest
  let cursor := lexer.cursor.forward length
  let fresh ← { lexer with cursor, allowsKey }.dropStaleKeys?
  return fresh.closeBlocks (cursor.column + 1)

def endBlocks? (lexer : Lexer) : Option Lexer :=
  (lexer.closeBlocks 0).forgetKey?.map fun ended => { ended with allowsKey := false }

def openFlow? (lexer : Lexer) (token : Token) : Option Lexer := do
  let saved ← lexer.saveKey?
  return { saved.take token 1 with
    key := none, outer := saved.key :: saved.outer, allowsKey := true }

def closeFlow? (lexer : Lexer) (token : Token) : Option Lexer := do
  let closed ← lexer.forgetKey?
  return { closed.take token 1 with
    key := closed.outer.head?.join, outer := closed.outer.tail, allowsKey := false }

def comma? (lexer : Lexer) : Option Lexer := do
  return { (← lexer.forgetKey?).take .comma 1 with allowsKey := true }

def item? (lexer : Lexer) : Option Lexer := do
  if !lexer.inFlow && !lexer.allowsKey then none
  let opened := lexer.openBlock lexer.cursor.column lexer.tokens.length .blockSequence
  return { (← opened.forgetKey?).take .item 1 with allowsKey := true }

def openMarked? (lexer : Lexer) : Option Lexer :=
  if !lexer.inFlow && !lexer.allowsKey then none
  else some (lexer.openBlock lexer.cursor.column lexer.tokens.length .blockMapping)

def key? (lexer : Lexer) : Option Lexer := do
  let opened ← lexer.openMarked?
  return { (← opened.forgetKey?).take .key 1 with allowsKey := !lexer.inFlow }

/-- A colon makes a key of what stands before it, or gives the value of a key that was marked. -/
def value? (lexer : Lexer) : Option Lexer :=
  match lexer.key with
  | some key =>
      let keyed := (lexer.insert key.place .key).openBlock key.start.column key.place .blockMapping
      some { keyed.take .value 1 with key := none, allowsKey := false }
  | none => do
      return { (← lexer.openMarked?).take .value 1 with allowsKey := !lexer.inFlow }

def name? (lexer : Lexer) (token : String → Token) : Option Lexer := do
  let saved ← lexer.saveKey?
  let (name, after) := lexer.cursor.next.read isWord
  if name.isEmpty then none
  let isEnded := match after.rest with
    | [] => true
    | c :: _ => isGap c || "?:,]\x7d%@\x60".toList.contains c
  if isEnded then return { saved.push (token (String.ofList name)) with cursor := after } else none

def tag? (lexer : Lexer) : Option Lexer := do
  let saved ← lexer.saveKey?
  let (tag, after) ← readTag? lexer.cursor
  if startsGap after.rest ∨ (lexer.inFlow ∧ after.rest.head? = some ',') then
    return { saved.push (.tag tag) with cursor := after }
  else none

def block? (lexer : Lexer) (style : Style) : Option Lexer := do
  let opened ← lexer.forgetKey?
  let (text, after) ← Block.read? lexer.least lexer.cursor
  return { opened.push (.scalar style text) with cursor := after, allowsKey := true }

def quoted? (lexer : Lexer) (quote : Char) : Option Lexer := do
  let saved ← lexer.saveKey?
  let (text, after) ← Quoted.read? quote lexer.cursor
  return { saved.push (.scalar .quoted text) with cursor := after }

def plain? (lexer : Lexer) : Option Lexer := do
  let saved ← lexer.saveKey?
  let (text, isBroken, after) ← Plain.read? lexer.inFlow lexer.least lexer.cursor
  return { saved.push (.scalar .plain text) with cursor := after, allowsKey := isBroken }

def directive? (lexer : Lexer) : Option Lexer := do
  let ended ← lexer.endBlocks?
  let (directive, after) ← Directive.read? lexer.cursor
  return { ended.push (.directive directive) with cursor := after }

def scalar? (lexer : Lexer) (c : Char) : Option Lexer :=
  match c with
  | '*' => lexer.name? .alias
  | '&' => lexer.name? .anchor
  | '!' => lexer.tag?
  | '\x27' => lexer.quoted? c
  | '"' => lexer.quoted? c
  | _ =>
      if c = '|' && !lexer.inFlow then lexer.block? .literal
      else if c = '>' && !lexer.inFlow then lexer.block? .folded
      else if startsPlain lexer.inFlow lexer.cursor.rest then lexer.plain?
      else none

def next? (lexer : Lexer) (c : Char) : Option Lexer :=
  let standsAlone := startsGap (lexer.cursor.rest.drop 1)
  if lexer.cursor.column = 0 && c = '%' then lexer.directive?
  else if lexer.cursor.atMark '-' then lexer.endBlocks?.map (·.take .documentStart 3)
  else if lexer.cursor.atMark '.' then lexer.endBlocks?.map (·.take .documentEnd 3)
  else if c = '-' && standsAlone then lexer.item?
  else if c = '?' && (lexer.inFlow || standsAlone) then lexer.key?
  else if c = ':' && (lexer.inFlow || standsAlone) then lexer.value?
  else
    match c with
    | '[' => lexer.openFlow? .flowSequence
    | '{' => lexer.openFlow? .flowMapping
    | ']' => lexer.closeFlow? .flowSequenceEnd
    | '}' => lexer.closeFlow? .flowMappingEnd
    | ',' => lexer.comma?
    | _ => lexer.scalar? c

/-- Every token takes a character, so the fuel is never used up. -/
def run : Nat → Lexer → Option (List Token)
  | 0, _ => none
  | fuel + 1, lexer => do
      let ready ← lexer.ready?
      match ready.cursor.rest with
      | [] => return (← ready.endBlocks?).tokens.reverse
      | c :: _ => run fuel (← ready.next? c)

end Lexer

def tokens? (text : String) : Option (List Token) := do
  let cursor ← Cursor.ofText? text
  Lexer.run (cursor.rest.length + 1) { cursor }

end ElasticJob.Yaml
