/-!
Positions in a YAML text. The text holds no carriage return and no next-line character, so every
line break is one character. A line is measured twice: in characters for the nesting of blocks,
and in bytes for the length of keys.
-/

namespace ElasticJob.Yaml

structure Cursor where
  rest : List Char
  index : Nat := 0
  line : Nat := 0
  column : Nat := 0

def isAllowed (c : Char) : Bool :=
  let point := c.toNat
  point = 0x09 || point = 0x0A || point = 0x0D || point = 0x85 ||
    (0x20 ≤ point && point ≤ 0x7E) ||
    (0xA0 ≤ point && point ≠ 0xFFFE && point ≠ 0xFFFF)

/-- The line breaks of bytes become line feeds; the line and the paragraph separator stay. -/
def joinBreaks : List Char → List Char
  | [] => []
  | '\r' :: '\n' :: rest => '\n' :: joinBreaks rest
  | c :: rest => (if c = '\r' ∨ c = '\x85' then '\n' else c) :: joinBreaks rest

def isBlank (c : Char) : Bool := c = ' ' || c = '\t'

def isBreak (c : Char) : Bool := c = '\n' || c = '\u2028' || c = '\u2029'

def isGap (c : Char) : Bool := isBlank c || isBreak c

def startsGap : List Char → Bool
  | [] => true
  | c :: _ => isGap c

def startsBreak : List Char → Bool
  | [] => true
  | c :: _ => isBreak c

def isWord (c : Char) : Bool := c.isAlphanum || c = '_' || c = '-'

namespace Cursor

def next (cursor : Cursor) : Cursor :=
  match cursor.rest with
  | [] => cursor
  | c :: rest =>
      let index := cursor.index + c.utf8Size
      if isBreak c then ⟨rest, index, cursor.line + 1, 0⟩
      else ⟨rest, index, cursor.line, cursor.column + 1⟩

/-- The start of a text. A byte order mark in front of it does not count; a second one takes a
column. -/
def ofText? (text : String) : Option Cursor :=
  let content := match text.toList with
    | '\uFEFF' :: rest => rest
    | chars => chars
  let start : Cursor := { rest := joinBreaks content }
  if !content.all isAllowed then none
  else if content.head? = some '\uFEFF' then some start.next
  else some start

def forward (cursor : Cursor) : Nat → Cursor
  | 0 => cursor
  | count + 1 => cursor.next.forward count

def read (cursor : Cursor) (accepts : Char → Bool) : List Char × Cursor :=
  let taken := cursor.rest.takeWhile accepts
  (taken, cursor.forward taken.length)

def pass (cursor : Cursor) (accepts : Char → Bool) : Cursor := (cursor.read accepts).2

def passLine? (cursor : Cursor) : Option Cursor :=
  let passed := cursor.pass isBlank
  let ended := if passed.rest.head? = some '#' then passed.pass (!isBreak ·) else passed
  if startsBreak ended.rest then some ended.next else none

def atMark (cursor : Cursor) (mark : Char) : Bool :=
  cursor.column = 0 &&
    match cursor.rest with
    | a :: b :: c :: rest => a = mark && b = mark && c = mark && startsGap rest
    | _ => false

def atMarker (cursor : Cursor) : Bool := cursor.atMark '-' || cursor.atMark '.'

end Cursor

end ElasticJob.Yaml
