import ElasticJob.Yaml.Cursor

/-!
The scalars of a YAML text. Between two words of a scalar the blanks of a line are kept. Over a break
they are dropped, one line feed reads as a space, and of more breaks a leading line feed is left out;
the line and the paragraph separator always stay.

Scalars without quotes end at a colon before a gap, at a comment, at a line that stands further left
than their block, and inside of a flow collection at its marks. Single quotes are written twice; in
double quotes a backslash names a character, or joins the line with the next one. A literal block
keeps its line breaks; a folded one joins lines by a space unless one of them begins with a blank.
-/

namespace ElasticJob.Yaml

structure Gap where
  blanks : List Char
  breaks : List Char

namespace Gap

def read (cursor : Cursor) : Gap × Cursor :=
  let (text, after) := cursor.read isGap
  (⟨text.takeWhile isBlank, text.filter isBreak⟩, after)

def isBroken (gap : Gap) : Bool := !gap.breaks.isEmpty

def folded : List Char → List Char
  | ['\n'] => [' ']
  | '\n' :: more => more
  | breaks => breaks

def text (gap : Gap) : List Char :=
  if gap.isBroken then folded gap.breaks else gap.blanks

end Gap

/-- Whether a tab stands on a later line of a gap before the column `least`. The column is absent
on the first line. -/
def hasEarlyTab (least : Nat) : Option Nat → List Char → Bool
  | _, [] => false
  | column, c :: rest =>
      if isBreak c then hasEarlyTab least (some 0) rest
      else if !isBlank c then false
      else (c = '\t' && column.any (· < least)) || hasEarlyTab least (column.map (· + 1)) rest

def isFlowMark (c : Char) : Bool := c = ',' || c = '[' || c = ']' || c = '{' || c = '}'

def startsFlowMark : List Char → Bool
  | c :: _ => isFlowMark c || c = '?'
  | [] => false

def indicators : List Char :=
  ['-', '?', ':', ',', '[', ']', '{', '}', '#', '&', '*', '!', '|', '>', '\x27', '"', '%', '@',
   '\x60']

/-- Some indicators begin a plain scalar where a word goes on behind them. -/
def startsPlain (flow : Bool) : List Char → Bool
  | [] => false
  | c :: rest =>
      if c = '-' then !startsGap rest
      else if c = '?' || c = ':' then !flow && !startsGap rest
      else !isGap c && !indicators.contains c

namespace Plain

def word (flow : Bool) : List Char → Option (List Char)
  | [] => some []
  | c :: rest =>
      if isGap c || (c = ':' && startsGap rest) then some []
      else if flow && c = ':' && startsFlowMark rest then none
      else if flow && isFlowMark c then some []
      else (word flow rest).map (c :: ·)

def endsAt (flow : Bool) (least : Nat) (cursor : Cursor) : Bool :=
  (!flow && cursor.column < least) || cursor.atMarker || cursor.rest.head? = some '#'

def readFrom (flow : Bool) (least : Nat) : Nat → Cursor → Option (List Char × Bool × Cursor)
  | 0, _ => none
  | fuel + 1, cursor => do
      let first ← word flow cursor.rest
      let after := cursor.forward first.length
      let (gap, resumed) := Gap.read after
      if hasEarlyTab least none after.rest then none
      if endsAt flow least resumed then return (first, gap.isBroken, resumed)
      match ← word flow resumed.rest with
      | [] => return (first, gap.isBroken, resumed)
      | _ =>
          let (more, isBroken, last) ← readFrom flow least fuel resumed
          return (first ++ gap.text ++ more, isBroken, last)

/-- A plain scalar, whether a line break follows it, and the position after the gap behind it.
Later lines, and tabs on them, stand at the column `least` or further right. -/
def read? (flow : Bool) (least : Nat) (cursor : Cursor) : Option (String × Bool × Cursor) :=
  (readFrom flow least (cursor.rest.length + 1) cursor).map fun (text, isBroken, after) =>
    (String.ofList text, isBroken, after)

end Plain

def hexDigit? (c : Char) : Option Nat :=
  if '0' ≤ c ∧ c ≤ '9' then some (c.toNat - 48)
  else if 'a' ≤ c ∧ c ≤ 'f' then some (c.toNat - 87)
  else if 'A' ≤ c ∧ c ≤ 'F' then some (c.toNat - 55)
  else none

namespace Quoted

def shortEscapes : List (Char × Char) :=
  [('0', '\x00'), ('a', '\x07'), ('b', '\x08'), ('t', '\t'), ('\t', '\t'), ('n', '\n'),
   ('v', '\x0b'), ('f', '\x0c'), ('r', '\r'), ('e', '\x1b'), (' ', ' '), ('"', '"'), ('/', '/'),
   ('\\', '\\'), ('N', '\x85'), ('_', '\xa0'), ('L', '\u2028'), ('P', '\u2029')]

def escapeWidth : Char → Nat
  | 'x' => 2
  | 'u' => 4
  | 'U' => 8
  | _ => 0

def hexChar? (width : Nat) (digits : List Char) : Option Char := do
  if width = 0 ∨ digits.length < width then none
  let point ← (digits.take width).foldlM (fun value c => (hexDigit? c).map (value * 16 + ·)) 0
  if point.isValidChar then some (Char.ofNat point) else none

def escape? : List Char → Option (Char × Nat)
  | [] => none
  | c :: digits =>
      match List.lookup c shortEscapes with
      | some value => some (value, 1)
      | none => (hexChar? (escapeWidth c) digits).map fun value => (value, escapeWidth c + 1)

/-- The next piece of a scalar and the position after it; nothing at the closing quote. -/
def piece (quote : Char) (cursor : Cursor) : Option (Option (List Char × Cursor)) :=
  match cursor.rest with
  | [] => none
  | c :: rest =>
      if isGap c then
        let (gap, after) := Gap.read cursor
        some (some (gap.text, after))
      else if c = quote then
        if quote = '\x27' ∧ rest.head? = some quote then some (some ([quote], cursor.forward 2))
        else some none
      else if c = '\\' ∧ quote = '"' then
        if rest.head?.any isBreak then
          let (gap, after) := Gap.read (cursor.forward 2)
          some (some (gap.breaks, after))
        else (escape? rest).map fun (value, length) => some ([value], cursor.forward (length + 1))
      else some (some ([c], cursor.next))

def readFrom (quote : Char) : Nat → Cursor → Option (List Char × Cursor)
  | 0, _ => none
  | fuel + 1, cursor =>
      if cursor.atMarker then none
      else
        match piece quote cursor with
        | none => none
        | some none => some ([], cursor.next)
        | some (some (text, after)) =>
            (readFrom quote fuel after).map fun (more, last) => (text ++ more, last)

def read? (quote : Char) (cursor : Cursor) : Option (String × Cursor) :=
  (readFrom quote (cursor.rest.length + 1) cursor.next).map fun (text, after) =>
    (String.ofList text, after)

end Quoted

namespace Block

inductive Chomping where
  | strip
  | clip
  | keep
  deriving DecidableEq

structure Header where
  isLiteral : Bool
  chomping : Chomping := .clip
  /-- Columns beyond the parent, where the header gives them. -/
  indent : Option Nat := none

def chomping? : Char → Option Chomping
  | '+' => some .keep
  | '-' => some .strip
  | _ => none

def indent? (c : Char) : Option Nat :=
  if '1' ≤ c ∧ c ≤ '9' then some (c.toNat - 48) else none

def Header.read (isLiteral : Bool) (text : List Char) : Header × Nat :=
  let second := text.tail.head?
  match text.head?.bind chomping?, text.head?.bind indent? with
  | some chomping, _ =>
      match second.bind indent? with
      | some indent => (⟨isLiteral, chomping, some indent⟩, 2)
      | none => (⟨isLiteral, chomping, none⟩, 1)
  | none, some indent =>
      match second.bind chomping? with
      | some chomping => (⟨isLiteral, chomping, some indent⟩, 2)
      | none => (⟨isLiteral, .clip, some indent⟩, 1)
  | none, none => ({ isLiteral := isLiteral }, 0)

/-- Indentation and empty lines in front of a line of a block: the breaks, the widest indentation
and the number of characters. Spaces beyond the limit belong to the line. A tab in the indentation
is refused. -/
def margin (limit : Option Nat) (column : Nat) : List Char → Option (List Char × Nat × Nat)
  | [] => some ([], column, 0)
  | c :: rest =>
      let inside := limit.all (column < ·)
      if isBreak c then
        (margin limit 0 rest).map fun (breaks, widest, count) =>
          (c :: breaks, max column widest, count + 1)
      else if inside && c = ' ' then
        (margin limit (column + 1) rest).map fun (breaks, widest, count) =>
          (breaks, max column widest, count + 1)
      else if inside && c = '\t' then none
      else some ([], column, 0)

structure Seam where
  /-- The break that ends the line before, where there is one. -/
  ending : List Char := []
  empties : List Char := []
  /-- Whether the line before begins with a blank. -/
  wasBlank : Bool := false

def Seam.joined (seam : Seam) (isLiteral startsBlank : Bool) : List Char :=
  let folds := !isLiteral && seam.ending = ['\n'] && !seam.wasBlank && !startsBlank
  let ending := if !folds then seam.ending else if seam.empties.isEmpty then [' '] else []
  ending ++ seam.empties

def Seam.chomped (seam : Seam) : Chomping → List Char
  | .strip => []
  | .clip => seam.ending
  | .keep => seam.ending ++ seam.empties

def readFrom (header : Header) (indent : Nat) :
    Nat → Seam → Cursor → Option (List Char × Cursor)
  | 0, _, _ => none
  | fuel + 1, seam, cursor =>
      match cursor.rest with
      | [] => some (seam.chomped header.chomping, cursor)
      | c :: _ =>
          if cursor.column ≠ indent then some (seam.chomped header.chomping, cursor)
          else do
            let (text, after) := cursor.read (!isBreak ·)
            let (empties, _, count) ← margin (some indent) 0 after.next.rest
            let next : Seam := ⟨after.rest.take 1, empties, isBlank c⟩
            let (more, last) ← readFrom header indent fuel next (after.next.forward count)
            return (seam.joined header.isLiteral (isBlank c) ++ text ++ more, last)

/-- A block of lines below the line of its sign; `least` is one more than the indentation of the
parent. -/
def read? (least : Nat) (cursor : Cursor) : Option (String × Cursor) := do
  let signs := cursor.next
  let (header, length) := Header.read (cursor.rest.head? = some '|') signs.rest
  let start ← (signs.forward length).passLine?
  let limit := header.indent.map (least - 1 + ·)
  let (empties, widest, count) ← margin limit start.column start.rest
  let indent := limit.getD (max widest (max least 1))
  let (text, last) ←
    readFrom header indent (start.rest.length + 1) ⟨[], empties, false⟩ (start.forward count)
  return (String.ofList text, last)

end Block

end ElasticJob.Yaml
