import ElasticJob.Json.Value
import ElasticJob.Number.Integer
import ElasticJob.Text.Utf8

/-!
The text of JSON values. Writing is compact. Reading is strict: no leading zeros and no control
characters in strings. It goes in two passes, both along their input: characters to tokens, tokens
to a value. Brackets nest to any depth.
-/

namespace ElasticJob.Json

def hexFour (value : Nat) : List Char :=
  [Text.Hex.digit (value / 4096 % 16), Text.Hex.digit (value / 256 % 16),
   Text.Hex.digit (value / 16 % 16), Text.Hex.digit (value % 16)]

def escape (c : Char) : List Char :=
  if c = '"' then ['\\', '"']
  else if c = '\\' then ['\\', '\\']
  else if c = '\n' then ['\\', 'n']
  else if c = '\r' then ['\\', 'r']
  else if c = '\t' then ['\\', 't']
  else if c = '\x08' then ['\\', 'b']
  else if c = '\x0c' then ['\\', 'f']
  else if c.toNat < 32 then '\\' :: 'u' :: hexFour c.toNat
  else [c]

def quote (text : String) : String :=
  String.ofList ('"' :: text.toList.flatMap escape ++ ['"'])

mutual

def write : Json → String
  | .null => "null"
  | .bool value => if value then "true" else "false"
  | .int value => Number.integerText value
  | .real text => text
  | .str value => quote value
  | .arr items => "[" ++ String.intercalate "," (writeItems items) ++ "]"
  | .obj fields => "\x7b" ++ String.intercalate "," (writeFields fields) ++ "\x7d"
  | .unreadable => "null"

def writeItems : List Json → List String
  | [] => []
  | item :: rest => write item :: writeItems rest

def writeFields : List (String × Json) → List String
  | [] => []
  | (name, value) :: rest => (quote name ++ ":" ++ write value) :: writeFields rest

end

inductive Token where
  | open (curly : Bool)
  | close (curly : Bool)
  | comma
  | colon
  /-- A string; nothing where its escapes name half of a surrogate pair. -/
  | str (value : Option String)
  | number (text : List Char)
  | word (text : List Char)
  deriving DecidableEq

/-- What the characters before belong to. Collected characters are in reverse order; those of a
string are numbers, since an escape may name half of a character. -/
inductive Mode where
  | between
  | number (text : List Char)
  | word (text : List Char)
  | inString (units : List Nat)
  | escaped (units : List Nat)
  /-- `left` digits of a code unit are still to come. -/
  | unit (units : List Nat) (value left : Nat)

def isHigh (unit : Nat) : Bool := 0xD800 ≤ unit && unit < 0xDC00

def isLow (unit : Nat) : Bool := 0xDC00 ≤ unit && unit < 0xE000

/-- The characters of a string; a high surrogate and the low one behind it are one character. -/
def joinPairs? : List Nat → Option (List Char)
  | [] => some []
  | high :: low :: rest =>
      if isHigh high && isLow low then
        (joinPairs? rest).map (Char.ofNat (0x10000 + (high - 0xD800) * 1024 + (low - 0xDC00)) :: ·)
      else if isHigh high || isLow high then none
      else (joinPairs? (low :: rest)).map (Char.ofNat high :: ·)
  | [unit] => if isHigh unit || isLow unit then none else some [Char.ofNat unit]

def punctuation? (c : Char) : Option Token :=
  if c = '[' then some (.open false)
  else if c = ']' then some (.close false)
  else if c = '\x7b' then some (.open true)
  else if c = '\x7d' then some (.close true)
  else if c = ',' then some .comma
  else if c = ':' then some .colon
  else none

def isNumberChar (c : Char) : Bool :=
  (Number.digit? c).isSome || c = '-' || c = '+' || c = '.' || c = 'e' || c = 'E'

def shortEscape? (c : Char) : Option Char :=
  if c = '"' || c = '\\' || c = '/' then some c
  else if c = 'n' then some '\n'
  else if c = 'r' then some '\r'
  else if c = 't' then some '\t'
  else if c = 'b' then some '\x08'
  else if c = 'f' then some '\x0c'
  else none

def start? (c : Char) : Option (Mode × List Token) :=
  match punctuation? c with
  | some token => some (.between, [token])
  | none =>
      if c = ' ' || c = '\n' || c = '\r' || c = '\t' then some (.between, [])
      else if c = '"' then some (.inString [], [])
      else if c = '-' || (Number.digit? c).isSome then some (.number [c], [])
      else if c.isAlpha then some (.word [c], [])
      else none

/-- One character further: the new mode and the tokens that ended, or nothing on a fault. -/
def advance? (mode : Mode) (c : Char) : Option (Mode × List Token) :=
  match mode with
  | .between => start? c
  | .number text =>
      if isNumberChar c then some (.number (c :: text), [])
      else (start? c).map fun next => (next.1, .number text.reverse :: next.2)
  | .word text =>
      if c.isAlpha then some (.word (c :: text), [])
      else (start? c).map fun next => (next.1, .word text.reverse :: next.2)
  | .inString units =>
      if c = '"' then some (.between, [.str ((joinPairs? units.reverse).map String.ofList)])
      else if c = '\\' then some (.escaped units, [])
      else if c.toNat < 32 then none
      else some (.inString (c.toNat :: units), [])
  | .escaped units =>
      if c = 'u' then some (.unit units 0 4, [])
      else (shortEscape? c).map fun plain => (.inString (plain.toNat :: units), [])
  | .unit units value left =>
      (Text.Hex.value? c).map fun digit =>
        let next := value * 16 + digit
        if left ≤ 1 then (.inString (next :: units), []) else (.unit units next (left - 1), [])

def finish? : Mode → Option (List Token)
  | .between => some []
  | .number text => some [.number text.reverse]
  | .word text => some [.word text.reverse]
  | _ => none

def tokens? (mode : Mode) (done : List Token) : List Char → Option (List Token)
  | [] => (finish? mode).map fun last => (last.reverse ++ done).reverse
  | c :: rest =>
      match advance? mode c with
      | none => none
      | some (next, ended) => tokens? next (ended.reverse ++ done) rest

def someDigits? (text : List Char) : Option (List Char × List Char) :=
  let digits := text.takeWhile fun c => (Number.digit? c).isSome
  if digits.isEmpty then none else some (digits, text.dropWhile fun c => (Number.digit? c).isSome)

def isExponent (text : List Char) : Bool :=
  let body := match text with
    | '+' :: rest | '-' :: rest => rest
    | _ => text
  match someDigits? body with
  | some (_, []) => true
  | _ => false

def isTailOfNumber (text : List Char) : Bool :=
  let afterPlaces := match text with
    | '.' :: rest => (someDigits? rest).map Prod.snd
    | _ => some text
  match afterPlaces with
  | none => false
  | some [] => true
  | some (c :: rest) => (c = 'e' || c = 'E') && isExponent rest

/-- Integers outside 64 bits are numbers with a point; so is minus zero. -/
def ofInteger (negative : Bool) (text : List Char) (magnitude : Nat) : Json :=
  if negative then
    if magnitude = 0 then .real "-0.0"
    else if magnitude ≤ 9223372036854775808 then .int (-(magnitude : Int))
    else .real (String.ofList ('-' :: text ++ ['.', '0']))
  else if magnitude < UInt64.size then .int magnitude
  else .real (String.ofList (text ++ ['.', '0']))

def number? (text : List Char) : Option Json :=
  let negative : Bool := text.head? = some '-'
  match someDigits? (if negative then text.drop 1 else text) with
  | none => none
  | some (digits, rest) =>
      if digits.head? = some '0' && digits.length ≠ 1 then none
      else if rest.isEmpty then
        some (ofInteger negative digits
          (digits.foldl (fun value c => value * 10 + (Number.digit? c).getD 0) 0))
      else if isTailOfNumber rest then some (.real (String.ofList text))
      else none

def word? (text : List Char) : Option Json :=
  match String.ofList text with
  | "null" => some .null
  | "true" => some (.bool true)
  | "false" => some (.bool false)
  | _ => none

/-- A container that is still open, its contents in reverse order. An object has none any more
when one of its names is no text. -/
inductive Frame where
  | array (done : List Json)
  | object (done : Option (List (String × Json))) (name : String)

inductive Expect where
  | value
  | firstItem
  | firstName
  | name
  | colon
  | separator
  | nothing (value : Json)

def settle (value : Json) : List Frame → Expect × List Frame
  | [] => (.nothing value, [])
  | .array done :: outer => (.separator, .array (value :: done) :: outer)
  | .object done name :: outer => (.separator, .object (done.map ((name, value) :: ·)) name :: outer)

def closed? (curly : Bool) : List Frame → Option (Expect × List Frame)
  | .array done :: outer =>
      if curly then none else some (settle (.arr done.reverse) outer)
  | .object done _ :: outer =>
      let object := done.elim Json.unreadable fun fields => .obj fields.reverse
      if curly then some (settle object outer) else none
  | [] => none

def value? (token : Token) (frames : List Frame) : Option (Expect × List Frame) :=
  match token with
  | .str value => some (settle (value.elim Json.unreadable Json.str) frames)
  | .number text => (number? text).map fun value => settle value frames
  | .word text => (word? text).map fun value => settle value frames
  | .open curly =>
      if curly then some (.firstName, .object (some []) "" :: frames)
      else some (.firstItem, .array [] :: frames)
  | _ => none

def name? (token : Token) (frames : List Frame) : Option (Expect × List Frame) :=
  match token, frames with
  | .str (some name), .object done _ :: outer => some (.colon, .object done name :: outer)
  | .str none, .object _ _ :: outer => some (.colon, .object none "" :: outer)
  | _, _ => none

def accept? (expect : Expect) (frames : List Frame) (token : Token) :
    Option (Expect × List Frame) :=
  match expect with
  | .value => value? token frames
  | .firstItem => if token = .close false then closed? false frames else value? token frames
  | .firstName => if token = .close true then closed? true frames else name? token frames
  | .name => name? token frames
  | .colon => if token = .colon then some (.value, frames) else none
  | .separator =>
      match token, frames with
      | .comma, .array _ :: _ => some (.value, frames)
      | .comma, .object _ _ :: _ => some (.name, frames)
      | .close curly, _ => closed? curly frames
      | _, _ => none
  | .nothing _ => none

def build? (expect : Expect) (frames : List Frame) : List Token → Option Json
  | [] =>
      match expect with
      | .nothing value => some value
      | _ => none
  | token :: rest =>
      match accept? expect frames token with
      | none => none
      | some (next, frames) => build? next frames rest

def read? (text : String) : Option Json :=
  (tokens? .between [] text.toList).bind fun tokens => build? .value [] tokens

end ElasticJob.Json
