import ElasticJob.Text.Utf8
import ElasticJob.Yaml.Scalar

/-!
Tags of YAML nodes. A tag is a sequence of bytes, since its escapes may spell any; it is cut at a
zero byte. It is written in full, or by a handle that a document declares and the text after it.
-/

namespace ElasticJob.Yaml

abbrev Tag := Bytes

inductive TagName where
  | full (tag : Tag)
  | short (handle : String) (suffix : Bytes)

abbrev TagHandles := List (String × Bytes)

namespace Tag

def ofText (text : String) : Tag := Text.Utf8.encode text

def none : Tag := ofText "!"

def null : Tag := ofText "tag:yaml.org,2002:null"

def bool : Tag := ofText "tag:yaml.org,2002:bool"

def int : Tag := ofText "tag:yaml.org,2002:int"

def localName? (tag : Tag) : Option String :=
  match tag with
  | [] => .none
  | mark :: name => if mark = 0x21 then (Text.Utf8.decode name).toOption else .none

end Tag

def TagHandles.standard : TagHandles :=
  [("!", Tag.ofText "!"), ("!!", Tag.ofText "tag:yaml.org,2002:")]

def TagName.resolve? (handles : TagHandles) : TagName → Option Tag
  | full tag => some tag
  | short handle suffix => (handles.lookup handle).map (· ++ suffix)

/-- The characters of tags. The last three stand only in a tag that is written in full. -/
def isTagChar (isFull : Bool) (c : Char) : Bool :=
  isWord c || ";/?:@&=+$.%!~*\x27()".toList.contains c ||
    (isFull && (c = ',' || c = '[' || c = ']'))

def leadWidth (lead : Nat) : Nat :=
  if lead < 0x80 then 1
  else if lead < 0xC0 then 0
  else if lead < 0xE0 then 2
  else if lead < 0xF0 then 3
  else if lead < 0xF8 then 4
  else 0

/-- The bytes that the characters of a tag spell. A percent sign and two digits are a byte; after
the first byte of a character so many more of its bytes have to follow. -/
def tagBytes? : Nat → List Char → Option Bytes
  | missing, '%' :: high :: low :: rest => do
      let byte := (← hexDigit? high) * 16 + (← hexDigit? low)
      let width := if missing = 0 then leadWidth byte else missing
      if width = 0 ∨ (0 < missing ∧ (byte < 0x80 ∨ 0xC0 ≤ byte)) then none
      (tagBytes? (width - 1) rest).map (UInt8.ofNat byte :: ·)
  | 0, [] => some []
  | 0, c :: rest => if c = '%' then none else (tagBytes? 0 rest).map (UInt8.ofNat c.toNat :: ·)
  | _ + 1, _ => none

def readTagText? (isFull : Bool) (cursor : Cursor) : Option (Bytes × Cursor) := do
  let (chars, after) := cursor.read (isTagChar isFull)
  let bytes ← tagBytes? 0 chars
  return (bytes.takeWhile (· ≠ 0), after)

def readHandle (cursor : Cursor) : String × Bool × Cursor :=
  let (word, after) := cursor.next.read isWord
  if after.rest.head? = some '!' then (String.ofList ('!' :: word ++ ['!']), true, after.next)
  else (String.ofList ('!' :: word), false, after)

def readFullTag? (cursor : Cursor) : Option (TagName × Cursor) := do
  let start := cursor.forward 2
  let (tag, after) ← readTagText? true start
  if after.rest.head? = some '>' ∧ start.index < after.index then return (.full tag, after.next)
  else none

def readTag? (cursor : Cursor) : Option (TagName × Cursor) := do
  if cursor.next.rest.head? = some '<' then readFullTag? cursor
  else
    match readHandle cursor with
    | (handle, true, start) =>
        let (suffix, after) ← readTagText? false start
        if start.index < after.index then return (.short handle suffix, after) else none
    | (_, false, _) =>
        let (suffix, after) ← readTagText? false cursor.next
        return (if suffix.isEmpty then .full Tag.none else .short "!" suffix, after)

end ElasticJob.Yaml
