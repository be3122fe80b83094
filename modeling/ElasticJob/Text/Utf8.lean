/-!
UTF-8 as lists of bytes: an encoder for texts, and a decoder that says where and how a byte
sequence stops being UTF-8. A sequence is broken after the bytes of it that were still possible,
and cut when the input ends while more bytes could have completed it. Any bytes are also written as
pairs of lower-case hexadecimal digits.
-/

namespace ElasticJob

abbrev Bytes := List UInt8

namespace Text.Utf8

/-- Why a byte sequence is no text. `broken` is the number of bytes that form the longest
possible start of a character, absent when the input ends inside a character. -/
structure Fault where
  index : Nat
  broken : Option Nat
  deriving DecidableEq, Repr

def Fault.message (fault : Fault) : String :=
  match fault.broken with
  | some count => s!"invalid utf-8 sequence of {count} bytes from index {fault.index}"
  | none => s!"incomplete utf-8 byte sequence from index {fault.index}"

def encodePoint (point : Nat) : Bytes :=
  if point < 0x80 then [UInt8.ofNat point]
  else if point < 0x800 then
    [UInt8.ofNat (0xC0 + point / 64), UInt8.ofNat (0x80 + point % 64)]
  else if point < 0x10000 then
    [UInt8.ofNat (0xE0 + point / 4096), UInt8.ofNat (0x80 + point / 64 % 64),
     UInt8.ofNat (0x80 + point % 64)]
  else
    [UInt8.ofNat (0xF0 + point / 262144), UInt8.ofNat (0x80 + point / 4096 % 64),
     UInt8.ofNat (0x80 + point / 64 % 64), UInt8.ofNat (0x80 + point % 64)]

def encodeChars (chars : List Char) : Bytes :=
  chars.flatMap fun c => encodePoint c.toNat

def encode (text : String) : Bytes :=
  encodeChars text.toList

def isTail (byte : UInt8) : Bool :=
  0x80 ≤ byte.toNat && byte.toNat < 0xC0

def width (lead : UInt8) : Nat :=
  if lead.toNat < 0x80 then 1
  else if lead.toNat < 0xC2 then 0
  else if lead.toNat < 0xE0 then 2
  else if lead.toNat < 0xF0 then 3
  else if lead.toNat < 0xF5 then 4
  else 0

/-- The second byte leaves out overlong forms, surrogates and points above U+10FFFF. -/
def isSecond (lead second : UInt8) : Bool :=
  let low := if lead.toNat = 0xE0 then 0xA0 else if lead.toNat = 0xF0 then 0x90 else 0x80
  let high := if lead.toNat = 0xED then 0x9F else if lead.toNat = 0xF4 then 0x8F else 0xBF
  low ≤ second.toNat && second.toNat ≤ high

def join (high : Nat) (tail : UInt8) : Nat :=
  high * 64 + tail.toNat % 64

def decodeFrom (index : Nat) : Bytes → Except Fault (List Char)
  | [] => .ok []
  | lead :: rest =>
      match width lead with
      | 1 => (decodeFrom (index + 1) rest).map (Char.ofNat lead.toNat :: ·)
      | 2 =>
          match rest with
          | [] => .error ⟨index, none⟩
          | second :: rest =>
              if isTail second then
                (decodeFrom (index + 2) rest).map
                  (Char.ofNat (join (lead.toNat % 32) second) :: ·)
              else .error ⟨index, some 1⟩
      | 3 =>
          match rest with
          | [] => .error ⟨index, none⟩
          | second :: rest =>
              if isSecond lead second then
                match rest with
                | [] => .error ⟨index, none⟩
                | third :: rest =>
                    if isTail third then
                      (decodeFrom (index + 3) rest).map
                        (Char.ofNat (join (join (lead.toNat % 16) second) third) :: ·)
                    else .error ⟨index, some 2⟩
              else .error ⟨index, some 1⟩
      | 4 =>
          match rest with
          | [] => .error ⟨index, none⟩
          | second :: rest =>
              if isSecond lead second then
                match rest with
                | [] => .error ⟨index, none⟩
                | third :: rest =>
                    if isTail third then
                      match rest with
                      | [] => .error ⟨index, none⟩
                      | fourth :: rest =>
                          if isTail fourth then
                            (decodeFrom (index + 4) rest).map
                              (Char.ofNat
                                (join (join (join (lead.toNat % 8) second) third) fourth) :: ·)
                          else .error ⟨index, some 3⟩
                    else .error ⟨index, some 2⟩
              else .error ⟨index, some 1⟩
      | _ => .error ⟨index, some 1⟩

def decode (bytes : Bytes) : Except Fault String :=
  (decodeFrom 0 bytes).map String.ofList

end Text.Utf8

namespace Text.Hex

def digit (value : Nat) : Char :=
  Char.ofNat (if value < 10 then 48 + value else 87 + value)

def encode (bytes : Bytes) : String :=
  String.ofList (bytes.flatMap fun byte => [digit (byte.toNat / 16), digit (byte.toNat % 16)])

def value? (c : Char) : Option Nat :=
  let point := c.toNat
  if 48 ≤ point && point ≤ 57 then some (point - 48)
  else if 97 ≤ point && point ≤ 102 then some (point - 87)
  else if 65 ≤ point && point ≤ 70 then some (point - 55)
  else none

def decodeChars? : List Char → Option Bytes
  | [] => some []
  | [_] => none
  | high :: low :: rest =>
      match value? high, value? low, decodeChars? rest with
      | some h, some l, some bytes => some (UInt8.ofNat (h * 16 + l) :: bytes)
      | _, _, _ => none

def decode? (text : String) : Option Bytes :=
  decodeChars? text.toList

def ofNat (value : Nat) : String :=
  String.ofList (Nat.toDigits 16 value)

end Text.Hex

end ElasticJob
