import ElasticJob.Error
import ElasticJob.Properties.Basic
import ElasticJob.Text.Utf8

/-!
Properties as bytes: a magic byte, a version, the number of entries, then every entry as two
texts, each with its length before it. Numbers are big-endian words of 32 bits. Entries are
written in key order; they are read in any order, but no key twice.
-/

namespace ElasticJob.Payload

def magic : UInt8 := 0xDF

def version : UInt8 := 1

def word (value : Nat) : Bytes :=
  [UInt8.ofNat (value / 16777216), UInt8.ofNat (value / 65536 % 256),
   UInt8.ofNat (value / 256 % 256), UInt8.ofNat (value % 256)]

structure Oversize where
  length : Nat
  key : Option String
  deriving DecidableEq, Repr

def Oversize.toError (component : String) (fault : Oversize) : JobError :=
  .serialization component fault.key s!"length {fault.length} exceeds u32"

def writeWord (value : Nat) (key : Option String) : Except Oversize Bytes :=
  if value < UInt32.size then .ok (word value) else .error ⟨value, key⟩

def writeText (text : String) (key : String) : Except Oversize Bytes :=
  let bytes := Text.Utf8.encode text
  (writeWord bytes.length (some key)).map (· ++ bytes)

def writeEntry (entry : String × String) : Except Oversize Bytes := do
  let key ← writeText entry.1 entry.1
  let value ← writeText entry.2 entry.1
  return key ++ value

def writeEntries : List (String × String) → Except Oversize Bytes
  | [] => .ok []
  | entry :: rest => do
      let bytes ← writeEntry entry
      let more ← writeEntries rest
      return bytes ++ more

def write (map : SortedMap String String) : Except Oversize Bytes := do
  let count ← writeWord map.size none
  let body ← writeEntries map.entries
  return magic :: version :: (count ++ body)

inductive TextFault where
  | lengthTruncated
  | truncated (expected found : Nat)
  | notUtf8 (fault : Text.Utf8.Fault)
  deriving DecidableEq, Repr

def TextFault.message : TextFault → String
  | lengthTruncated => "length truncated"
  | truncated expected found => s!"truncated, expect {expected} bytes, found {found}"
  | notUtf8 fault => "is not utf-8: " ++ fault.message

inductive Fault where
  | tooShort (length : Nat)
  | badMagic (byte : UInt8)
  | badVersion (byte : UInt8)
  | badKey (index : Nat) (fault : TextFault)
  | badValue (key : String) (fault : TextFault)
  | duplicateKey (key : String)
  | trailing (left count : Nat)
  deriving DecidableEq, Repr

/-- The key that a fault is blamed on: faults in a value, and keys that come again. -/
def Fault.key? : Fault → Option String
  | badValue key _ => some key
  | duplicateKey key => some key
  | _ => none

def hexByte (byte : UInt8) : String :=
  String.ofList ((Text.Hex.encode [byte]).toList.map Char.toUpper)

def Fault.message : Fault → String
  | tooShort length => s!"payload too short, {length} bytes"
  | badMagic byte => s!"illegal payload magic 0x{hexByte byte}"
  | badVersion byte => s!"unsupported payload version {byte.toNat}"
  | badKey index fault => s!"entry {index}: key {fault.message}"
  | badValue _ fault => s!"value {fault.message}"
  | duplicateKey _ => "duplicate key"
  | trailing left count => s!"{left} trailing bytes after {count} entries"

def Fault.toError (component : String) (fault : Fault) : JobError :=
  .serialization component fault.key? fault.message

def readWord? : Bytes → Option (Nat × Bytes)
  | a :: b :: c :: d :: rest =>
      some (((a.toNat * 256 + b.toNat) * 256 + c.toNat) * 256 + d.toNat, rest)
  | _ => none

/-- A text with its length before it, and the bytes after it. -/
def readText (bytes : Bytes) : Except TextFault (String × Bytes) :=
  match readWord? bytes with
  | none => .error .lengthTruncated
  | some (length, rest) =>
      if rest.length < length then .error (.truncated length rest.length)
      else
        match Text.Utf8.decode (rest.take length) with
        | .ok text => .ok (text, rest.drop length)
        | .error fault => .error (.notUtf8 fault)

/-- Reads `left` more entries; `index` entries were read before. -/
def readEntries (map : SortedMap String String) (index : Nat) (bytes : Bytes) :
    (left : Nat) → Except Fault (SortedMap String String × Bytes)
  | 0 => .ok (map, bytes)
  | left + 1 =>
      match readText bytes with
      | .error fault => .error (.badKey index fault)
      | .ok (key, rest) =>
          match readText rest with
          | .error fault => .error (.badValue key fault)
          | .ok (value, rest) =>
              if map.contains key then .error (.duplicateKey key)
              else readEntries (map.insert key value) (index + 1) rest left

def readBody (bytes : Bytes) : Except Fault (SortedMap String String) :=
  match readWord? bytes with
  | none => .error (.tooShort bytes.length)
  | some (count, rest) =>
      match readEntries .empty 0 rest count with
      | .error fault => .error fault
      | .ok (map, rest) =>
          if rest.isEmpty then .ok map else .error (.trailing rest.length count)

def read (bytes : Bytes) : Except Fault (SortedMap String String) :=
  if bytes.length < 6 then .error (.tooShort bytes.length)
  else
    match bytes with
    | first :: second :: rest =>
        if first ≠ magic then .error (.badMagic first)
        else if second ≠ version then .error (.badVersion second)
        else readBody rest
    | _ => .error (.tooShort bytes.length)

end Payload

namespace Properties

def toBytes (properties : Properties) : Except JobError Bytes :=
  (Payload.write properties.map).mapError (·.toError properties.name)

def ofBytes (name : String) (bytes : Bytes) : Except JobError Properties :=
  match Payload.read bytes with
  | .ok map => .ok ⟨name, map⟩
  | .error fault => .error (fault.toError name)

end Properties

end ElasticJob
