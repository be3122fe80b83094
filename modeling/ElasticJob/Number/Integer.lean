import ElasticJob.Text.Blank

/-!
Checked decimal integers of the four word kinds. Reading goes digit by digit from the left: the
first character that is no digit, or the first digit that leaves the range, decides the fault.
-/

namespace ElasticJob.Number

inductive IntegerKind where
  | int32
  | uint32
  | int64
  | uint64
  deriving DecidableEq, Repr

namespace IntegerKind

def least : IntegerKind → Int
  | int32 => -2147483648
  | int64 => -9223372036854775808
  | uint32 | uint64 => 0

def greatest : IntegerKind → Int
  | int32 => 2147483647
  | uint32 => 4294967295
  | int64 => 9223372036854775807
  | uint64 => 18446744073709551615

def isSigned : IntegerKind → Bool
  | int32 | int64 => true
  | uint32 | uint64 => false

def InRange (kind : IntegerKind) (value : Int) : Prop :=
  kind.least ≤ value ∧ value ≤ kind.greatest

instance (kind : IntegerKind) (value : Int) : Decidable (kind.InRange value) :=
  inferInstanceAs (Decidable (_ ∧ _))

end IntegerKind

inductive IntegerFault where
  | empty
  | invalidDigit
  | tooLarge
  | tooSmall
  deriving DecidableEq, Repr

def IntegerFault.message : IntegerFault → String
  | empty => "cannot parse integer from empty string"
  | invalidDigit => "invalid digit found in string"
  | tooLarge => "number too large to fit in target type"
  | tooSmall => "number too small to fit in target type"

def digit? (c : Char) : Option Nat :=
  if 48 ≤ c.toNat && c.toNat ≤ 57 then some (c.toNat - 48) else none

/-- Reads on from `value`, adding digits away from zero. -/
def readDigits (kind : IntegerKind) (negative : Bool) (value : Int) :
    List Char → Except IntegerFault Int
  | [] => .ok value
  | c :: rest =>
      match digit? c with
      | none => .error .invalidDigit
      | some digit =>
          let next := if negative then value * 10 - digit else value * 10 + digit
          if next < kind.least then .error .tooSmall
          else if kind.greatest < next then .error .tooLarge
          else readDigits kind negative next rest

def readInteger (kind : IntegerKind) : List Char → Except IntegerFault Int
  | [] => .error .empty
  | ['+'] | ['-'] => .error .invalidDigit
  | '+' :: rest => readDigits kind false 0 rest
  | '-' :: rest =>
      if kind.isSigned then readDigits kind true 0 rest else .error .invalidDigit
  | text => readDigits kind false 0 text

def parseInteger (kind : IntegerKind) (text : String) : Except IntegerFault Int :=
  readInteger kind (Text.trim text.toList)

def integerText (value : Int) : String :=
  match value with
  | .ofNat magnitude => Nat.repr magnitude
  | .negSucc magnitude => "-" ++ Nat.repr (magnitude + 1)

end ElasticJob.Number
