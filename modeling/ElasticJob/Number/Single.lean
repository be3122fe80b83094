import ElasticJob.Number.Integer
import ElasticJob.Number.Rounding

/-!
Single-precision numbers as bit patterns, with exact reading and writing of decimal text. Reading
rounds the decimal to the nearest number; writing gives the fewest digits that read back, the
nearest of those, and always in positional form.
-/

namespace ElasticJob.Number

/-- A number of 24 bits precision, given by its 32-bit pattern. -/
structure Single where
  bits : UInt32
  deriving DecidableEq, Repr

namespace Single

inductive Meaning where
  | notANumber
  | infinite (negative : Bool)
  | finite (negative : Bool) (magnitude : Scaled)
  deriving DecidableEq, Repr

def fullMantissa : Nat := 8388608

def signBit : Nat := 2147483648

def meaning (single : Single) : Meaning :=
  let pattern := single.bits.toNat
  let negative := pattern / signBit = 1
  let exponent : Nat := pattern / fullMantissa % 256
  let fraction : Nat := pattern % fullMantissa
  if exponent = 255 then
    if fraction = 0 then .infinite negative else .notANumber
  else if exponent = 0 then .finite negative ⟨fraction, -149⟩
  else .finite negative ⟨fullMantissa + fraction, (exponent : Int) - 150⟩

def ofParts (negative : Bool) (pattern : Nat) : Single :=
  ⟨UInt32.ofNat ((if negative then signBit else 0) + pattern)⟩

def notANumber : Single := ofParts false (255 * fullMantissa + fullMantissa / 2)

def infinite (negative : Bool) : Single := ofParts negative (255 * fullMantissa)

def isNaN (single : Single) : Bool :=
  single.meaning = .notANumber

/-- A rounded magnitude as a pattern; one above the largest number becomes infinite. -/
def ofRounded (negative : Bool) (magnitude : Scaled) : Single :=
  if magnitude.mantissa < fullMantissa then ofParts negative magnitude.mantissa
  else
    let exponent := magnitude.exponent + 150
    if 254 < exponent then infinite negative
    else ofParts negative (exponent.toNat * fullMantissa + (magnitude.mantissa - fullMantissa))

def ofQuotient (negative : Bool) (numerator denominator : Nat) : Single :=
  ofRounded negative (roundQuotient 24 (-149) numerator denominator)

inductive Fault where
  | empty
  | invalid
  deriving DecidableEq, Repr

def Fault.message : Fault → String
  | empty => "cannot parse float from empty string"
  | invalid => "invalid float literal"

def splitDigits (text : List Char) : List Char × List Char :=
  (text.takeWhile fun c => (digit? c).isSome, text.dropWhile fun c => (digit? c).isSome)

def digitsValue (digits : List Char) : Nat :=
  digits.foldl (fun value c => value * 10 + (digit? c).getD 0) 0

/-- A decimal `digits * 10 ^ exponent`. Far outside the range of the format the power of ten is
not computed: such a decimal is infinite or zero whatever its digits. -/
def ofDecimal (negative : Bool) (digits : Nat) (exponent : Int) : Single :=
  let length : Int := (Nat.repr digits).length
  if digits = 0 then ofParts negative 0
  else if 60 < length + exponent then infinite negative
  else if length + exponent < -80 then ofParts negative 0
  else ofQuotient negative (digits * tenTo exponent.toNat) (tenTo (-exponent).toNat)

def readExponent (text : List Char) : Option Int :=
  let body := match text with
    | '+' :: rest | '-' :: rest => rest
    | _ => text
  let (digits, rest) := splitDigits body
  if digits.isEmpty || !rest.isEmpty then none
  else
    let magnitude : Int := digitsValue digits
    some (if text.head? = some '-' then -magnitude else magnitude)

def readDecimal (negative : Bool) (text : List Char) : Option Single :=
  let (whole, rest) := splitDigits text
  let (places, rest) := match rest with
    | '.' :: more => splitDigits more
    | _ => ([], rest)
  if whole.isEmpty && places.isEmpty then none
  else
    let digits := digitsValue (whole ++ places)
    match rest with
    | [] => some (ofDecimal negative digits (-(places.length : Int)))
    | c :: more =>
        if c = 'e' || c = 'E' then
          (readExponent more).map fun exponent =>
            ofDecimal negative digits (exponent - places.length)
        else none

def readName (negative : Bool) (text : List Char) : Option Single :=
  match String.ofList (text.map Char.toLower) with
  | "inf" | "infinity" => some (infinite negative)
  | "nan" => some notANumber
  | _ => none

def read (text : List Char) : Except Fault Single :=
  let negative : Bool := text.head? = some '-'
  let body := match text with
    | '+' :: rest | '-' :: rest => rest
    | _ => text
  if text.isEmpty then .error .empty
  else
    match (readDecimal negative body).orElse fun _ => readName negative body with
    | some single => .ok single
    | none => .error .invalid

def parse (text : String) : Except Fault Single :=
  read (Text.trim text.toList)

/-- The reals that read back as a finite number other than zero, in units of `unit`: the number is
`value` units and the reals reach from `low` to `high`, with both ends where `closed`. -/
structure Interval where
  low : Nat
  value : Nat
  high : Nat
  unit : Scaled
  closed : Bool

/-- Just above a power of two the numbers below lie twice as dense. -/
def interval (magnitude : Scaled) : Interval :=
  let m := magnitude.mantissa
  let even := m % 2 = 0
  if m = fullMantissa then ⟨4 * m - 1, 4 * m, 4 * m + 2, ⟨1, magnitude.exponent - 2⟩, even⟩
  else ⟨2 * m - 1, 2 * m, 2 * m + 1, ⟨1, magnitude.exponent - 1⟩, even⟩

/-- Digits on the grid of `10 ^ grid`: the neighbour of the number that lies in its interval, the
nearer one when both do, and the upper one when they are equally near. -/
def onGrid (range : Interval) (grid : Int) : Option Nat :=
  let (up, down) := range.unit.fraction
  let step := tenTo grid.toNat * down
  let scale := tenTo (-grid).toNat * up
  let lower := range.value * scale / step
  let upper := lower + 1
  let inside (candidate : Nat) : Bool :=
    if range.closed then
      range.low * scale ≤ candidate * step && candidate * step ≤ range.high * scale
    else range.low * scale < candidate * step && candidate * step < range.high * scale
  match inside lower, inside upper with
  | true, true =>
      if range.value * scale - lower * step < upper * step - range.value * scale then some lower
      else some upper
  | true, false => some lower
  | false, true => some upper
  | false, false => none

def firstGrid (range : Interval) (grid : Int) : Nat → Nat × Int
  | 0 => (0, grid)
  | fuel + 1 =>
      match onGrid range grid with
      | some digits => if digits = 0 then firstGrid range (grid - 1) fuel else (digits, grid)
      | none => firstGrid range (grid - 1) fuel

def positional (digits : Nat) (grid : Int) : List Char :=
  let text := (Nat.repr digits).toList
  let places := (-grid).toNat
  if places = 0 then text ++ List.replicate grid.toNat '0'
  else
    let padded := List.replicate (places + 1 - text.length) '0' ++ text
    let whole := padded.take (padded.length - places)
    let tail := padded.drop (padded.length - places)
    let trimmed := (tail.reverse.dropWhile (· = '0')).reverse
    if trimmed.isEmpty then whole else whole ++ '.' :: trimmed

/-- Every finite number lies below `10 ^ 39`, and nine digits past its first tell it apart. -/
def magnitudeText (magnitude : Scaled) : List Char :=
  if magnitude.mantissa = 0 then ['0']
  else
    let (digits, grid) := firstGrid (interval magnitude) 39 100
    positional digits grid

def text (single : Single) : String :=
  match single.meaning with
  | .notANumber => "NaN"
  | .infinite negative => if negative then "-inf" else "inf"
  | .finite negative magnitude =>
      String.ofList (if negative then '-' :: magnitudeText magnitude else magnitudeText magnitude)

def isUnit (single : Single) : Bool :=
  match single.meaning with
  | .finite negative magnitude =>
      if negative then magnitude.mantissa = 0 else !Scaled.lt ⟨1, 0⟩ magnitude
  | _ => false

/-- The distance from zero; infinite patterns have none and count as zero. -/
def magnitude (single : Single) : Scaled :=
  match single.meaning with
  | .finite _ magnitude => magnitude
  | _ => ⟨0, 0⟩

end Single

end ElasticJob.Number
