/-!
Binary rounding in exact arithmetic. A positive quotient is rounded to a given number of
significant bits, to the nearest, and a half goes to the even neighbour. Nothing here depends on
the machine's floating point.
-/

namespace ElasticJob.Number

def twoTo (exponent : Nat) : Nat := Nat.pow 2 exponent

def tenTo (exponent : Nat) : Nat := Nat.pow 10 exponent

/-- The value `mantissa * 2 ^ exponent`. -/
structure Scaled where
  mantissa : Nat
  exponent : Int
  deriving DecidableEq, Repr

namespace Scaled

def align (a b : Scaled) : Nat × Nat :=
  let low := min a.exponent b.exponent
  (a.mantissa * twoTo (a.exponent - low).toNat, b.mantissa * twoTo (b.exponent - low).toNat)

def lt (a b : Scaled) : Bool :=
  let aligned := align a b
  aligned.1 < aligned.2

def fraction (a : Scaled) : Nat × Nat :=
  (a.mantissa * twoTo a.exponent.toNat, twoTo (-a.exponent).toNat)

end Scaled

/-- The quotient to the nearest integer, a half to the even one. -/
def divideToEven (numerator denominator : Nat) : Nat :=
  let quotient := numerator / denominator
  let rest := numerator % denominator
  if 2 * rest < denominator then quotient
  else if denominator < 2 * rest then quotient + 1
  else if quotient % 2 = 0 then quotient else quotient + 1

def unitsToEven (numerator denominator : Nat) (exponent : Int) : Nat :=
  divideToEven (numerator * twoTo (-exponent).toNat) (denominator * twoTo exponent.toNat)

/-- The exponent at which the quotient has `precision` bits, but never below `floor`. -/
def quotientExponent (precision : Nat) (floor : Int) (numerator denominator : Nat) : Int :=
  let guess : Int := (Nat.log2 numerator : Int) - Nat.log2 denominator - precision
  let units := numerator * twoTo (-guess).toNat / (denominator * twoTo guess.toNat)
  max floor (if units < twoTo precision then guess else guess + 1)

def roundQuotient (precision : Nat) (floor : Int) (numerator denominator : Nat) : Scaled :=
  let exponent := quotientExponent precision floor numerator denominator
  let units := unitsToEven numerator denominator exponent
  if units = twoTo precision then ⟨twoTo (precision - 1), exponent + 1⟩ else ⟨units, exponent⟩

/-- Double precision has 53 bits; its smallest unit is `2 ^ -1074`. -/
def toDouble (value : Nat) : Scaled :=
  roundQuotient 53 (-1074) value 1

def doubleQuotient (numerator denominator : Nat) : Scaled :=
  let above := (toDouble numerator).fraction
  let below := (toDouble denominator).fraction
  roundQuotient 53 (-1074) (above.1 * below.2) (above.2 * below.1)

end ElasticJob.Number
