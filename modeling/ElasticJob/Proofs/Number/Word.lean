import Mathlib.Algebra.Ring.Nat

/-!
Arithmetic of words of a fixed width that does not go on with a wrong number. A step whose exact
result is no word of the width has no result, and neither has a division by zero or a subtraction
from less. The laws say where there is a result; it is the exact one.
-/

namespace ElasticJob.Number.Word

variable {width wider : Nat}

def ofNat? (width value : Nat) : Option (BitVec width) :=
  if value < 2 ^ width then some (BitVec.ofNat width value) else none

def resize? (wider : Nat) (word : BitVec width) : Option (BitVec wider) :=
  ofNat? wider word.toNat

def add? (one other : BitVec width) : Option (BitVec width) :=
  ofNat? width (one.toNat + other.toNat)

def subtract? (one other : BitVec width) : Option (BitVec width) :=
  if other ≤ one then ofNat? width (one.toNat - other.toNat) else none

def multiply? (one other : BitVec width) : Option (BitVec width) :=
  ofNat? width (one.toNat * other.toNat)

def divide? (one other : BitVec width) : Option (BitVec width) :=
  if other = 0 then none else ofNat? width (one.toNat / other.toNat)

def remainder? (one other : BitVec width) : Option (BitVec width) :=
  if other = 0 then none else ofNat? width (one.toNat % other.toNat)

def larger (one other : BitVec width) : BitVec width :=
  if one < other then other else one

def smaller (one other : BitVec width) : BitVec width :=
  if one < other then one else other

/-- A computation has this number as its result. -/
def Gives (result : Option (BitVec width)) (value : Nat) : Prop :=
  ∃ word, result = some word ∧ word.toNat = value

/-- What is computed from a result has a number, if it has that number for every word of the
result's value. -/
theorem Gives.bind {result : Option (BitVec width)} {next : BitVec width → Option (BitVec wider)}
    {value last : Nat} (gives : Gives result value)
    (goes : ∀ word : BitVec width, word.toNat = value → Gives (next word) last) :
    Gives (result >>= next) last := by
  obtain ⟨word, rfl, same⟩ := gives
  exact goes word same

section Laws

variable (one other : BitVec width)

theorem ofNat?_gives {value : Nat} (fits : value < 2 ^ width) :
    Gives (ofNat? width value) value :=
  ⟨_, if_pos fits, (BitVec.toNat_ofNat ..).trans (Nat.mod_eq_of_lt fits)⟩

theorem resize?_gives (fits : one.toNat < 2 ^ wider) : Gives (resize? wider one) one.toNat :=
  ofNat?_gives fits

theorem widen_gives (wider : Nat) (wide : width ≤ wider) : Gives (resize? wider one) one.toNat :=
  resize?_gives one (Nat.lt_of_lt_of_le one.isLt (Nat.pow_le_pow_right (by decide) wide))

theorem add?_gives (fits : one.toNat + other.toNat < 2 ^ width) :
    Gives (add? one other) (one.toNat + other.toNat) :=
  ofNat?_gives fits

example : add? (255 : BitVec 8) 1 = none := by decide

theorem subtract?_gives (enough : other.toNat ≤ one.toNat) :
    Gives (subtract? one other) (one.toNat - other.toNat) := by
  rw [subtract?, if_pos (BitVec.le_def.mpr enough)]
  exact ofNat?_gives (by have := one.isLt; omega)

theorem multiply?_gives (fits : one.toNat * other.toNat < 2 ^ width) :
    Gives (multiply? one other) (one.toNat * other.toNat) :=
  ofNat?_gives fits

theorem ne_zero {other : BitVec width} (positive : 0 < other.toNat) : other ≠ 0 := by
  rintro rfl
  exact Nat.lt_irrefl 0 positive

theorem divide?_gives (positive : 0 < other.toNat) :
    Gives (divide? one other) (one.toNat / other.toNat) := by
  rw [divide?, if_neg (ne_zero positive)]
  exact ofNat?_gives (Nat.lt_of_le_of_lt (Nat.div_le_self ..) one.isLt)

theorem remainder?_gives (positive : 0 < other.toNat) :
    Gives (remainder? one other) (one.toNat % other.toNat) := by
  rw [remainder?, if_neg (ne_zero positive)]
  exact ofNat?_gives (Nat.lt_of_le_of_lt (Nat.mod_le ..) one.isLt)

theorem toNat_larger : (larger one other).toNat = max one.toNat other.toNat := by
  unfold larger
  split <;> rename_i less <;> rw [BitVec.lt_def] at less <;> omega

theorem toNat_smaller : (smaller one other).toNat = min one.toNat other.toNat := by
  unfold smaller
  split <;> rename_i less <;> rw [BitVec.lt_def] at less <;> omega

end Laws

end ElasticJob.Number.Word
