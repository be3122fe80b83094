import ElasticJob.Number.Integer

/-!
Printing an integer and reading it again. The digits of a number name the numbers that reading comes
past on its way, each nearer to zero than the next, so where the number itself is in the range of a
kind none of them leaves it, and where it is not, reading stops at the first one that does.
-/

namespace ElasticJob.Number

def signed (negative : Bool) (magnitude : Nat) : Int :=
  if negative then -magnitude else magnitude

theorem digit?_of_isDigit {c : Char} (digit : c.isDigit = true) :
    digit? c = some (c.toNat - 48) := by
  have bounds : 48 ≤ c.toNat ∧ c.toNat ≤ 57 := by
    simpa [Char.isDigit, UInt32.le_iff_toNat_le] using digit
  simp [digit?, bounds]

theorem ofDigitChars_le (chars : List Char) (start : Nat) :
    start ≤ Nat.ofDigitChars 10 chars start := by
  induction chars generalizing start with
  | nil => exact Nat.le_of_eq Nat.ofDigitChars_nil.symm
  | cons c rest ih =>
      rw [Nat.ofDigitChars_cons]
      exact Nat.le_trans (by omega) (ih _)

theorem IntegerKind.InRange.nearer {kind : IntegerKind} {negative : Bool} {near far : Nat}
    (inside : kind.InRange (signed negative far)) (before : near ≤ far) :
    kind.InRange (signed negative near) := by
  have zero : kind.least ≤ 0 ∧ 0 ≤ kind.greatest := by cases kind <;> decide
  unfold InRange signed at *
  split at inside <;> simp_all <;> omega

def IntegerKind.bounded (kind : IntegerKind) (negative : Bool) (magnitude : Nat) :
    Except IntegerFault Int :=
  if kind.InRange (signed negative magnitude) then .ok (signed negative magnitude)
  else .error (if negative then .tooSmall else .tooLarge)

theorem signed_next (negative : Bool) (magnitude digit : Nat) :
    (if negative then signed negative magnitude * 10 - (digit : Int)
      else signed negative magnitude * 10 + (digit : Int)) =
      signed negative (10 * magnitude + digit) := by
  cases negative <;> simp [signed] <;> omega

theorem IntegerKind.leaves (kind : IntegerKind) (negative : Bool) {magnitude : Nat}
    (outside : ¬ kind.InRange (signed negative magnitude)) :
    if negative then signed negative magnitude < kind.least
    else kind.least ≤ signed negative magnitude ∧ kind.greatest < signed negative magnitude := by
  have zero : kind.least ≤ 0 ∧ 0 ≤ kind.greatest := by cases kind <;> decide
  unfold InRange signed at *
  cases negative <;> simp_all <;> omega

/-- Digits are read up to the number that they name, or up to the first one that is out of range. -/
theorem readDigits_eq (kind : IntegerKind) (negative : Bool) {chars : List Char}
    (digits : ∀ c ∈ chars, c.isDigit = true) (start : Nat)
    (begun : kind.InRange (signed negative start)) :
    readDigits kind negative (signed negative start) chars =
      kind.bounded negative (Nat.ofDigitChars 10 chars start) := by
  induction chars generalizing start with
  | nil => simp [readDigits, IntegerKind.bounded, begun]
  | cons c rest ih =>
      have zero : '0'.toNat = 48 := rfl
      rw [Nat.ofDigitChars_cons, readDigits, digit?_of_isDigit (digits c List.mem_cons_self)]
      simp only [signed_next, zero]
      by_cases inside : kind.InRange (signed negative (10 * start + (c.toNat - 48)))
      · rw [if_neg (Int.not_lt.mpr inside.1), if_neg (Int.not_lt.mpr inside.2)]
        exact ih (fun other listed => digits other (List.mem_cons_of_mem _ listed)) _ inside
      · have final : ¬ kind.InRange (signed negative (Nat.ofDigitChars 10 rest
            (10 * start + (c.toNat - 48)))) :=
          fun reached => inside (reached.nearer (ofDigitChars_le rest _))
        have left := kind.leaves negative inside
        rw [IntegerKind.bounded, if_neg final]
        cases negative with
        | false =>
            obtain ⟨above, beyond⟩ := left
            rw [if_neg (Int.not_lt.mpr above), if_pos beyond]
            rfl
        | true =>
            rw [if_pos (show _ < kind.least from left)]
            rfl

theorem isBlank_of_isDigit {c : Char} (digit : c.isDigit = true) : Text.isBlank c = false := by
  have bounds : 48 ≤ c.toNat ∧ c.toNat ≤ 57 := by
    simpa [Char.isDigit, UInt32.le_iff_toNat_le] using digit
  simp [Text.isBlank, Text.inRanges, Text.blankRanges]
  omega

theorem readInteger_digits (kind : IntegerKind) {chars : List Char} (filled : chars ≠ [])
    (digits : ∀ c ∈ chars, c.isDigit = true) :
    readInteger kind chars = readDigits kind false 0 chars := by
  have plain : ∀ sign rest, chars = sign :: rest → sign.isDigit = true :=
    fun sign rest same => digits sign (same ▸ List.mem_cons_self)
  unfold readInteger
  split
  · exact absurd rfl filled
  · exact absurd (plain _ _ rfl) (by decide)
  · exact absurd (plain _ _ rfl) (by decide)
  · exact absurd (plain _ _ rfl) (by decide)
  · exact absurd (plain _ _ rfl) (by decide)
  · rfl

theorem readInteger_minus (kind : IntegerKind) {chars : List Char} (filled : chars ≠ []) :
    readInteger kind ('-' :: chars) =
      if kind.isSigned then readDigits kind true 0 chars else .error .invalidDigit := by
  cases chars with
  | nil => exact absurd rfl filled
  | cons first rest => rfl

theorem integerText_ofNat (magnitude : Nat) :
    (integerText (.ofNat magnitude)).toList = Nat.toDigits 10 magnitude := by
  rw [integerText, Nat.toList_repr]

theorem integerText_negSucc (less : Nat) :
    (integerText (.negSucc less)).toList = '-' :: Nat.toDigits 10 (less + 1) := by
  simp [integerText, Nat.toList_repr]

theorem isDigit_of_mem {magnitude : Nat} {c : Char} (listed : c ∈ Nat.toDigits 10 magnitude) :
    c.isDigit = true :=
  Nat.isDigit_of_mem_toDigits (by decide) (by decide) listed

theorem readDigits_toDigits (kind : IntegerKind) (negative : Bool) (magnitude : Nat) :
    readDigits kind negative 0 (Nat.toDigits 10 magnitude) = kind.bounded negative magnitude := by
  have begun : kind.InRange (signed negative 0) := by cases kind <;> cases negative <;> decide
  have digits : ∀ c ∈ Nat.toDigits 10 magnitude, c.isDigit = true := fun c => isDigit_of_mem
  have done := readDigits_eq kind negative digits 0 begun
  rw [Nat.ofDigitChars_ten_toDigits] at done
  cases negative <;> exact done

theorem integerText_ne_nil (value : Int) : (integerText value).toList ≠ [] := by
  cases value with
  | ofNat magnitude =>
      rw [integerText_ofNat]
      exact Nat.toDigits_ne_nil
  | negSucc less =>
      rw [integerText_negSucc]
      exact List.cons_ne_nil _ _

theorem integerText_solid (value : Int) :
    ∀ c ∈ (integerText value).toList, Text.isBlank c = false := by
  have solid : ∀ magnitude : Nat, ∀ c ∈ Nat.toDigits 10 magnitude, Text.isBlank c = false :=
    fun magnitude c listed => isBlank_of_isDigit (isDigit_of_mem listed)
  cases value with
  | ofNat magnitude =>
      rw [integerText_ofNat]
      exact solid magnitude
  | negSucc less =>
      rw [integerText_negSucc]
      exact List.forall_mem_cons.mpr ⟨by decide, solid (less + 1)⟩

/-- Why the text of a number out of the range of a kind is refused. A kind without a sign does not
come to the digits of a number below zero. -/
def IntegerKind.refusal (kind : IntegerKind) (value : Int) : IntegerFault :=
  if 0 ≤ value then .tooLarge else if kind.isSigned then .tooSmall else .invalidDigit

/-- Every kind reads the text of a number in its range as that number, and refuses every other. -/
theorem readInteger_integerText (kind : IntegerKind) (value : Int) :
    readInteger kind (integerText value).toList =
      if kind.InRange value then .ok value else .error (kind.refusal value) := by
  cases value with
  | ofNat magnitude =>
      have above : (0 : Int) ≤ .ofNat magnitude := Int.natCast_nonneg _
      rw [integerText_ofNat,
        readInteger_digits kind Nat.toDigits_ne_nil (fun c => isDigit_of_mem),
        readDigits_toDigits, IntegerKind.refusal, if_pos above]
      rfl
  | negSucc less =>
      have below : ¬ (0 : Int) ≤ .negSucc less := by omega
      have same : signed true (less + 1) = .negSucc less := by
        simp [signed, Int.negSucc_eq]
      rw [integerText_negSucc, readInteger_minus kind Nat.toDigits_ne_nil,
        readDigits_toDigits, IntegerKind.bounded, same, IntegerKind.refusal, if_neg below]
      by_cases isSigned : kind.isSigned = true
      · rw [if_pos isSigned, if_pos isSigned]
        rfl
      · have outside : ¬ kind.InRange (.negSucc less) := by
          cases kind <;> simp_all [IntegerKind.isSigned, IntegerKind.InRange, IntegerKind.least]
        rw [if_neg isSigned, if_neg isSigned, if_neg outside]

theorem parseInteger_integerText (kind : IntegerKind) (value : Int) :
    parseInteger kind (integerText value) =
      if kind.InRange value then .ok value else .error (kind.refusal value) := by
  rw [parseInteger, Text.trim_eq_self (integerText_solid value), readInteger_integerText]

theorem parseInteger_surrounded (kind : IntegerKind) (value : Int) {before after : List Char}
    (blankBefore : ∀ c ∈ before, Text.isBlank c = true)
    (blankAfter : ∀ c ∈ after, Text.isBlank c = true) :
    parseInteger kind (String.ofList (before ++ (integerText value).toList ++ after)) =
      parseInteger kind (integerText value) := by
  rw [parseInteger, parseInteger, String.toList_ofList,
    Text.trim_surrounded (integerText_solid value) blankBefore blankAfter
      (integerText_ne_nil value), Text.trim_eq_self (integerText_solid value)]

end ElasticJob.Number
