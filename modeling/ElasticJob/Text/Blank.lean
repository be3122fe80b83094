/-!
Blank characters of a text are those with the Unicode property White_Space, and trimming removes
them from both ends and nowhere else.
-/

namespace ElasticJob.Text

/-- The first and last code point of every run of White_Space. -/
def blankRanges : List (Nat × Nat) :=
  [(0x09, 0x0D), (0x20, 0x20), (0x85, 0x85), (0xA0, 0xA0), (0x1680, 0x1680), (0x2000, 0x200A),
   (0x2028, 0x2029), (0x202F, 0x202F), (0x205F, 0x205F), (0x3000, 0x3000)]

def inRanges (ranges : List (Nat × Nat)) (point : Nat) : Bool :=
  ranges.any fun range => range.1 ≤ point && point ≤ range.2

def isBlank (c : Char) : Bool :=
  inRanges blankRanges c.toNat

def trimStart (text : List Char) : List Char :=
  text.dropWhile isBlank

def trimEnd (text : List Char) : List Char :=
  (text.reverse.dropWhile isBlank).reverse

def trim (text : List Char) : List Char :=
  trimEnd (trimStart text)

theorem trim_eq_self {text : List Char} (solid : ∀ c ∈ text, isBlank c = false) :
    trim text = text := by
  have start : ∀ chars : List Char, (∀ c ∈ chars, isBlank c = false) →
      chars.dropWhile isBlank = chars := by
    intro chars none
    cases chars with
    | nil => rfl
    | cons head rest => simp [none head]
  rw [trim, trimStart, start text solid, trimEnd, start text.reverse (by simpa using solid),
    List.reverse_reverse]

theorem trim_surrounded {before text after : List Char} (solid : ∀ c ∈ text, isBlank c = false)
    (blankBefore : ∀ c ∈ before, isBlank c = true) (blankAfter : ∀ c ∈ after, isBlank c = true)
    (nonempty : text ≠ []) : trim (before ++ text ++ after) = text := by
  have skip : ∀ blanks rest : List Char, (∀ c ∈ blanks, isBlank c = true) →
      (blanks ++ rest).dropWhile isBlank = rest.dropWhile isBlank := by
    intro blanks rest all
    induction blanks with
    | nil => rfl
    | cons head tail ih =>
        rw [List.cons_append, List.dropWhile_cons, if_pos (all head List.mem_cons_self)]
        exact ih fun c member => all c (List.mem_cons_of_mem _ member)
  have stop : ∀ chars rest : List Char, chars ≠ [] → (∀ c ∈ chars, isBlank c = false) →
      (chars ++ rest).dropWhile isBlank = chars ++ rest := by
    intro chars rest some none
    cases chars with
    | nil => exact absurd rfl some
    | cons head tail => simp [none head]
  rw [trim, trimStart, List.append_assoc, skip _ _ blankBefore, stop _ _ nonempty solid, trimEnd,
    List.reverse_append, skip _ _ (by simpa using blankAfter)]
  have whole := stop text.reverse [] (by simpa using nonempty) (by simpa using solid)
  rw [List.append_nil] at whole
  rw [whole, List.reverse_reverse]

end ElasticJob.Text
