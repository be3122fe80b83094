import ElasticJob.Text.Utf8
import Mathlib.Data.String.Basic

/-!
The texts of bytes and the bytes of texts. The encoder writes the standard bytes of a text, the
decoder accepts exactly those and gives the text back, and the order of texts by their characters
is the order of their bytes.
-/

namespace ElasticJob.Text.Utf8

theorem point_bound (c : Char) :
    c.toNat < 0xD800 ∨ 0xDFFF < c.toNat ∧ c.toNat < 0x110000 := c.valid

theorem encodePoint_toNat (c : Char) : encodePoint c.toNat = String.utf8EncodeChar c := by
  have bound := point_bound c
  have point : c.val.toNat = c.toNat := rfl
  simp only [encodePoint, String.utf8EncodeChar, point]
  split_ifs
  all_goals first
    | omega
    | simp only [List.cons.injEq, ← UInt8.toNat_inj, UInt8.toNat_ofNat', and_true]
  all_goals omega

theorem encode_eq_toByteArray (text : String) : encode text = text.toByteArray.data.toList := by
  rw [← String.utf8Encode_toList, List.utf8Encode, List.toList_data_toByteArray]
  exact List.flatMap_congr fun c _ => encodePoint_toNat c

theorem length_encode (text : String) : (encode text).length = text.utf8ByteSize := by
  rw [encode_eq_toByteArray]
  rfl

section Bytes

variable {lead second byte : UInt8}

theorem toNat_ofNat_of_lt (value : Nat) (small : value < 256) :
    (UInt8.ofNat value).toNat = value := by
  rw [UInt8.toNat_ofNat', Nat.mod_eq_of_lt small]

theorem width_eq_one_iff : width lead = 1 ↔ lead.toNat < 0x80 := by
  unfold width
  split_ifs <;> simp <;> omega

theorem width_eq_two_iff : width lead = 2 ↔ 0xC2 ≤ lead.toNat ∧ lead.toNat < 0xE0 := by
  unfold width
  split_ifs <;> simp <;> omega

theorem width_eq_three_iff : width lead = 3 ↔ 0xE0 ≤ lead.toNat ∧ lead.toNat < 0xF0 := by
  unfold width
  split_ifs <;> simp <;> omega

theorem width_eq_four_iff : width lead = 4 ↔ 0xF0 ≤ lead.toNat ∧ lead.toNat < 0xF5 := by
  unfold width
  split_ifs <;> simp <;> omega

theorem isTail_iff : isTail byte = true ↔ 0x80 ≤ byte.toNat ∧ byte.toNat < 0xC0 := by
  simp [isTail]

theorem isSecond_iff :
    isSecond lead second = true ↔ 0x80 ≤ second.toNat ∧ second.toNat < 0xC0 ∧
      (lead.toNat = 0xE0 → 0xA0 ≤ second.toNat) ∧ (lead.toNat = 0xF0 → 0x90 ≤ second.toNat) ∧
      (lead.toNat = 0xED → second.toNat < 0xA0) ∧ (lead.toNat = 0xF4 → second.toNat < 0x90) := by
  simp only [isSecond, Bool.and_eq_true, decide_eq_true_eq]
  split_ifs <;> omega

theorem isTail_of_isSecond (next : isSecond lead second = true) : isTail second = true := by
  rw [isSecond_iff] at next
  rw [isTail_iff]
  omega

end Bytes

inductive Form : Bytes → Nat → Prop where
  | one {lead : UInt8} (wide : width lead = 1) : Form [lead] lead.toNat
  | two {lead second : UInt8} (wide : width lead = 2) (next : isTail second = true) :
      Form [lead, second] (join (lead.toNat % 32) second)
  | three {lead second third : UInt8} (wide : width lead = 3) (next : isSecond lead second = true)
      (last : isTail third = true) :
      Form [lead, second, third] (join (join (lead.toNat % 16) second) third)
  | four {lead second third fourth : UInt8} (wide : width lead = 4)
      (next : isSecond lead second = true) (middle : isTail third = true)
      (last : isTail fourth = true) :
      Form [lead, second, third, fourth]
        (join (join (join (lead.toNat % 8) second) third) fourth)

theorem form_encodePoint (c : Char) : Form (encodePoint c.toNat) c.toNat := by
  have bound := point_bound c
  generalize c.toNat = point at bound
  unfold encodePoint
  split_ifs with one two three
  · have lead := toNat_ofNat_of_lt point (by omega)
    have form := Form.one (width_eq_one_iff.mpr (lead.trans_lt one))
    rwa [lead] at form
  · have lead := toNat_ofNat_of_lt (0xC0 + point / 64) (by omega)
    have second := toNat_ofNat_of_lt (0x80 + point % 64) (by omega)
    generalize UInt8.ofNat (0xC0 + point / 64) = leadByte at lead ⊢
    generalize UInt8.ofNat (0x80 + point % 64) = secondByte at second ⊢
    have wide : width leadByte = 2 := width_eq_two_iff.mpr (by omega)
    have next : isTail secondByte = true := isTail_iff.mpr (by omega)
    have whole : join (leadByte.toNat % 32) secondByte = point := by
      unfold join
      omega
    exact whole ▸ .two wide next
  · have lead := toNat_ofNat_of_lt (0xE0 + point / 4096) (by omega)
    have second := toNat_ofNat_of_lt (0x80 + point / 64 % 64) (by omega)
    have third := toNat_ofNat_of_lt (0x80 + point % 64) (by omega)
    generalize UInt8.ofNat (0xE0 + point / 4096) = leadByte at lead ⊢
    generalize UInt8.ofNat (0x80 + point / 64 % 64) = secondByte at second ⊢
    generalize UInt8.ofNat (0x80 + point % 64) = thirdByte at third ⊢
    have wide : width leadByte = 3 := width_eq_three_iff.mpr (by omega)
    have next : isSecond leadByte secondByte = true := isSecond_iff.mpr (by omega)
    have last : isTail thirdByte = true := isTail_iff.mpr (by omega)
    have whole : join (join (leadByte.toNat % 16) secondByte) thirdByte = point := by
      unfold join
      omega
    exact whole ▸ .three wide next last
  · have lead := toNat_ofNat_of_lt (0xF0 + point / 262144) (by omega)
    have second := toNat_ofNat_of_lt (0x80 + point / 4096 % 64) (by omega)
    have third := toNat_ofNat_of_lt (0x80 + point / 64 % 64) (by omega)
    have fourth := toNat_ofNat_of_lt (0x80 + point % 64) (by omega)
    generalize UInt8.ofNat (0xF0 + point / 262144) = leadByte at lead ⊢
    generalize UInt8.ofNat (0x80 + point / 4096 % 64) = secondByte at second ⊢
    generalize UInt8.ofNat (0x80 + point / 64 % 64) = thirdByte at third ⊢
    generalize UInt8.ofNat (0x80 + point % 64) = fourthByte at fourth ⊢
    have wide : width leadByte = 4 := width_eq_four_iff.mpr (by omega)
    have next : isSecond leadByte secondByte = true := isSecond_iff.mpr (by omega)
    have middle : isTail thirdByte = true := isTail_iff.mpr (by omega)
    have last : isTail fourthByte = true := isTail_iff.mpr (by omega)
    have whole : join (join (join (leadByte.toNat % 8) secondByte) thirdByte) fourthByte =
        point := by
      unfold join
      omega
    exact whole ▸ .four wide next middle last

theorem Form.cons {bytes : Bytes} {point : Nat} (form : Form bytes point) :
    ∃ lead more, bytes = lead :: more := by
  cases form <;> exact ⟨_, _, rfl⟩

theorem Form.isPoint {bytes : Bytes} {point : Nat} (form : Form bytes point) :
    point < 0xD800 ∨ 0xDFFF < point ∧ point < 0x110000 := by
  cases form with
  | one wide =>
      rw [width_eq_one_iff] at wide
      omega
  | two wide next =>
      rw [width_eq_two_iff] at wide
      rw [isTail_iff] at next
      unfold join
      omega
  | three wide next last =>
      rw [width_eq_three_iff] at wide
      rw [isSecond_iff] at next
      rw [isTail_iff] at last
      unfold join
      omega
  | four wide next middle last =>
      rw [width_eq_four_iff] at wide
      rw [isSecond_iff] at next
      rw [isTail_iff] at middle last
      unfold join
      omega

theorem Form.toNat_ofNat {bytes : Bytes} {point : Nat} (form : Form bytes point) :
    (Char.ofNat point).toNat = point := by
  rw [Char.ofNat, dif_pos form.isPoint]
  rfl

theorem Form.encodePoint_eq {bytes : Bytes} {point : Nat} (form : Form bytes point) :
    encodePoint point = bytes := by
  cases form with
  | one wide =>
      rw [width_eq_one_iff] at wide
      simp [encodePoint, wide]
  | two wide next =>
      rw [width_eq_two_iff] at wide
      rw [isTail_iff] at next
      unfold join encodePoint
      split_ifs <;> first | omega | skip
      simp only [List.cons.injEq, ← UInt8.toNat_inj, UInt8.toNat_ofNat', and_true]
      omega
  | three wide next last =>
      rw [width_eq_three_iff] at wide
      rw [isSecond_iff] at next
      rw [isTail_iff] at last
      unfold join encodePoint
      split_ifs <;> first | omega | skip
      simp only [List.cons.injEq, ← UInt8.toNat_inj, UInt8.toNat_ofNat', and_true]
      omega
  | four wide next middle last =>
      rw [width_eq_four_iff] at wide
      rw [isSecond_iff] at next
      rw [isTail_iff] at middle last
      unfold join encodePoint
      split_ifs <;> first | omega | skip
      simp only [List.cons.injEq, ← UInt8.toNat_inj, UInt8.toNat_ofNat', and_true]
      omega

theorem Form.decode {bytes : Bytes} {point : Nat} (form : Form bytes point) (index : Nat)
    (rest : Bytes) :
    decodeFrom index (bytes ++ rest) =
      (decodeFrom (index + bytes.length) rest).map (Char.ofNat point :: ·) := by
  cases form with
  | one wide =>
      rw [decodeFrom.eq_def]
      simp only [List.cons_append, List.nil_append, wide]
      rfl
  | two wide next =>
      rw [decodeFrom.eq_def]
      simp only [List.cons_append, List.nil_append, wide, next, if_true]
      rfl
  | three wide next last =>
      rw [decodeFrom.eq_def]
      simp only [List.cons_append, List.nil_append, wide, next, last, if_true]
      rfl
  | four wide next middle last =>
      rw [decodeFrom.eq_def]
      simp only [List.cons_append, List.nil_append, wide, next, middle, last, if_true]
      rfl

theorem decodeFrom_ok {index : Nat} {bytes : Bytes} {chars : List Char}
    (decoded : decodeFrom index bytes = .ok chars) :
    bytes = [] ∧ chars = [] ∨
      ∃ form point rest later, Form form point ∧ bytes = form ++ rest ∧
        decodeFrom (index + form.length) rest = .ok later ∧ chars = Char.ofNat point :: later := by
  -- every way to go on reads one form, every other way fails
  have reads : ∀ (form rest : Bytes) (point : Nat), Form form point →
      (decodeFrom (index + form.length) rest).map (Char.ofNat point :: ·) = .ok chars →
        ∃ form' point' rest' later, Form form' point' ∧ form ++ rest = form' ++ rest' ∧
          decodeFrom (index + form'.length) rest' = .ok later ∧
          chars = Char.ofNat point' :: later := by
    intro form rest point shape done
    cases read : decodeFrom (index + form.length) rest with
    | error fault => simp [read, Except.map] at done
    | ok later =>
        simp only [read, Except.map, Except.ok.injEq] at done
        exact ⟨form, point, rest, later, shape, rfl, read, done.symm⟩
  rw [decodeFrom.eq_def] at decoded
  split at decoded
  · simp_all
  · right
    split at decoded
    · rename_i wide
      exact reads [_] _ _ (.one wide) decoded
    · rename_i wide
      split at decoded
      · cases decoded
      · split at decoded
        · rename_i next
          exact reads [_, _] _ _ (.two wide next) decoded
        · cases decoded
    · rename_i wide
      split at decoded
      · cases decoded
      · split at decoded
        · rename_i next
          split at decoded
          · cases decoded
          · split at decoded
            · rename_i last
              exact reads [_, _, _] _ _ (.three wide next last) decoded
            · cases decoded
        · cases decoded
    · rename_i wide
      split at decoded
      · cases decoded
      · split at decoded
        · rename_i next
          split at decoded
          · cases decoded
          · split at decoded
            · rename_i middle
              split at decoded
              · cases decoded
              · split at decoded
                · rename_i last
                  exact reads [_, _, _, _] _ _ (.four wide next middle last) decoded
                · cases decoded
            · cases decoded
        · cases decoded
    · cases decoded

theorem decodeFrom_encodeChars (chars : List Char) (index : Nat) :
    decodeFrom index (encodeChars chars) = .ok chars := by
  induction chars generalizing index with
  | nil => rfl
  | cons c rest ih =>
      rw [encodeChars, List.flatMap_cons, (form_encodePoint c).decode, ← encodeChars, ih,
        Char.ofNat_toNat]
      rfl

theorem encodeChars_of_decodeFrom (chars : List Char) (index : Nat) (bytes : Bytes)
    (decoded : decodeFrom index bytes = .ok chars) : encodeChars chars = bytes := by
  induction chars generalizing index bytes with
  | nil =>
      rcases decodeFrom_ok decoded with ⟨rfl, _⟩ | ⟨_, _, _, _, _, _, _, impossible⟩
      · rfl
      · cases impossible
  | cons c later ih =>
      rcases decodeFrom_ok decoded with ⟨_, impossible⟩ |
        ⟨form, point, rest, _, shape, rfl, read, same⟩
      · cases impossible
      · obtain ⟨rfl, rfl⟩ := List.cons.inj same
        rw [encodeChars, List.flatMap_cons, ← encodeChars, ih _ _ read, shape.toNat_ofNat,
          shape.encodePoint_eq]

theorem decode_ok_iff {bytes : Bytes} {text : String} :
    decode bytes = .ok text ↔ bytes = encode text := by
  unfold decode encode
  constructor
  · intro decoded
    cases read : decodeFrom 0 bytes with
    | error fault => simp [read, Except.map] at decoded
    | ok chars =>
        simp only [read, Except.map, Except.ok.injEq] at decoded
        rw [← decoded, String.toList_ofList, encodeChars_of_decodeFrom chars 0 bytes read]
  · rintro rfl
    rw [decodeFrom_encodeChars]
    simp [Except.map]

/-- Bytes are ordered as the numbers that they stand for, whatever follows them. -/
def Ordered (low : Nat) (first : Bytes) (high : Nat) (second : Bytes) : Prop :=
  (low < high → ∀ after later, first ++ after < second ++ later) ∧ (low = high → first = second)

theorem lead_ordered {lead other : UInt8} (bits : Nat)
    (less : lead.toNat % bits < other.toNat % bits → lead.toNat < other.toNat)
    (same : lead.toNat % bits = other.toNat % bits → lead.toNat = other.toNat) :
    Ordered (lead.toNat % bits) [lead] (other.toNat % bits) [other] := by
  refine ⟨fun lower after later => ?_, fun equal => by rw [UInt8.toNat_inj.mp (same equal)]⟩
  exact List.cons_lt_cons_iff.mpr (.inl (UInt8.lt_iff_toNat_lt.mpr (less lower)))

theorem Ordered.join {low high : Nat} {first second : Bytes} {tail other : UInt8}
    (ordered : Ordered low first high second) (next : isTail tail = true)
    (last : isTail other = true) :
    Ordered (join low tail) (first ++ [tail]) (join high other) (second ++ [other]) := by
  rw [isTail_iff] at next last
  unfold Utf8.join
  constructor
  · intro less after later
    simp only [List.append_assoc, List.singleton_append]
    -- six bits of a tail cannot make up for less before them
    rcases Nat.lt_or_ge low high with lower | above
    · exact ordered.1 lower _ _
    · rw [ordered.2 (by omega)]
      refine List.append_left_lt (List.cons_lt_cons_iff.mpr (.inl ?_))
      rw [UInt8.lt_iff_toNat_lt]
      omega
  · intro same
    have equal : tail.toNat = other.toNat := by omega
    rw [ordered.2 (by omega), UInt8.toNat_inj.mp equal]

theorem Form.bounds {lead : UInt8} {more : Bytes} {point : Nat} (form : Form (lead :: more) point) :
    more.length = 0 ∧ lead.toNat < 0x80 ∧ point < 0x80 ∨
      more.length = 1 ∧ (0xC2 ≤ lead.toNat ∧ lead.toNat < 0xE0) ∧ 0x80 ≤ point ∧ point < 0x800 ∨
      more.length = 2 ∧ (0xE0 ≤ lead.toNat ∧ lead.toNat < 0xF0) ∧
        0x800 ≤ point ∧ point < 0x10000 ∨
      more.length = 3 ∧ 0xF0 ≤ lead.toNat ∧ 0x10000 ≤ point := by
  cases form with
  | one wide =>
      rw [width_eq_one_iff] at wide
      exact .inl ⟨rfl, wide, wide⟩
  | two wide next =>
      rw [width_eq_two_iff] at wide
      rw [isTail_iff] at next
      refine .inr (.inl ⟨rfl, wide, ?_⟩)
      unfold join
      omega
  | three wide next last =>
      rw [width_eq_three_iff] at wide
      rw [isSecond_iff] at next
      rw [isTail_iff] at last
      refine .inr (.inr (.inl ⟨rfl, wide, ?_⟩))
      unfold join
      omega
  | four wide next middle last =>
      rw [width_eq_four_iff] at wide
      rw [isSecond_iff] at next
      rw [isTail_iff] at middle last
      refine .inr (.inr (.inr ⟨rfl, wide.1, ?_⟩))
      unfold join
      omega

/-- The first byte that differs decides, and no form starts another one. -/
theorem Form.lt {first second : Bytes} {low high : Nat} (lower : Form first low)
    (higher : Form second high) (less : low < high) (after later : Bytes) :
    first ++ after < second ++ later := by
  by_cases same : first.length = second.length
  · cases lower <;> cases higher
    case one.one => exact List.cons_lt_cons_iff.mpr (.inl (UInt8.lt_iff_toNat_lt.mpr less))
    case two.two wide next _ _ other next' =>
      rw [width_eq_two_iff] at wide other
      exact ((lead_ordered 32 (by omega) (by omega)).join next next').1 less after later
    case three.three wide next last _ _ _ other next' last' =>
      rw [width_eq_three_iff] at wide other
      exact (((lead_ordered 16 (by omega) (by omega)).join (isTail_of_isSecond next)
        (isTail_of_isSecond next')).join last last').1 less after later
    case four.four wide next middle last _ _ _ _ other next' middle' last' =>
      rw [width_eq_four_iff] at wide other
      exact ((((lead_ordered 8 (by omega) (by omega)).join (isTail_of_isSecond next)
        (isTail_of_isSecond next')).join middle middle').join last last').1 less after later
    all_goals cases same
  · -- forms of two lengths differ in the first byte
    obtain ⟨lead, more, rfl⟩ := lower.cons
    obtain ⟨other, others, rfl⟩ := higher.cons
    have one := lower.bounds
    have two := higher.bounds
    rw [List.length_cons, List.length_cons] at same
    refine List.cons_lt_cons_iff.mpr (.inl (UInt8.lt_iff_toNat_lt.mpr ?_))
    omega

theorem encodeChars_lt {first second : List Char} (less : first < second) :
    encodeChars first < encodeChars second := by
  induction first generalizing second with
  | nil =>
      cases second with
      | nil => exact absurd less (List.lt_irrefl _)
      | cons c rest =>
          rw [encodeChars, encodeChars, List.flatMap_cons]
          rcases (form_encodePoint c).cons with ⟨lead, more, same⟩
          rw [same]
          exact List.nil_lt_cons _ _
  | cons c rest ih =>
      cases second with
      | nil => exact absurd less (List.not_lt_nil _)
      | cons d others =>
          rw [encodeChars, encodeChars, List.flatMap_cons, List.flatMap_cons]
          rcases List.cons_lt_cons_iff.mp less with lower | ⟨rfl, later⟩
          · exact (form_encodePoint c).lt (form_encodePoint d) lower _ _
          · exact List.append_left_lt (ih later)

/-- Texts are ordered as their bytes are. -/
theorem encode_lt_iff {first second : String} : encode first < encode second ↔ first < second := by
  have keeps : ∀ {low high : String}, low < high → encode low < encode high :=
    fun less => encodeChars_lt (String.lt_iff_toList_lt.mp less)
  constructor
  · intro less
    rcases lt_trichotomy first second with lower | rfl | higher
    · exact lower
    · exact absurd less (List.lt_irrefl _)
    · exact absurd (keeps higher) (List.lt_asymm less)
  · exact keeps

end ElasticJob.Text.Utf8
